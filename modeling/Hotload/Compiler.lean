import Hotload.Error
import Hotload.Json.Writer
import Hotload.SourceMap
import Hotload.Syntax.Parser
import Hotload.Syntax.Printer

/-!
# Compiling modules

A compiler turns the text of a module into core code and, if asked, a source map.

* `transpile`: the compiler of the surface dialect.
* `SourceMap.toJson`, `SourceMap.inlineComment`: a source map as text.
-/

namespace Hotload

open Syntax (Pos)

/-- Compiled code and its source map. -/
structure Compiled where
  code : String
  map : Option SourceMap
deriving DecidableEq

/-- A compiler, given the file's path, its text, and whether a source map is wanted. -/
abbrev Compiler := Path → String → Bool → Except CompileError Compiled

/-- A syntax error as the error of compiling a file with this text. -/
def syntaxFailure (path : Path) (source : String) (e : Syntax.SyntaxError) : CompileError :=
  (CompileError.mk path e.message (some e.pos) none).withFrame source

/-- Prints a surface program as core code that keeps its lines. -/
def transpile : Compiler := fun path source wantMap =>
  match Syntax.parseSurface source.toList with
  | .error e => .error (syntaxFailure path source e)
  | .ok items =>
    let layout := Syntax.layOut (Syntax.printProgram items)
    .ok ⟨String.ofList layout.code, if wantMap then some layout.sourceMap else none⟩

/-- A position as JSON. -/
def positionJson (p : Pos) : Json :=
  .object [("line", .number (.natural p.line)), ("col", .number (.natural p.col))]

/-- A mapping as JSON. -/
def Mapping.toJson (m : Mapping) : Json :=
  .object [("generated", positionJson m.generated), ("original", positionJson m.source)]

namespace SourceMap

/-- A source map as JSON. -/
def toJson (m : SourceMap) : Json :=
  .object [("version", .number (.natural m.version)),
    ("mappings", .array (m.mappings.toList.map Mapping.toJson))]

/-- How the comment begins that holds a source map. -/
def inlinePrefix : String := "//# sourceMappingURL=data:application/json,"

/-- The comment that holds a source map. -/
def inlineComment (m : SourceMap) : String := inlinePrefix ++ String.ofList m.toJson.write

end SourceMap

end Hotload
