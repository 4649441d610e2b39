import Hotload.Syntax.Token

/-!
# Syntax errors

What can be wrong with a program text, where, and how it is said.

* `Fault.message`: the wording.
* `SyntaxError.text`: the wording with the position.
-/

namespace Hotload.Syntax

/-- What the grammar asks for at a place. -/
inductive Expected where
  | keyword (k : Keyword)
  | mark (m : Mark)
  | variableName
  | typeName
  | parameterName
  | propertyName
  | namespaceName
  | importedName
  | exportedName
  | importClause
  | moduleSpecifier
  | exportForm
  | expression
deriving DecidableEq, Repr

/-- How error messages name what is asked for. -/
def Expected.describe : Expected → String
  | keyword k => "`" ++ k.spelling ++ "`"
  | mark m => "`" ++ m.spelling ++ "`"
  | variableName => "variable name"
  | typeName => "type name"
  | parameterName => "parameter name"
  | propertyName => "property name"
  | namespaceName => "namespace name"
  | importedName => "local name"
  | exportedName => "name"
  | importClause => "import clause"
  | moduleSpecifier => "module specifier"
  | exportForm => "`default`, `let`, `fn` or `\x7b` after `export`"
  | expression => "expression"

/-- The deepest nesting of blocks and operands that a program may have. -/
def maxNesting : Nat := 100

/-- What is wrong with a program text. -/
inductive Fault where
  | unterminatedComment
  | unterminatedString
  | invalidEscape
  | invalidUnicodeEscape
  | unexpectedCharacter (c : Char)
  | unexpected (expected : Expected) (found : Token)
  | tooDeep
  /-- A module declaration in the dialect that has none. -/
  | uncompiled (k : Keyword)
  /-- A module declaration inside a block. -/
  | notAtTopLevel (k : Keyword)
  | invalidTarget
  | unnamedExport

/-- The wording of a fault. -/
def Fault.message : Fault → String
  | unterminatedComment => "unterminated block comment"
  | unterminatedString => "unterminated string literal"
  | invalidEscape => "invalid escape sequence"
  | invalidUnicodeEscape => "invalid unicode escape"
  | unexpectedCharacter c => "unexpected character `" ++ c.toString ++ "`"
  | unexpected expected found =>
    "expected " ++ expected.describe ++ ", found " ++ found.describe
  | tooDeep => "nesting exceeds " ++ toString maxNesting ++ " levels"
  | uncompiled k => "`" ++ k.spelling ++ "` must be compiled before execution"
  | notAtTopLevel k => "`" ++ k.spelling ++ "` declarations may only appear at top level"
  | invalidTarget => "invalid assignment target"
  | unnamedExport => "exported function declarations need a name"

/-- A fault and where it is. -/
structure SyntaxError where
  fault : Fault
  pos : Pos

namespace SyntaxError

/-- The wording without the position. -/
def message (e : SyntaxError) : String := e.fault.message

/-- The wording with the position in parentheses. -/
def text (e : SyntaxError) : String := e.message ++ " (" ++ e.pos.text ++ ")"

end SyntaxError

end Hotload.Syntax
