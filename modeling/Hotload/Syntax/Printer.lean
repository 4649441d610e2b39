import Hotload.Syntax.Layout
import Hotload.Syntax.Literal
import Hotload.Syntax.Lowering

/-!
# Printing programs

Surface programs are printed in the core dialect: expressions and statements as they are, with
parentheses around every operator between operands, and module declarations as the statements they
stand for.

* `Expr.print`, `Stmt.print`: the pieces of a tree that both dialects have.
* `Item.print`: the pieces of a statement or a module declaration.
* `printProgram`: the pieces of a surface program.
-/

namespace Hotload.Syntax

open Piece (str mark start)

/-- Functions and operators take parentheses in front of a call or access and behind an
operator. -/
def Expr.needsParens : Expr → Bool
  | .fn .. | .unary .. => true
  | _ => false

/-- Pieces in parentheses if need be. -/
def parenthesize (needed : Bool) (pieces : List Piece) : List Piece :=
  if needed then str "(" :: pieces ++ [str ")"] else pieces

/-- Texts with commas between them. -/
def commaSeparated : List String → List Char
  | [] => []
  | [s] => s.toList
  | s :: ss => s.toList ++ ", ".toList ++ commaSeparated ss

mutual

/-- The pieces of an expression. -/
def Expr.print : Expr → List Piece
  | .nil pos => [mark pos, str "nil"]
  | .bool pos value => [mark pos, str (if value then "true" else "false")]
  | .num pos value => [mark pos, .text (numeral value)]
  | .str pos value => [mark pos, .text (quote value.toList)]
  | .ident pos name => [mark pos, str name]
  | .list pos items => mark pos :: str "[" :: Expr.printList items ++ [str "]"]
  | .object pos fields =>
    mark pos :: str "\x7b" :: Expr.printFields " " fields ++
      [str (if fields.isEmpty then "\x7d" else " \x7d")]
  | .fn pos function => mark pos :: function.print
  | .call pos callee args =>
    parenthesize callee.needsParens callee.print ++
      mark pos :: str "(" :: Expr.printList args ++ [str ")"]
  | .member pos object name =>
    parenthesize object.needsParens object.print ++ [mark pos, str ".", str name]
  | .index pos object index =>
    parenthesize object.needsParens object.print ++
      mark pos :: str "[" :: index.print ++ [str "]"]
  | .unary pos op operand =>
    mark pos :: str op.spelling :: parenthesize operand.needsParens operand.print
  | .binary pos op lhs rhs =>
    mark pos :: str "(" :: lhs.print ++ [str " ", str op.spelling, str " "] ++ rhs.print ++
      [str ")"]

/-- The pieces of expressions with commas between them. -/
def Expr.printList : List Expr → List Piece
  | [] => []
  | [e] => e.print
  | e :: es => e.print ++ str ", " :: Expr.printList es

/-- The pieces of the fields of an object literal, with a text in front of the first one. -/
def Expr.printFields (before : String) : List (String × Expr) → List Piece
  | [] => []
  | (name, value) :: fields =>
    str before :: .text (key name) :: str ": " :: value.print ++ Expr.printFields ", " fields

/-- The pieces of a function. -/
def Function.print : Function → List Piece
  | .mk pos name params body =>
    mark pos :: str "fn" ::
      (match name with
        | some name => [str " ", str name]
        | none => []) ++
      [str "(", .text (commaSeparated params), str ") ", str "\x7b"] ++ Stmt.printList body ++
      [str " \x7d"]

/-- The pieces of a statement. -/
def Stmt.print : Stmt → List Piece
  | .declare pos name value =>
    start pos :: str "let " :: str name :: str " = " :: value.print ++ [str ";"]
  | .fn pos function => start pos :: function.print
  | .return_ pos (some value) => start pos :: str "return" :: str " " :: value.print ++ [str ";"]
  | .return_ pos none => [start pos, str "return", str ";"]
  | .throw_ pos value => start pos :: str "throw " :: value.print ++ [str ";"]
  | .if_ pos cond thenBody (some elseBody) =>
    start pos :: str "if (" :: cond.print ++ [str ") ", str "\x7b"] ++ Stmt.printList thenBody ++
      [str " \x7d", str " else ", str "\x7b"] ++ Stmt.printList elseBody ++ [str " \x7d"]
  | .if_ pos cond thenBody none =>
    start pos :: str "if (" :: cond.print ++ [str ") ", str "\x7b"] ++ Stmt.printList thenBody ++
      [str " \x7d"]
  | .assign pos target value =>
    start pos :: target.print ++ [str " = "] ++ value.print ++ [str ";"]
  | .expr pos value => start pos :: value.print ++ [str ";"]

/-- The pieces of statements. -/
def Stmt.printList : List Stmt → List Piece
  | [] => []
  | s :: ss => s.print ++ Stmt.printList ss

end

/-- `require("source")` -/
def printRequire (source : String) : List Piece :=
  [str "require(", .text (quote source.toList), str ")"]

/-- A further `let name = temp.imported;` of an import by names. -/
def printImported (pos : Pos) (temp : String) : String × String → List Piece
  | (imported, name) =>
    [str " ", mark pos, str "let ", str name, str " = ", str temp, str ".", str imported, str ";"]

/-- The pieces of an import declaration. -/
def printImport (pos : Pos) (temp : String) (source : String) : ImportClause → List Piece
  | .sideEffect => start pos :: printRequire source ++ [str ";"]
  | .default_ name =>
    start pos :: str "let " :: str name :: str " = __importDefault(" :: printRequire source ++
      [str ");"]
  | .namespace_ name =>
    start pos :: str "let " :: str name :: str " = " :: printRequire source ++ [str ";"]
  | .named names =>
    start pos :: str "let " :: str temp :: str " = " :: printRequire source ++ [str ";"] ++
      names.flatMap (printImported pos temp)

/-- `exports.exported = name;` -/
def printExport (exported name : String) : List Piece :=
  [str "exports.", str exported, str " = ", str name, str ";"]

/-- A further `exports.exported = name;` behind other text of an export. -/
def printExported (pos : Pos) (exported name : String) : List Piece :=
  str " " :: mark pos :: printExport exported name

/-- The pieces of an export declaration. -/
def printExportForm (pos : Pos) : ExportForm → List Piece
  | .default_ value => start pos :: str "exports.default = " :: value.print ++ [str ";"]
  | .fn function isDefault =>
    match function.name with
    | some name =>
      start pos :: function.print ++
        printExported pos (if isDefault then "default" else name) name
    | none => start pos :: str "exports.default = " :: function.print ++ [str ";"]
  | .declare name value =>
    start pos :: str "let " :: str name :: str " = " :: value.print ++ [str ";"] ++
      printExported pos name name
  | .names [] => [start pos]
  | .names ((name, exported) :: names) =>
    start pos :: printExport exported name ++
      names.flatMap fun (name, exported) => printExported pos exported name

/-- The pieces of an item, when `temps` variables for modules are in use. -/
def Item.print (temps : Nat) : Item → List Piece
  | .stmt s => s.print
  | .import_ pos clause source => printImport pos (importTemp temps) source clause
  | .export_ pos form => printExportForm pos form

/-- The pieces of items, when `temps` variables for modules are in use. -/
def printFrom : Nat → List Item → List Piece
  | _, [] => []
  | temps, item :: items =>
    item.print temps ++ printFrom (if item.takesTemp then temps + 1 else temps) items

/-- The pieces of a surface program. -/
def printProgram (items : List Item) : List Piece := printFrom 0 items

end Hotload.Syntax
