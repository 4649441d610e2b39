import Hotload.Json.Basic
import Hotload.Number.Shortest
import Hotload.Syntax.Tree

/-!
# Syntax trees as JSON

The form in which tools look at a program. Every node is an object with its kind and its position; a
kind without parts is its name, any other one an object with one member of that name. Numbers are
texts, so that none is lost.

* `Stmt.toJson`, `Item.toJson`: the elements of core and surface programs.
-/

namespace Hotload.Syntax

/-- A kind of node with its parts. -/
def kindJson (name : String) (parts : Json) : Json := .object [(name, parts)]

/-- A kind of node with named parts. -/
def recordJson (name : String) (parts : List (String × Json)) : Json := kindJson name (.object parts)

/-- A node of a kind at a position. -/
def nodeJson (kind : Json) (pos : Pos) : Json :=
  .object [("kind", kind), ("pos", .string pos.text)]

/-- The name of an operator. -/
def BinaryOp.name : BinaryOp → String
  | add => "Add"
  | sub => "Sub"
  | mul => "Mul"
  | div => "Div"
  | rem => "Rem"
  | eq => "Eq"
  | notEq => "NotEq"
  | lt => "Lt"
  | ltEq => "LtEq"
  | gt => "Gt"
  | gtEq => "GtEq"
  | and => "And"
  | or => "Or"

/-- The name of an operator. -/
def UnaryOp.name : UnaryOp → String
  | not => "Not"
  | neg => "Neg"

/-- A function with its body as JSON. -/
def functionJson (f : Function) (body : List Json) : Json :=
  .object [("name", (f.name.map Json.string).getD .null), ("params", .array (f.params.map .string)),
    ("body", .array body), ("pos", .string f.pos.text)]

mutual

/-- An expression as JSON. -/
def Expr.toJson : Expr → Json
  | .nil pos => nodeJson (.string "Nil") pos
  | .bool pos value => nodeJson (kindJson "Bool" (.bool value)) pos
  | .num pos value => nodeJson (kindJson "Num" (.string (Number.text value))) pos
  | .str pos value => nodeJson (kindJson "Str" (.string value)) pos
  | .ident pos name => nodeJson (kindJson "Ident" (.string name)) pos
  | .list pos items => nodeJson (kindJson "List" (.array (exprsJson items))) pos
  | .object pos fields => nodeJson (kindJson "Object" (.array (fieldsJson fields))) pos
  | .fn pos (.mk p name params body) =>
    nodeJson (kindJson "Fn" (functionJson (.mk p name params body) (stmtsJson body))) pos
  | .call pos callee args =>
    nodeJson (recordJson "Call" [("callee", callee.toJson), ("args", .array (exprsJson args))]) pos
  | .member pos object name =>
    nodeJson (recordJson "Member" [("object", object.toJson), ("name", .string name)]) pos
  | .index pos object index =>
    nodeJson (recordJson "Index" [("object", object.toJson), ("index", index.toJson)]) pos
  | .unary pos op operand =>
    nodeJson (recordJson "Unary" [("op", .string op.name), ("expr", operand.toJson)]) pos
  | .binary pos op lhs rhs =>
    nodeJson (recordJson "Binary"
      [("op", .string op.name), ("lhs", lhs.toJson), ("rhs", rhs.toJson)]) pos

/-- Expressions as JSON. -/
def exprsJson : List Expr → List Json
  | [] => []
  | e :: es => e.toJson :: exprsJson es

/-- The fields of an object literal as pairs. -/
def fieldsJson : List (String × Expr) → List Json
  | [] => []
  | (key, value) :: fields => .array [.string key, value.toJson] :: fieldsJson fields

/-- A statement as JSON. -/
def Stmt.toJson : Stmt → Json
  | .declare pos name value =>
    nodeJson (recordJson "Let" [("name", .string name), ("value", value.toJson)]) pos
  | .fn pos (.mk p name params body) =>
    nodeJson (kindJson "Fn" (functionJson (.mk p name params body) (stmtsJson body))) pos
  | .return_ pos none => nodeJson (kindJson "Return" .null) pos
  | .return_ pos (some value) => nodeJson (kindJson "Return" value.toJson) pos
  | .throw_ pos value => nodeJson (kindJson "Throw" value.toJson) pos
  | .if_ pos cond thenBody none =>
    nodeJson (recordJson "If" [("cond", cond.toJson), ("then", .array (stmtsJson thenBody)),
      ("otherwise", .null)]) pos
  | .if_ pos cond thenBody (some elseBody) =>
    nodeJson (recordJson "If" [("cond", cond.toJson), ("then", .array (stmtsJson thenBody)),
      ("otherwise", .array (stmtsJson elseBody))]) pos
  | .assign pos target value =>
    nodeJson (recordJson "Assign" [("target", target.toJson), ("value", value.toJson)]) pos
  | .expr pos value => nodeJson (kindJson "Expr" value.toJson) pos

/-- Statements as JSON. -/
def stmtsJson : List Stmt → List Json
  | [] => []
  | s :: ss => s.toJson :: stmtsJson ss

end

/-- Pairs of names as JSON. -/
def namesJson (pairs : List (String × String)) : Json :=
  .array (pairs.map fun (a, b) => .array [.string a, .string b])

/-- What an import binds as JSON. -/
def ImportClause.toJson : ImportClause → Json
  | sideEffect => .string "SideEffect"
  | default_ name => kindJson "Default" (.string name)
  | namespace_ name => kindJson "Namespace" (.string name)
  | named pairs => kindJson "Named" (namesJson pairs)

/-- What an export exports as JSON. -/
def ExportForm.toJson : ExportForm → Json
  | default_ value => kindJson "Default" value.toJson
  | fn function isDefault =>
    recordJson "Fn" [("decl", functionJson function (stmtsJson function.body)),
      ("default", .bool isDefault)]
  | declare name value => recordJson "Let" [("name", .string name), ("value", value.toJson)]
  | names pairs => kindJson "Names" (namesJson pairs)

/-- An element of a surface program as JSON. -/
def Item.toJson : Item → Json
  | .stmt s => s.toJson
  | .import_ pos clause source =>
    nodeJson (recordJson "Import" [("clause", clause.toJson), ("source", .string source)]) pos
  | .export_ pos form => nodeJson (kindJson "Export" form.toJson) pos

end Hotload.Syntax
