import Hotload.Syntax.Pos

/-!
# Syntax trees

The trees of the two dialects. They share expressions and statements; a surface program has module
declarations beside them, at its top level only.

* `Expr`, `Function`, `Stmt`: what both dialects have. A core program is a `List Stmt`.
* `Item`: a statement or a module declaration. A surface program is a `List Item`.
-/

namespace Hotload.Syntax

/-- The operators in front of an operand. -/
inductive UnaryOp where
  | not | neg
deriving DecidableEq, Repr

/-- The operators between two operands. -/
inductive BinaryOp where
  | add | sub | mul | div | rem | eq | notEq | lt | ltEq | gt | gtEq | and | or
deriving DecidableEq, Repr

/-- The spelling of an operator in front of an operand. -/
def UnaryOp.spelling : UnaryOp → String
  | not => "!"
  | neg => "-"

namespace BinaryOp

/-- The spelling of an operator between operands. -/
def spelling : BinaryOp → String
  | add => "+"
  | sub => "-"
  | mul => "*"
  | div => "/"
  | rem => "%"
  | eq => "=="
  | notEq => "!="
  | lt => "<"
  | ltEq => "<="
  | gt => ">"
  | gtEq => ">="
  | and => "&&"
  | or => "||"

/-- How tightly an operator binds; a greater level binds tighter. -/
def level : BinaryOp → Nat
  | or => 0
  | and => 1
  | eq | notEq => 2
  | lt | ltEq | gt | gtEq => 3
  | add | sub => 4
  | mul | div | rem => 5

/-- The levels are those below this one. -/
def levels : Nat := 6

end BinaryOp

mutual

/-- An expression and the position that errors in it are reported at. -/
inductive Expr where
  | nil (pos : Pos)
  | bool (pos : Pos) (value : Bool)
  | num (pos : Pos) (value : Float)
  | str (pos : Pos) (value : String)
  | ident (pos : Pos) (name : String)
  | list (pos : Pos) (items : List Expr)
  | object (pos : Pos) (fields : List (String × Expr))
  | fn (pos : Pos) (function : Function)
  | call (pos : Pos) (callee : Expr) (args : List Expr)
  | member (pos : Pos) (object : Expr) (name : String)
  | index (pos : Pos) (object : Expr) (index : Expr)
  | unary (pos : Pos) (op : UnaryOp) (operand : Expr)
  | binary (pos : Pos) (op : BinaryOp) (lhs : Expr) (rhs : Expr)

/-- A function: its parameters and its body, at the position of its keyword. -/
inductive Function where
  | mk (pos : Pos) (name : Option String) (params : List String) (body : List Stmt)

/-- A statement at the position of its first token. -/
inductive Stmt where
  | declare (pos : Pos) (name : String) (value : Expr)
  | fn (pos : Pos) (function : Function)
  | return_ (pos : Pos) (value : Option Expr)
  | throw_ (pos : Pos) (value : Expr)
  | if_ (pos : Pos) (cond : Expr) (thenBody : List Stmt) (elseBody : Option (List Stmt))
  | assign (pos : Pos) (target : Expr) (value : Expr)
  | expr (pos : Pos) (value : Expr)

end

instance : Inhabited Expr := ⟨.nil .start⟩

namespace Function

/-- The position of the keyword. -/
def pos : Function → Pos
  | mk pos _ _ _ => pos

/-- The name, unless the function is anonymous. -/
def name : Function → Option String
  | mk _ name _ _ => name

/-- The names of the parameters. -/
def params : Function → List String
  | mk _ _ params _ => params

/-- The statements of the body. -/
def body : Function → List Stmt
  | mk _ _ _ body => body

end Function

/-- The position that errors in an expression are reported at: for calls and accesses that of the
bracket or dot, for an operator between operands that of the left operand. -/
def Expr.pos : Expr → Pos
  | nil pos | bool pos _ | num pos _ | str pos _ | ident pos _ | list pos _ | object pos _
  | fn pos _ | call pos _ _ | member pos _ _ | index pos _ _ | unary pos _ _
  | binary pos _ _ _ => pos

/-- The position of the first token of a statement. -/
def Stmt.pos : Stmt → Pos
  | declare pos _ _ | fn pos _ | return_ pos _ | throw_ pos _ | if_ pos _ _ _ | assign pos _ _
  | expr pos _ => pos

/-- What an import declaration binds. -/
inductive ImportClause where
  | sideEffect
  | default_ (name : String)
  | namespace_ (name : String)
  /-- Pairs of an exported name and the local one. -/
  | named (names : List (String × String))
deriving DecidableEq, Repr

/-- What an export declaration exports. -/
inductive ExportForm where
  | default_ (value : Expr)
  | fn (function : Function) (isDefault : Bool)
  | declare (name : String) (value : Expr)
  /-- Pairs of a local name and the exported one. -/
  | names (names : List (String × String))

/-- An element of a surface program. -/
inductive Item where
  | stmt (stmt : Stmt)
  | import_ (pos : Pos) (clause : ImportClause) (source : String)
  | export_ (pos : Pos) (form : ExportForm)

/-- The position of the first token of an item. -/
def Item.pos : Item → Pos
  | stmt s => s.pos
  | import_ pos _ _ => pos
  | export_ pos _ => pos

end Hotload.Syntax
