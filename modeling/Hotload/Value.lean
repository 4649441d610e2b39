import Hotload.Number.Shortest
import Hotload.Path
import Hotload.Syntax.Tree

/-!
# Values of programs

Numbers, texts and truth values are themselves. Lists, objects and scopes are shared: a value holds
a reference to one, and two references are equal only if they are the same. Functions belong to the
scope they were made in.

* `Value`: the values of programs.
* `Value.strictEq`: equality of programs.
* `Value.isTruthy`, `Value.typeName`.
-/

namespace Hotload

open Syntax (Function)

/-- A reference to a list. -/
structure ListRef where
  index : Nat
deriving DecidableEq, Repr

/-- A reference to an object. -/
structure ObjectRef where
  index : Nat
deriving DecidableEq, Repr

/-- A reference to a scope. -/
structure ScopeRef where
  index : Nat
deriving DecidableEq, Repr

/-- What tells apart two values that are made alike. -/
structure Identity where
  index : Nat
deriving DecidableEq, Repr

/-- The functions that are not written in the script language. -/
inductive Native where
  | upper | lower | trim | concat | repeat_ | split | join | includes
  | floor | ceil | round | abs | sqrt | pow | min | max
  | pathJoin | basename | dirname | extname
  | importDefault
deriving DecidableEq, Repr

/-- The name under which a native function is shown. -/
def Native.name : Native → String
  | upper => "upper"
  | lower => "lower"
  | trim => "trim"
  | concat => "concat"
  | repeat_ => "repeat"
  | split => "split"
  | join | pathJoin => "join"
  | includes => "includes"
  | floor => "floor"
  | ceil => "ceil"
  | round => "round"
  | abs => "abs"
  | sqrt => "sqrt"
  | pow => "pow"
  | min => "min"
  | max => "max"
  | basename => "basename"
  | dirname => "dirname"
  | extname => "extname"
  | importDefault => "__importDefault"

/-- A script function, the scope it was made in, and the module that it belongs to. -/
structure Closure where
  function : Function
  scope : ScopeRef
  path : Path

/-- Two script functions are the same if they come from one place of a program and one scope. -/
def Closure.same (f g : Closure) : Bool :=
  f.function.pos = g.function.pos && f.scope = g.scope

/-- The function that loads modules for code in a directory, or only finds them. -/
structure Require where
  dir : Path
  resolveOnly : Bool
  identity : Identity

/-- A value of a program. -/
inductive Value where
  | nil
  | bool (value : Bool)
  | num (value : Float)
  | str (value : String)
  | list (ref : ListRef)
  | object (ref : ObjectRef)
  | fn (closure : Closure)
  | native (function : Native) (identity : Identity)
  | require (require : Require)

instance : Inhabited Value := ⟨.nil⟩

namespace Value

/-- The name of a value's type in error messages. -/
def typeName : Value → String
  | nil => "nil"
  | bool _ => "bool"
  | num _ => "number"
  | str _ => "string"
  | list _ => "list"
  | object _ => "object"
  | fn _ | native .. | require _ => "function"

/-- The value counts as true. -/
def isTruthy : Value → Bool
  | nil => false
  | bool b => b
  | num x => x != 0.0 && !Number.isNaN x
  | str s => s ≠ ""
  | _ => true

/-- The value can be called. -/
def isCallable : Value → Bool
  | fn _ | native .. | require _ => true
  | _ => false

/-- The equality of programs: by content for plain values, by identity for all others. -/
def strictEq : Value → Value → Bool
  | nil, nil => true
  | bool a, bool b => a == b
  | num x, num y => x == y
  | str s, str t => s == t
  | list r, list s => r = s
  | object r, object s => r = s
  | fn f, fn g => f.same g
  | native _ i, native _ j => i = j
  | require r, require s => r.identity = s.identity
  | _, _ => false

end Value

end Hotload
