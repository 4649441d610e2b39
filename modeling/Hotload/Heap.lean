import Hotload.Text.Quoted
import Hotload.Value

/-!
# The heap

The lists, objects and scopes that values refer to. Objects keep their keys in increasing order.
A scope holds variables and function declarations; names it does not hold are looked up in its
parent.

* `Heap.lookup`, `Heap.assign`: the two walks from a scope to the one that a name is found in, each in
  its own recursion.
* `Heap.define`, `Heap.hoist`: variables and functions of a scope itself.
* `Heap.display`, `Heap.debug`: the texts of a value.
-/

namespace Hotload

open Syntax (Function)

/-- The keys of an object and their values, in increasing order of the keys. -/
abbrev Fields := List (String × Value)

/-- The fields with one key set. -/
def Fields.set (key : String) (value : Value) : Fields → Fields
  | [] => [(key, value)]
  | (k, v) :: fields =>
    if key = k then (key, value) :: fields
    else if key < k then (key, value) :: (k, v) :: fields
    else (k, v) :: Fields.set key value fields

/-- The names and values of a scope, its function declarations with the module they belong to, and
the scope around it. -/
structure Scope where
  vars : List (String × Value)
  fns : List (String × Function × Path)
  parent : Option ScopeRef

/-- All that values refer to, and how many identities are in use. -/
structure Heap where
  lists : Array (Array Value)
  objects : Array Fields
  scopes : Array Scope
  identities : Nat

/-- The pairs with one key set; a new key goes to the end. -/
def setPair {α : Type} (key : String) (value : α) : List (String × α) → List (String × α)
  | [] => [(key, value)]
  | (k, v) :: pairs => if k = key then (k, value) :: pairs else (k, v) :: setPair key value pairs

namespace Heap

/-- Nothing at all. -/
def empty : Heap := ⟨#[], #[], #[], 0⟩

/-- A new identity. -/
def freshIdentity (h : Heap) : Identity × Heap :=
  (⟨h.identities⟩, { h with identities := h.identities + 1 })

/-- A new list. -/
def newList (h : Heap) (items : Array Value) : ListRef × Heap :=
  (⟨h.lists.size⟩, { h with lists := h.lists.push items })

/-- The elements of a list. -/
def items (h : Heap) (r : ListRef) : Array Value := h.lists.getD r.index #[]

/-- The list with one element replaced, if it has one at the index. -/
def setItem? (h : Heap) (r : ListRef) (index : Nat) (value : Value) : Option Heap :=
  if index < (h.items r).size then
    some { h with lists := h.lists.modify r.index (·.setIfInBounds index value) }
  else none

/-- A new object. -/
def newObject (h : Heap) (fields : Fields) : ObjectRef × Heap :=
  (⟨h.objects.size⟩, { h with objects := h.objects.push fields })

/-- The fields of an object. -/
def fields (h : Heap) (r : ObjectRef) : Fields := h.objects.getD r.index []

/-- The value of a key. -/
def field? (h : Heap) (r : ObjectRef) (key : String) : Option Value := (h.fields r).lookup key

/-- The object with one key set. -/
def setField (h : Heap) (r : ObjectRef) (key : String) (value : Value) : Heap :=
  { h with objects := h.objects.modify r.index (Fields.set key value) }

/-- A new object with these keys, the last of equal ones counting. -/
def objectOf (h : Heap) (pairs : List (String × Value)) : ObjectRef × Heap :=
  h.newObject (pairs.foldl (fun fields (key, value) => Fields.set key value fields) [])

/-- A new scope. -/
def newScope (h : Heap) (parent : Option ScopeRef) : ScopeRef × Heap :=
  (⟨h.scopes.size⟩, { h with scopes := h.scopes.push ⟨[], [], parent⟩ })

/-- A scope; one that does not exist holds nothing. -/
def scope (h : Heap) (r : ScopeRef) : Scope := h.scopes.getD r.index ⟨[], [], none⟩

/-- The scope changed. -/
def modifyScope (h : Heap) (r : ScopeRef) (f : Scope → Scope) : Heap :=
  { h with scopes := h.scopes.modify r.index f }

/-- Sets a variable of the scope itself. -/
def define (h : Heap) (r : ScopeRef) (name : String) (value : Value) : Heap :=
  h.modifyScope r fun s => { s with vars := setPair name value s.vars }

/-- Declares a function in the scope itself. -/
def hoist (h : Heap) (r : ScopeRef) (name : String) (function : Function) (path : Path) : Heap :=
  h.modifyScope r fun s => { s with fns := setPair name (function, path) s.fns }

/-- Empties a scope. Functions made in it stay callable but find nothing in it. -/
def clearScope (h : Heap) (r : ScopeRef) : Heap :=
  h.modifyScope r fun s => { s with vars := [], fns := [] }

/-- The value of a name in the scope itself: a variable, or else a function declaration, of which
every look-up makes a function value of its own. -/
def ownValue? (h : Heap) (r : ScopeRef) (name : String) : Option Value :=
  let s := h.scope r
  match s.vars.lookup name with
  | some value => some value
  | none => (s.fns.lookup name).map fun (function, path) => .fn ⟨function, r, path⟩

/-- The nearest scope that holds the name, seen from `r` and past at most so many scopes. -/
def holderWithin? (h : Heap) (name : String) : Nat → ScopeRef → Option ScopeRef
  | 0, _ => none
  | bound + 1, r =>
    if (h.ownValue? r name).isSome then some r
    else match (h.scope r).parent with
      | some parent => h.holderWithin? name bound parent
      | none => none

/-- The nearest scope that holds the name. Parents are older than their children, so the scopes up
to this one bound the search. -/
def holder? (h : Heap) (r : ScopeRef) (name : String) : Option ScopeRef :=
  h.holderWithin? name (r.index + 1) r

/-- The value of a name seen from a scope. -/
def lookup (h : Heap) (r : ScopeRef) (name : String) : Option Value :=
  (h.holder? r name).bind (h.ownValue? · name)

/-- Gives a name another value in the nearest scope that holds it, seen from `r` and past at most so
many scopes; a function declaration becomes a variable. -/
def assignWithin? (h : Heap) (name : String) (value : Value) : Nat → ScopeRef → Option Heap
  | 0, _ => none
  | bound + 1, r =>
    let s := h.scope r
    if (s.vars.lookup name).isSome then some (h.define r name value)
    else if (s.fns.lookup name).isSome then
      some (h.modifyScope r fun s =>
        { s with
          vars := setPair name value s.vars
          fns := s.fns.filter (·.1 ≠ name) })
    else match s.parent with
      | some parent => h.assignWithin? name value bound parent
      | none => none

/-- Gives a name that is visible from a scope another value. -/
def assign (h : Heap) (r : ScopeRef) (name : String) (value : Value) : Option Heap :=
  h.assignWithin? name value (r.index + 1) r

/-- What a value reads under a property name. Objects have their keys; lists and texts have a
length; asking a loading function for `resolve` makes a function that only finds modules. Nil,
truth values and numbers have no properties at all. -/
def property? (h : Heap) (value : Value) (name : String) : Option (Value × Heap) :=
  match value with
  | .object r => some ((h.field? r name).getD .nil, h)
  | .list r =>
    some (if name = "length" then .num (Float.ofNat (h.items r).size) else .nil, h)
  | .str s => some (if name = "length" then .num (Float.ofNat s.length) else .nil, h)
  | .require r =>
    if name = "resolve" then
      let (identity, h) := h.freshIdentity
      some (.require ⟨r.dir, true, identity⟩, h)
    else some (.nil, h)
  | .fn _ | .native .. => some (.nil, h)
  | .nil | .bool _ | .num _ => none

/-- The text of a value that holds no others. -/
def plainText : Value → String
  | .nil => "nil"
  | .bool b => if b then "true" else "false"
  | .num x => Number.display x
  | .str s => s
  | .list _ => "[...]"
  | .object _ => "\x7b...\x7d"
  | .fn closure =>
    match closure.function.name with
    | some name => "[fn " ++ name ++ "]"
    | none => "[fn]"
  | .native function _ => "[native " ++ function.name ++ "]"
  | .require _ => "[fn require]"

/-- The text of a value with strings quoted. Containers are written out as far as the levels go,
so that a container that holds itself has a text. -/
def debugTo (h : Heap) : Nat → Value → String
  | _, .str s => String.ofList (Text.quoted s.toList)
  | levels + 1, .list r =>
    "[" ++ ", ".intercalate ((h.items r).toList.map (h.debugTo levels)) ++ "]"
  | levels + 1, .object r =>
    match h.fields r with
    | [] => "\x7b\x7d"
    | fields =>
      "\x7b" ++ ",".intercalate
        (fields.map fun (key, value) => " " ++ key ++ ": " ++ h.debugTo levels value) ++ " \x7d"
  | _, value => plainText value

/-- The text of a value with strings quoted, containers written out four levels deep. -/
def debug (h : Heap) (value : Value) : String := h.debugTo 4 value

/-- The text of a value: a string is its own text. -/
def display (h : Heap) : Value → String
  | .str s => s
  | value => h.debug value

end Heap

end Hotload
