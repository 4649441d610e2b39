import Hotload.Number.Binary64

/-!
# JSON values

* `Json`: the values. Objects keep their members as they were written, repeated keys included.
* `Json.member?`: the last member of a key.
-/

namespace Hotload

/-- A number as it was written: a natural number, a negative integer, or with a fraction, an
exponent or more digits than an integer has. -/
inductive JsonNumber where
  | natural (n : Nat)
  /-- The integer `-n`. -/
  | negative (n : Nat)
  | float (x : Float)

/-- The double nearest to a number. -/
def JsonNumber.toFloat : JsonNumber → Float
  | natural n => Number.nearest false n 1
  | negative n => Number.nearest true n 1
  | float x => x

/-- A JSON value. -/
inductive Json where
  | null
  | bool (value : Bool)
  | number (value : JsonNumber)
  | string (value : String)
  | array (items : List Json)
  | object (members : List (String × Json))
deriving Inhabited

namespace Json

/-- The last member of a key. -/
def member? (members : List (String × Json)) (key : String) : Option Json :=
  members.reverse.lookup key

end Json

end Hotload
