import Hotload.Heap
import Hotload.Text.Blank
import Hotload.Text.Case
import Hotload.Text.Search

/-!
# Native functions

What the functions do that are not written in the script language. Arguments beyond those that a
function takes are passed over.

* `Native.apply`: the value of a call, or what is wrong with its arguments.
-/

namespace Hotload

/-- What is wrong with the arguments of a native function. -/
inductive ArgumentError where
  /-- The argument at an index, counted from one, has another type than the wanted one. -/
  | wrongType (index : Nat) (wanted found : String)
  | invalidCount (count : Float)
  | resultTooLong (count : Nat)

/-- The longest text that `repeat` makes, in bytes. -/
def Native.maxRepeat : Nat := Nat.pow 2 24

/-- The wording of an argument error. -/
def ArgumentError.message : ArgumentError → String
  | wrongType index wanted found =>
    "argument " ++ toString index ++ " must be a " ++ wanted ++ ", got " ++ found
  | invalidCount count => "invalid count " ++ Number.text count
  | resultTooLong count =>
    "invalid count " ++ toString count ++ ": result exceeds " ++ toString Native.maxRepeat ++
      " bytes"

namespace Native

/-- The type name of an argument; a missing one counts as nil. -/
def foundType : Option Value → String
  | some value => value.typeName
  | none => "nil"

/-- The argument at an index, which has to be a string. -/
def stringArg (args : List Value) (i : Nat) : Except ArgumentError String :=
  match args[i]? with
  | some (.str s) => .ok s
  | other => .error (.wrongType (i + 1) "string" (foundType other))

/-- The argument at an index, which has to be a number. -/
def numArg (args : List Value) (i : Nat) : Except ArgumentError Float :=
  match args[i]? with
  | some (.num x) => .ok x
  | other => .error (.wrongType (i + 1) "number" (foundType other))

/-- All arguments, which have to be numbers. -/
def numArgs (args : List Value) : Except ArgumentError (List Float) :=
  (List.range args.length).mapM (numArg args)

/-- All arguments, which have to be strings. -/
def stringArgs (args : List Value) : Except ArgumentError (List String) :=
  (List.range args.length).mapM (stringArg args)

/-- The elements of the first argument, which has to be a list. -/
def listArg (h : Heap) (args : List Value) : Except ArgumentError (List Value) :=
  match args.head? with
  | some (.list r) => .ok (h.items r).toList
  | other => .error (.wrongType 1 "list" (foundType other))

/-- A text so many times in a row. -/
def repeatText (s : String) (count : Nat) : Except ArgumentError String :=
  if maxRepeat < s.utf8ByteSize * count then .error (.resultTooLong count)
  else .ok (Nat.repeat (· ++ s) count "")

/-- The text between the parts that `join` makes unless told otherwise. -/
def defaultSeparator : String := ","

/-- The less of two numbers; no number counts for nothing. -/
def less (x y : Float) : Float := if y < x then y else x

/-- The greater of two numbers; no number counts for nothing. -/
def greater (x y : Float) : Float := if x < y then y else x

/-- The text of characters as a value. -/
def ofChars (cs : List Char) : Value := .str (String.ofList cs)

/-- The parts of a text as a new list. -/
def splitText (h : Heap) (text sep : String) : Value × Heap :=
  let (r, h) := h.newList ((Text.splitOn sep.toList text.toList).map ofChars).toArray
  (.list r, h)

/-- The texts of values with a separator between them. -/
def joinText (h : Heap) (items : List Value) (sep : String) : Value :=
  ofChars (Text.joinWith sep.toList (items.map fun item => (h.display item).toList))

/-- The value of a call. -/
def apply (f : Native) (args : List Value) (h : Heap) : Except ArgumentError (Value × Heap) :=
  let only (value : Value) : Value × Heap := (value, h)
  match f with
  | upper => do return only (ofChars (Text.upper (← stringArg args 0).toList))
  | lower => do return only (ofChars (Text.lower (← stringArg args 0).toList))
  | trim => do return only (ofChars (Text.trim (← stringArg args 0).toList))
  | concat => .ok (only (.str (String.join (args.map h.display))))
  | repeat_ => do
    let text ← stringArg args 0
    let count ← numArg args 1
    match Number.integer? count with
    | some (.ofNat n) =>
      if n ≤ maxRepeat then return only (.str (← repeatText text n))
      else .error (.invalidCount count)
    | _ => .error (.invalidCount count)
  | split => do return splitText h (← stringArg args 0) (← stringArg args 1)
  | join => do
    let items ← listArg h args
    match args[1]? with
    | none | some .nil => return only (joinText h items defaultSeparator)
    | some _ => return only (joinText h items (← stringArg args 1))
  | includes => do
    let text ← stringArg args 0
    return only (.bool (Text.occursIn (← stringArg args 1).toList text.toList))
  | floor => do return only (.num (← numArg args 0).floor)
  | ceil => do return only (.num (← numArg args 0).ceil)
  | round => do return only (.num (← numArg args 0).round)
  | abs => do return only (.num (← numArg args 0).abs)
  | sqrt => do return only (.num (← numArg args 0).sqrt)
  | pow => do
    let base ← numArg args 0
    return only (.num (base.pow (← numArg args 1)))
  | min => do
    return only (.num ((← numArgs args).foldl less (Number.ofMagnitude false Number.infinityBits)))
  | max => do
    return only (.num ((← numArgs args).foldl greater (Number.ofMagnitude true Number.infinityBits)))
  | pathJoin => do
    let joined := (← stringArgs args).foldl (fun p s => p.join ⟨s⟩) (⟨""⟩ : Path)
    return only (.str joined.clean.text)
  | basename => do return only (.str ((Path.mk (← stringArg args 0)).fileName?.getD ""))
  | dirname => do
    return only (.str (((Path.mk (← stringArg args 0)).parent?.map (·.text)).getD ""))
  | extname => do
    match (Path.mk (← stringArg args 0)).extension? with
    | some ext => return only (.str ("." ++ ext))
    | none => return only (.str "")
  | importDefault =>
    let value := args.headD .nil
    match value with
    | .object r => .ok (only ((h.field? r "default").getD value))
    | _ => .ok (only value)

end Native

end Hotload
