/-!
# Splitting and joining

* `fields`: the parts of a text between the occurrences of a character.
* `joinFields`: parts with a character between them; it undoes `fields`.
* `lines`: the lines of a text without their endings.
-/

namespace Hotload.Text

/-- The parts of a text between the occurrences of a separator. There is always one more than
separators. -/
def fields (sep : Char) : List Char → List (List Char)
  | [] => [[]]
  | c :: cs =>
    if c = sep then [] :: fields sep cs
    else match fields sep cs with
      | [] => [[c]]
      | f :: fs => (c :: f) :: fs

/-- The parts with a separator between them. -/
def joinFields (sep : Char) : List (List Char) → List Char
  | [] => []
  | [f] => f
  | f :: fs => f ++ sep :: joinFields sep fs

theorem fields_ne_nil (sep : Char) (cs : List Char) : fields sep cs ≠ [] := by
  cases cs with
  | nil => simp [fields]
  | cons c cs =>
    unfold fields
    split
    · simp
    · split <;> simp

/-- Joining undoes splitting. -/
theorem joinFields_fields (sep : Char) (cs : List Char) : joinFields sep (fields sep cs) = cs := by
  induction cs with
  | nil => rfl
  | cons c cs ih =>
    cases hf : fields sep cs with
    | nil => exact absurd hf (fields_ne_nil sep cs)
    | cons f fs =>
      rw [hf] at ih
      by_cases h : c = sep
      · simp [fields, h, hf, joinFields, ih]
      · cases fs with
        | nil => simpa [fields, h, hf, joinFields] using ih
        | cons g gs => simpa [fields, h, hf, joinFields] using ih

/-- A line without the carriage return that may end it. -/
def chopReturn (line : List Char) : List Char :=
  match line.getLast? with
  | some '\r' => line.dropLast
  | _ => line

/-- The lines of a text. A newline ends a line, also after a carriage return; the end of the text
begins no further one. -/
def lines (cs : List Char) : List (List Char) :=
  let parts := fields '\n' cs
  let parts := if parts.getLast? = some [] then parts.dropLast else parts
  match cs.getLast? with
  | some '\n' => parts.map chopReturn
  | _ => parts.dropLast.map chopReturn ++ (parts.getLast?.toList)

end Hotload.Text
