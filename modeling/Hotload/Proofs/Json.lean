import Mathlib
import Hotload.Json.Reader
import Hotload.Json.Writer
import Hotload.Proofs.Number.Literal

/-!
# JSON is read back

What is written of a JSON value is read as that value, whatever stands behind it, unless it holds
doubles, numbers that are too large for an integer, or too many containers around each other.

* `Json.Readable`: the values that are read back.
* `Json.string?_write`: strings of any characters.
* `Json.value?_write`: all of these values.
* `Json.parse?_write`: a text that is such a value.
-/

namespace Hotload.Json

open Number (AllDigits allDigits_toDigits)

variable {c : Char} {cs rest : List Char}

/-! ## Strings -/

theorem hexDigit?_digitChar {n : Nat} (h : n < 16) : Number.hexDigit? (Nat.digitChar n) = some n := by
  have hall : ∀ n : Fin 16, Number.hexDigit? (Nat.digitChar n) = some n.val := by decide
  exact hall ⟨n, h⟩

/-- A quote ends the string. -/
alias string?_quote := string?.eq_2

/-- The escape of a control character without a short form. -/
theorem string?_unicode (h : c.toNat < 0x20) (cs : List Char) :
    string? ('\\' :: 'u' :: '0' :: '0' :: Nat.digitChar (c.toNat / 16) ::
        Nat.digitChar (c.toNat % 16) :: cs) =
      (string? cs).map fun (value, rest) => (c :: value, rest) := by
  have hcode : hexNumber? '0' '0' (Nat.digitChar (c.toNat / 16)) (Nat.digitChar (c.toNat % 16)) =
      some c.toNat := by
    have hzero : Number.hexDigit? '0' = some 0 := by decide
    rw [hexNumber?, hzero, hexDigit?_digitChar (by omega), hexDigit?_digitChar (by omega)]
    simp only [Option.bind_eq_bind, Option.bind_some, Option.pure_def, Option.some.injEq]
    omega
  rw [string?, hcode, Option.bind_eq_bind, Option.bind_some, if_neg (by omega), if_neg (by omega)]
  cases string? cs with
  | none => rfl
  | some read => simp [Char.ofNat_toNat]

theorem string?_simple {escape : Char} (hne : escape ≠ 'u') (h : simpleEscape? escape = some c)
    (cs : List Char) :
    string? ('\\' :: escape :: cs) = (string? cs).map fun (value, rest) => (c :: value, rest) := by
  rw [string?, h]
  · cases string? cs <;> rfl
  · intro _ _ _ _ _ hu
    exact absurd hu hne

theorem string?_plain (hquote : c ≠ '"') (hslash : c ≠ '\\') (h : ¬ c.toNat < 0x20) (cs : List Char) :
    string? (c :: cs) = (string? cs).map fun (value, rest) => (c :: value, rest) := by
  rw [string?, if_neg (by simp [h, hslash])]
  · cases string? cs <;> rfl
  · exact hquote
  · rintro _ _ _ _ _ rfl
    exact absurd rfl hslash
  · rintro _ _ rfl
    exact absurd rfl hslash

theorem string?_writeChar (c : Char) (cs : List Char) :
    string? (writeChar c ++ cs) = (string? cs).map fun (value, rest) => (c :: value, rest) := by
  unfold writeChar
  split
  iterate 7 exact string?_simple (by decide) rfl cs
  next hquote hslash _ _ _ _ _ =>
    split
    next hcontrol => exact string?_unicode hcontrol cs
    next hcontrol => exact string?_plain hquote hslash hcontrol cs

/-- A string is read back, whatever its characters are. -/
theorem string?_write (value rest : List Char) :
    string? (value.flatMap writeChar ++ '"' :: rest) = some (value, rest) := by
  induction value with
  | nil => exact string?_quote rest
  | cons c value ih => rw [List.flatMap_cons, List.append_assoc, string?_writeChar, ih, Option.map_some]

/-! ## Numbers -/

/-- What stands behind a number does not continue it. -/
def EndsNumber (rest : List Char) : Prop :=
  ∀ c ∈ rest.head?, c.isDigit = false ∧ c ≠ '.' ∧ c ≠ 'e' ∧ c ≠ 'E'

theorem endsNumber_nil : EndsNumber [] := by simp [EndsNumber]

theorem endsNumber_cons (h : c.isDigit = false ∧ c ≠ '.' ∧ c ≠ 'e' ∧ c ≠ 'E') (cs : List Char) :
    EndsNumber (c :: cs) := by
  intro d hd
  cases hd
  exact h

theorem le_ofDigitChars (cs : List Char) (significand : Nat) :
    significand ≤ Nat.ofDigitChars 10 cs significand := by
  induction cs generalizing significand with
  | nil => exact le_rfl
  | cons c cs ih =>
    rw [Nat.ofDigitChars_cons]
    exact le_trans (by omega) (ih _)

theorem gather_digits {significand : Nat}
    (h : Nat.ofDigitChars 10 cs significand ≤ maxSignificand) :
    gather significand cs = (Nat.ofDigitChars 10 cs significand, []) := by
  induction cs generalizing significand with
  | nil => rfl
  | cons c cs ih =>
    rw [Nat.ofDigitChars_cons, Nat.mul_comm] at h ⊢
    have hnext := (le_ofDigitChars cs _).trans h
    rw [gather, if_neg (by omega)]
    exact ih h

/-- Only zero begins with the digit zero. -/
theorem head?_toDigits {n : Nat} (h : 0 < n) : (Nat.toDigits 10 n).head? ≠ some '0' := by
  induction n using Nat.strongRecOn with
  | ind n ih =>
    rcases Nat.lt_or_ge n 10 with hlt | hge
    · rw [Nat.toDigits_of_lt_base hlt]
      interval_cases n <;> decide
    · rw [Nat.toDigits_of_base_le (by decide) hge, List.head?_append_of_ne_nil _ Nat.toDigits_ne_nil]
      exact ih (n / 10) (by omega) (by omega)

theorem magnitude?_write {n : Nat} (h : n ≤ maxSignificand) (negative : Bool) (hrest : EndsNumber rest) :
    magnitude? negative (Nat.toDigits 10 n ++ rest) =
      magnitude?.finish negative (fun x => .float (if negative then -x else x)) n [] none 0 rest := by
  have hdigits := allDigits_toDigits n
  have hnone : rest.takeWhile Char.isDigit = [] ∧ rest.dropWhile Char.isDigit = rest := by
    cases rest with
    | nil => exact ⟨rfl, rfl⟩
    | cons c cs => simp [(hrest c rfl).1]
  have hwhole : (Nat.toDigits 10 n ++ rest).takeWhile Char.isDigit = Nat.toDigits 10 n := by
    rw [List.takeWhile_append_of_pos hdigits, hnone.1, List.append_nil]
  have hbehind : (Nat.toDigits 10 n ++ rest).dropWhile Char.isDigit = rest := by
    rw [List.dropWhile_append_of_pos hdigits, hnone.2]
  have hgather : gather 0 (Nat.toDigits 10 n) = (n, []) := by
    have hvalue := Nat.ofDigitChars_ten_toDigits (n := n)
    rw [gather_digits (by rwa [hvalue]), hvalue]
  unfold magnitude?
  simp only [hwhole, hbehind]
  split
  next hnil => exact absurd hnil Nat.toDigits_ne_nil
  next d ds hzeros =>
    rcases Nat.eq_zero_or_pos n with rfl | hpos
    · cases hzeros
    · exact absurd (by rw [hzeros]; rfl) (head?_toDigits hpos)
  · rw [hgather]
    cases rest with
    | nil => rfl
    | cons c cs =>
      obtain ⟨-, hpoint, he, hE⟩ := hrest c rfl
      split
      next hcs =>
        cases hcs
        exact absurd rfl hpoint
      next =>
        simp only [Option.bind_eq_bind, Option.bind_some]
        rw [if_neg (not_or.2 ⟨he, hE⟩)]
        rfl

/-- The text of a natural number begins with a digit. -/
theorem exists_cons_toDigits (n : Nat) : ∃ d ds, Nat.toDigits 10 n = d :: ds ∧ d.isDigit = true := by
  obtain ⟨d, ds, hds⟩ := List.exists_cons_of_ne_nil (Nat.toDigits_ne_nil (n := n) (b := 10))
  exact ⟨d, ds, hds, allDigits_toDigits n d (by rw [hds]; exact List.mem_cons_self)⟩

/-- A natural number is read back if it is no larger than the largest significand. -/
theorem number?_natural {n : Nat} (h : n ≤ maxSignificand) (hrest : EndsNumber rest) :
    number? (Nat.toDigits 10 n ++ rest) = some (.natural n, rest) := by
  rw [number?, magnitude?_write h false hrest]
  · rfl
  · intro cs hcs
    obtain ⟨d, ds, hds, hdigit⟩ := exists_cons_toDigits n
    rw [hds] at hcs
    cases hcs
    cases hdigit

/-- A negative integer is read back if it has 64 bits. -/
theorem number?_negative {n : Nat} (hpos : 0 < n) (h : n ≤ Nat.pow 2 63) (hrest : EndsNumber rest) :
    number? ('-' :: Nat.toDigits 10 n ++ rest) = some (.negative n, rest) := by
  have hmax : n ≤ maxSignificand := h.trans (by decide)
  rw [List.cons_append, number?, magnitude?_write hmax true hrest, magnitude?.finish, if_pos rfl,
    if_pos ⟨hpos, h⟩]
  rfl

/-! ## Values -/

alias value?_null := value?.eq_1

alias value?_true := value?.eq_2

alias value?_false := value?.eq_3

/-- The values that are read back inside so many more containers. -/
inductive Readable : Nat → Json → Prop
  | null {levels : Nat} : Readable levels .null
  | bool {levels : Nat} (value : Bool) : Readable levels (.bool value)
  | natural {levels n : Nat} (h : n ≤ maxSignificand) : Readable levels (.number (.natural n))
  | negative {levels n : Nat} (hpos : 0 < n) (h : n ≤ Nat.pow 2 63) :
    Readable levels (.number (.negative n))
  | string {levels : Nat} (value : String) : Readable levels (.string value)
  | array {levels : Nat} {items : List Json} (h : ∀ item ∈ items, Readable levels item) :
    Readable (levels + 1) (.array items)
  | object {levels : Nat} {members : List (String × Json)}
    (h : ∀ entry ∈ members, Readable levels entry.2) : Readable (levels + 1) (.object members)

/-- A character that a value can begin with is no blank and ends no container. -/
def Begins (c : Char) : Prop := c ∉ [' ', '\n', '\t', '\r', ']', '\x7d']

instance (c : Char) : Decidable (Begins c) := inferInstanceAs (Decidable (c ∉ _))

theorem skipBlanks_begins (h : Begins c) (cs : List Char) : skipBlanks (c :: cs) = c :: cs := by
  simp only [Begins, List.mem_cons, List.not_mem_nil, or_false, not_or] at h
  simp [skipBlanks, h]

theorem begins_of_isDigit (h : c.isDigit = true) : Begins c := by
  intro hmem
  simp only [List.mem_cons, List.not_mem_nil, or_false] at hmem
  rcases hmem with rfl | rfl | rfl | rfl | rfl | rfl <;> cases h

theorem exists_cons_write {levels : Nat} {j : Json} (h : Readable levels j) :
    ∃ c cs, j.write = c :: cs ∧ Begins c := by
  cases h with
  | null => exact ⟨_, _, rfl, by decide⟩
  | bool value => cases value <;> exact ⟨_, _, rfl, by decide⟩
  | natural h =>
    obtain ⟨d, ds, hds, hdigit⟩ := exists_cons_toDigits _
    exact ⟨d, ds, by rw [write, writeNumber, hds], begins_of_isDigit hdigit⟩
  | negative => exact ⟨_, _, by rw [write, writeNumber], by decide⟩
  | string value => exact ⟨_, _, by rw [write, writeString]; rfl, by decide⟩
  | array h => exact ⟨_, _, by rw [write]; rfl, by decide⟩
  | object h => exact ⟨_, _, by rw [write]; rfl, by decide⟩

/-- The value is read back whatever stands behind it. -/
structure ReadBy (value : List Char → Option (Json × List Char)) (j : Json) : Prop where
  begins : ∃ c cs, j.write = c :: cs ∧ Begins c
  reads : ∀ rest, EndsNumber rest → value (j.write ++ rest) = some (j, rest)

variable {value : List Char → Option (Json × List Char)}

theorem ReadBy.skipBlanks {j : Json} (h : ReadBy value j) (rest : List Char) :
    skipBlanks (j.write ++ rest) = j.write ++ rest := by
  obtain ⟨c, cs, hwrite, hc⟩ := h.begins
  rw [hwrite, List.cons_append, skipBlanks_begins hc]

/-- Items that are read back are read back in an array. -/
theorem items?_write {items : List Json} (hne : items ≠ []) (h : ∀ item ∈ items, ReadBy value item)
    {bound : Nat} (hbound : items.length ≤ bound) (rest : List Char) :
    items? value bound (writeItems items ++ ']' :: rest) = some (items, rest) := by
  induction items generalizing bound with
  | nil => exact absurd rfl hne
  | cons item items ih =>
    obtain ⟨bound, rfl⟩ := Nat.exists_eq_add_of_le' (Nat.le_trans (Nat.succ_pos _) hbound)
    have hitem := h item List.mem_cons_self
    cases items with
    | nil =>
      rw [writeItems, items?, hitem.skipBlanks, hitem.reads _ (endsNumber_cons (by decide) _)]
      rfl
    | cons next items =>
      have hitems := ih (by simp) (fun item hitem => h item (List.mem_cons_of_mem _ hitem))
        (Nat.le_of_succ_le_succ hbound)
      rw [writeItems, List.append_assoc, List.cons_append, items?, hitem.skipBlanks,
        hitem.reads _ (endsNumber_cons (by decide) _)]
      simp only [Option.bind_eq_bind, Option.bind_some, skipBlanks_begins (show Begins ',' by decide),
        hitems]
      · rfl
      · simp

/-- A member whose value is read back is read back, and then what stands behind it is looked at. -/
theorem members?_entry {item : Json} (hitem : ReadBy value item) (hrest : EndsNumber rest)
    (key : String) (bound : Nat) :
    members? value (bound + 1) (writeString key ++ ':' :: (item.write ++ rest)) =
      match Json.skipBlanks rest with
      | ',' :: cs => do
        let (members, cs) ← members? value bound cs
        return ((key, item) :: members, cs)
      | '\x7d' :: cs => return ([(key, item)], cs)
      | _ => none := by
  rw [writeString, List.cons_append, List.cons_append, members?, skipBlanks_begins (by decide)]
  simp only [List.append_assoc, List.cons_append, List.nil_append, string?_write, Option.bind_eq_bind,
    Option.bind_some, skipBlanks_begins (show Begins ':' by decide), hitem.skipBlanks,
    hitem.reads _ hrest, String.ofList_toList, -eq_self]
  rfl

/-- Members whose values are read back are read back in an object. -/
theorem members?_write {members : List (String × Json)} (hne : members ≠ [])
    (h : ∀ entry ∈ members, ReadBy value entry.2) {bound : Nat} (hbound : members.length ≤ bound)
    (rest : List Char) :
    members? value bound (writeMembers members ++ '\x7d' :: rest) = some (members, rest) := by
  induction members generalizing bound with
  | nil => exact absurd rfl hne
  | cons entry members ih =>
    obtain ⟨bound, rfl⟩ := Nat.exists_eq_add_of_le' (Nat.le_trans (Nat.succ_pos _) hbound)
    obtain ⟨key, item⟩ := entry
    have hitem : ReadBy value item := h (key, item) List.mem_cons_self
    cases members with
    | nil =>
      rw [writeMembers, List.append_assoc, List.cons_append,
        members?_entry hitem (endsNumber_cons (by decide) _)]
      rfl
    | cons next members =>
      have hmembers := ih (by simp) (fun entry hentry => h entry (List.mem_cons_of_mem _ hentry))
        (Nat.le_of_succ_le_succ hbound)
      rw [writeMembers, List.append_assoc, List.cons_append, List.append_assoc, List.cons_append,
        members?_entry hitem (endsNumber_cons (by decide) _), skipBlanks_begins (by decide)]
      · simp only [hmembers]
        rfl
      · simp

/-- Every item and comma is a character at least. -/
theorem length_le_writeItems {items : List Json} (h : ∀ item ∈ items, ReadBy value item) :
    items.length ≤ (writeItems items).length := by
  induction items with
  | nil => exact Nat.zero_le _
  | cons item items ih =>
    have hlength := ih fun item hitem => h item (List.mem_cons_of_mem _ hitem)
    cases items with
    | nil =>
      obtain ⟨c, cs, hwrite, -⟩ := (h item List.mem_cons_self).begins
      rw [writeItems, hwrite, List.length_cons]
      exact Nat.succ_le_succ (Nat.zero_le _)
    | cons next items =>
      rw [writeItems]
      · simp only [List.length_append, List.length_cons] at hlength ⊢
        omega
      · simp

theorem length_le_writeMembers (members : List (String × Json)) :
    members.length ≤ (writeMembers members).length := by
  induction members with
  | nil => exact Nat.zero_le _
  | cons entry members ih =>
    cases members with
    | nil => simp [writeMembers, writeString]
    | cons next members =>
      rw [writeMembers]
      · simp only [List.length_append, List.length_cons] at ih ⊢
        omega
      · simp

theorem value?_string (levels : Nat) (cs : List Char) :
    value? levels ('"' :: cs) = (string? cs).map fun (value, cs) => (.string (String.ofList value), cs) := by
  rw [value?]
  cases string? cs <;> rfl

theorem value?_number (hc : c ∉ ['n', 't', 'f', '"', '[', '\x7b']) (levels : Nat) (cs : List Char) :
    value? levels (c :: cs) = (number? (c :: cs)).map fun (n, cs) => (.number n, cs) := by
  rw [value?]
  · cases number? (c :: cs) <;> rfl
  all_goals
    intro _ hcs
    rw [(List.cons.inj hcs).1] at hc
    exact hc (by decide)

theorem value?_array {levels : Nat} {items : List Json} (hc : Begins c)
    (hread : items? (value? levels) ((c :: cs).length + 1) (c :: cs) = some (items, rest)) :
    value? (levels + 1) ('[' :: c :: cs) = some (.array items, rest) := by
  rw [value?, skipBlanks_begins hc]
  split
  next hcs =>
    cases hcs
    exact absurd hc (by decide)
  next =>
    rw [hread]
    rfl

theorem value?_object {levels : Nat} {members : List (String × Json)} (hc : Begins c)
    (hread : members? (value? levels) ((c :: cs).length + 1) (c :: cs) = some (members, rest)) :
    value? (levels + 1) ('\x7b' :: c :: cs) = some (.object members, rest) := by
  rw [value?, skipBlanks_begins hc]
  split
  next hcs =>
    cases hcs
    exact absurd hc (by decide)
  next =>
    rw [hread]
    rfl

theorem exists_cons_writeItems {item : Json} (h : ReadBy value item) (items : List Json) :
    ∃ c cs, writeItems (item :: items) = c :: cs ∧ Begins c := by
  obtain ⟨c, cs, hwrite, hc⟩ := h.begins
  cases items with
  | nil => exact ⟨c, cs, hwrite, hc⟩
  | cons next items => exact ⟨c, cs ++ ',' :: writeItems (next :: items), by simp [writeItems, hwrite], hc⟩

theorem exists_cons_writeMembers (entry : String × Json) (members : List (String × Json)) :
    ∃ c cs, writeMembers (entry :: members) = c :: cs ∧ Begins c := by
  cases members with
  | nil => exact ⟨'"', _, by rw [writeMembers, writeString]; rfl, by decide⟩
  | cons next members => exact ⟨'"', _, by simp [writeMembers, writeString]; rfl, by decide⟩

theorem not_mem_of_isDigit (h : c.isDigit = true) : c ∉ ['n', 't', 'f', '"', '[', '\x7b'] := by
  intro hmem
  simp only [List.mem_cons, List.not_mem_nil, or_false] at hmem
  rcases hmem with rfl | rfl | rfl | rfl | rfl | rfl <;> cases h

/-- A value is read back, whatever stands behind it. -/
theorem value?_write {levels : Nat} {j : Json} (h : Readable levels j) (hrest : EndsNumber rest) :
    value? levels (j.write ++ rest) = some (j, rest) := by
  induction h generalizing rest with
  | null => exact value?_null _ _
  | bool value =>
    cases value with
    | false => exact value?_false _ _
    | true => exact value?_true _ _
  | @natural levels n h =>
    have hnumber := number?_natural h hrest
    obtain ⟨d, ds, hds, hdigit⟩ := exists_cons_toDigits n
    rw [hds, List.cons_append] at hnumber
    rw [write, writeNumber, hds, List.cons_append, value?_number (not_mem_of_isDigit hdigit), hnumber]
    rfl
  | negative hpos h =>
    rw [write, writeNumber, List.cons_append, value?_number (by decide), ← List.cons_append,
      number?_negative hpos h hrest]
    rfl
  | string value =>
    rw [write, writeString, List.cons_append, List.cons_append, value?_string, List.append_assoc,
      List.singleton_append, string?_write]
    simp
  | @array levels items h ih =>
    have hitems : ∀ item ∈ items, ReadBy (value? levels) item := fun item hitem =>
      ⟨exists_cons_write (h item hitem), fun rest hrest => ih item hitem hrest⟩
    rw [write, List.cons_append, List.cons_append, List.append_assoc, List.singleton_append]
    cases items with
    | nil =>
      rw [writeItems, List.nil_append, value?]
      rfl
    | cons item items =>
      have hbound : (item :: items).length ≤ (writeItems (item :: items) ++ ']' :: rest).length + 1 := by
        have hlength := length_le_writeItems hitems
        rw [List.length_append]
        omega
      have hread := items?_write (by simp) hitems hbound rest
      obtain ⟨c, cs, hcs, hc⟩ := exists_cons_writeItems (hitems item List.mem_cons_self) items
      rw [hcs, List.cons_append] at hread ⊢
      exact value?_array hc hread
  | @object levels members h ih =>
    have hmembers : ∀ entry ∈ members, ReadBy (value? levels) entry.2 := fun entry hentry =>
      ⟨exists_cons_write (h entry hentry), fun rest hrest => ih entry hentry hrest⟩
    rw [write, List.cons_append, List.cons_append, List.append_assoc, List.singleton_append]
    cases members with
    | nil =>
      rw [writeMembers, List.nil_append, value?]
      rfl
    | cons entry members =>
      have hbound : (entry :: members).length ≤
          (writeMembers (entry :: members) ++ '\x7d' :: rest).length + 1 := by
        have hlength := length_le_writeMembers (entry :: members)
        rw [List.length_append]
        omega
      have hread := members?_write (by simp) hmembers hbound rest
      obtain ⟨c, cs, hcs, hc⟩ := exists_cons_writeMembers entry members
      rw [hcs, List.cons_append] at hread ⊢
      exact value?_object hc hread

/-- The text of a value that has not too many containers around each other is that value. -/
theorem parse?_write {j : Json} (h : Readable maxNesting j) : parse? j.write = some j := by
  have hread := value?_write h endsNumber_nil
  obtain ⟨c, cs, hcs, hc⟩ := exists_cons_write h
  rw [List.append_nil] at hread
  rw [parse?, hcs, skipBlanks_begins hc, ← hcs, hread]
  rfl

end Hotload.Json
