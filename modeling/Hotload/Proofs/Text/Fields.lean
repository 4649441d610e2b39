import Mathlib
import Hotload.Text.Fields

/-!
# Fields and lines

The parts between the separators of a text are what was joined, and a text that is cut in two is cut
in the part with the number of the separators in front. The lines of a text are its parts between
newlines, less a last part with nothing on it and the carriage returns in front of newlines.

* `Text.fields_joinFields`: splitting undoes joining, if there are no separators in the parts.
* `Text.fields_at`: the part in which a text is cut in two.
* `Text.lines_at`: the line on which a text is cut in two.
-/

namespace Hotload.Text

variable {sep : Char} {f cs line : List Char} {fs : List (List Char)}

/-! ## Fields -/

theorem fields_append_sep (sep : Char) (as bs : List Char) :
    fields sep (as ++ sep :: bs) = fields sep as ++ fields sep bs := by
  induction as with
  | nil => simp [fields]
  | cons c as ih =>
    rw [List.cons_append, fields, fields]
    split
    · rw [ih, List.cons_append]
    · rw [ih]
      cases hfields : fields sep as with
      | nil => exact absurd hfields (fields_ne_nil sep as)
      | cons f fs => rfl

theorem fields_of_not_mem (h : sep ∉ f) : fields sep f = [f] := by
  induction f with
  | nil => rfl
  | cons c f ih =>
    obtain ⟨hc, hf⟩ := not_or.1 (mt List.mem_cons.2 h)
    rw [fields, if_neg (Ne.symm hc), ih hf]

theorem fields_append (h : sep ∉ f) (cs : List Char) :
    fields sep (f ++ sep :: cs) = f :: fields sep cs := by
  rw [fields_append_sep, fields_of_not_mem h]
  rfl

theorem not_mem_of_mem_fields (h : f ∈ fields sep cs) : sep ∉ f := by
  induction cs generalizing f with
  | nil =>
    rw [List.mem_singleton.1 h]
    simp
  | cons c cs ih =>
    unfold fields at h
    split at h
    · rcases List.mem_cons.1 h with rfl | h
      · simp
      · exact ih h
    next hc =>
      cases hrest : fields sep cs with
      | nil => exact absurd hrest (fields_ne_nil sep cs)
      | cons g gs =>
        rw [hrest] at h ih
        rcases List.mem_cons.1 h with rfl | h
        · exact List.not_mem_cons_of_ne_of_not_mem (Ne.symm hc) (ih List.mem_cons_self)
        · exact ih (List.mem_cons_of_mem _ h)

/-- Parts without separators are found again. -/
theorem fields_intercalate {fs : List (List Char)} (hne : fs ≠ []) (h : ∀ f ∈ fs, sep ∉ f) :
    fields sep ([sep].intercalate fs) = fs := by
  induction fs with
  | nil => exact absurd rfl hne
  | cons f fs ih =>
    have hf : sep ∉ f := h f List.mem_cons_self
    cases fs with
    | nil => simpa using fields_of_not_mem hf
    | cons g gs =>
      rw [List.intercalate_cons_cons, List.append_assoc, List.singleton_append, fields_append hf,
        ih (by simp) fun f hf => h f (List.mem_cons_of_mem _ hf)]

theorem joinFields_eq_intercalate (sep : Char) (fs : List (List Char)) :
    joinFields sep fs = [sep].intercalate fs := by
  induction fs with
  | nil => rfl
  | cons f fs ih =>
    cases fs with
    | nil => simp [joinFields]
    | cons g gs =>
      rw [List.intercalate_cons_cons, List.append_assoc, List.singleton_append, ← ih]
      rfl

/-- Splitting undoes joining. -/
theorem fields_joinFields (hne : fs ≠ []) (h : ∀ f ∈ fs, sep ∉ f) :
    fields sep (joinFields sep fs) = fs := by
  rw [joinFields_eq_intercalate, fields_intercalate hne h]

theorem length_fields (sep : Char) (cs : List Char) : (fields sep cs).length = cs.count sep + 1 := by
  induction cs with
  | nil => rfl
  | cons c cs ih =>
    obtain ⟨f, fs, hfields⟩ := List.exists_cons_of_ne_nil (fields_ne_nil sep cs)
    rw [fields]
    split
    next hc => rw [hc, List.count_cons_self, List.length_cons, ih]
    next hc =>
      rw [hfields] at ih ⊢
      rw [List.count_cons_of_ne hc, ← ih]
      rfl

theorem head?_fields (sep : Char) (cs : List Char) :
    (fields sep cs).head? = some (cs.takeWhile (· ≠ sep)) := by
  induction cs with
  | nil => rfl
  | cons c cs ih =>
    obtain ⟨f, fs, hfields⟩ := List.exists_cons_of_ne_nil (fields_ne_nil sep cs)
    rw [fields]
    split
    next hc => simp [hc]
    next hc =>
      rw [hfields, List.head?_cons, Option.some.injEq] at ih
      simp [hfields, hc, ih]

/-- The part in which a text is cut in two. -/
theorem fields_at (sep : Char) (front rest : List Char) :
    (fields sep (front ++ rest))[front.count sep]? =
      some (front.rtakeWhile (· ≠ sep) ++ rest.takeWhile (· ≠ sep)) := by
  induction front using List.reverseRecOn generalizing rest with
  | nil => simp [← List.head?_eq_getElem?, head?_fields]
  | append_singleton front c ih =>
    rw [List.append_assoc, List.singleton_append]
    by_cases hc : c = sep
    · have hlength := length_fields sep front
      rw [hc, fields_append_sep, List.count_append, List.count_singleton_self,
        List.getElem?_append_right (by omega), hlength, Nat.sub_self, ← List.head?_eq_getElem?,
        head?_fields]
      simp
    · rw [List.count_append, List.count_singleton, beq_false_of_ne hc]
      simpa [hc] using ih (c :: rest)

theorem exists_fields_eq (sep : Char) (cs : List Char) :
    ∃ init, fields sep cs = init ++ [cs.rtakeWhile (· ≠ sep)] ∧ init.length = cs.count sep := by
  obtain ⟨init, last, hfields⟩ : ∃ init last, fields sep cs = init ++ [last] :=
    ⟨_, _, (List.dropLast_concat_getLast (fields_ne_nil sep cs)).symm⟩
  have hlength : init.length = cs.count sep := by
    have h := length_fields sep cs
    rw [hfields, List.length_append, List.length_singleton] at h
    exact Nat.succ_inj.mp h
  have hlast := fields_at sep cs []
  rw [List.append_nil, hfields, ← hlength, List.getElem?_concat_length, Option.some.injEq] at hlast
  exact ⟨init, by rw [hfields, hlast]; simp, hlength⟩

/-! ## Lines -/

theorem chopReturn_sublist (line : List Char) : (chopReturn line).Sublist line := by
  unfold chopReturn
  split
  · exact List.dropLast_sublist line
  · exact List.Sublist.refl line

theorem chopReturn_of_getLast? (h : line.getLast? ≠ some '\r') : chopReturn line = line := by
  unfold chopReturn
  split
  next hlast => exact absurd hlast h
  next => rfl

theorem length_le_chopReturn (line : List Char) : line.length - 1 ≤ (chopReturn line).length := by
  unfold chopReturn
  split
  · rw [List.length_dropLast]
  · exact Nat.sub_le _ _

/-- The part behind the last newline is a line unless there is nothing on it. -/
theorem lines_eq (cs : List Char) :
    ∃ init last, fields '\n' cs = init ++ [last] ∧
      (lines cs = init.map chopReturn ++ [last] ∨ last = [] ∧ lines cs = init.map chopReturn) := by
  obtain ⟨init, hfields, -⟩ := exists_fields_eq '\n' cs
  refine ⟨init, _, hfields, ?_⟩
  rcases List.eq_nil_or_concat cs with rfl | ⟨ds, c, rfl⟩
  · exact .inr ⟨rfl, by cases init <;> simp_all [lines, fields]⟩
  · rw [List.concat_eq_append] at hfields ⊢
    by_cases hc : c = '\n'
    · subst hc
      have hlast : (ds ++ ['\n']).rtakeWhile (· ≠ '\n') = [] := by simp
      rw [hlast] at hfields ⊢
      exact .inr ⟨rfl, by simp [lines, hfields]⟩
    · have hlast : (ds ++ [c]).rtakeWhile (· ≠ '\n') ≠ [] := by simp [hc]
      generalize (ds ++ [c]).rtakeWhile (· ≠ '\n') = last at hfields hlast
      exact .inl (by simp [lines, hfields, hlast, hc])

theorem newline_not_mem_lines (h : line ∈ lines cs) : '\n' ∉ line := by
  obtain ⟨init, last, hfields, hlines⟩ := lines_eq cs
  have hmem {f : List Char} (hf : f ∈ init ++ [last]) : '\n' ∉ f := by
    rw [← hfields] at hf
    exact not_mem_of_mem_fields hf
  have hchopped (hl : line ∈ init.map chopReturn) : '\n' ∉ line := by
    obtain ⟨f, hf, rfl⟩ := List.mem_map.mp hl
    exact fun hbreak => hmem (List.mem_append_left _ hf) ((chopReturn_sublist f).subset hbreak)
  rcases hlines with hlines | ⟨-, hlines⟩
  · rw [hlines] at h
    rcases List.mem_append.mp h with h | h
    · exact hchopped h
    · exact hmem (List.mem_append_right _ h)
  · rw [hlines] at h
    exact hchopped h

/-- The line on which a text is cut in two, without its ending: a newline, or a carriage return and a
newline. -/
def lineAt (front rest : List Char) : List Char :=
  let line := front.rtakeWhile (· ≠ '\n') ++ rest.takeWhile (· ≠ '\n')
  if '\n' ∈ rest then chopReturn line else line

/-- Where a text ends behind a newline, there is no line any more. -/
theorem lines_at (front rest : List Char) :
    ((lines (front ++ rest))[front.count '\n']?).getD [] = lineAt front rest := by
  obtain ⟨init, last, hfields, hlines⟩ := lines_eq (front ++ rest)
  have hat := fields_at '\n' front rest
  have hlength := length_fields '\n' (front ++ rest)
  rw [hfields] at hat hlength
  rw [List.length_append, List.length_singleton, List.count_append] at hlength
  rw [lineAt]
  split
  next hbreak =>
    have hcount : front.count '\n' < init.length := by
      have := List.count_pos_iff.mpr hbreak
      omega
    have hmap : (init.map chopReturn)[front.count '\n']? =
        some (chopReturn (front.rtakeWhile (· ≠ '\n') ++ rest.takeWhile (· ≠ '\n'))) := by
      rw [List.getElem?_append_left hcount] at hat
      rw [List.getElem?_map, hat]
      rfl
    rcases hlines with hlines | ⟨-, hlines⟩
    · rw [hlines, List.getElem?_append_left (by simpa using hcount), hmap]
      rfl
    · rw [hlines, hmap]
      rfl
  next hbreak =>
    have hcount : front.count '\n' = init.length := by
      have := List.count_eq_zero.mpr hbreak
      omega
    rw [hcount, List.getElem?_concat_length, Option.some.injEq] at hat
    rw [hcount, ← hat]
    rcases hlines with hlines | ⟨hlast, hlines⟩
    · simp [hlines]
    · simp [hlines, hlast]

/-- A cut that is not inside a line ending is on its line or right behind it. -/
theorem length_rtakeWhile_le_lineAt {front rest : List Char}
    (h : rest.head? = some '\n' → front.getLast? ≠ some '\r') :
    (front.rtakeWhile (· ≠ '\n')).length ≤ (lineAt front rest).length := by
  rw [lineAt]
  split
  next hbreak =>
    obtain ⟨c, rest, rfl⟩ := List.exists_cons_of_ne_nil (List.ne_nil_of_mem hbreak)
    by_cases hc : c = '\n'
    · have hlast : (front.rtakeWhile (· ≠ '\n')).getLast? ≠ some '\r' := by
        intro hreturn
        obtain ⟨before, hfront⟩ := List.rtakeWhile_suffix (· ≠ '\n') front
        refine h (congrArg some hc) ?_
        rw [← hfront, List.getLast?_append, hreturn]
        rfl
      rw [List.takeWhile_cons_of_neg (by simpa using hc), List.append_nil,
        chopReturn_of_getLast? hlast]
    · have hchop := length_le_chopReturn
        (front.rtakeWhile (· ≠ '\n') ++ (c :: rest).takeWhile (· ≠ '\n'))
      rw [List.takeWhile_cons_of_pos (by simpa using hc), List.length_append, List.length_cons]
        at hchop
      rw [List.takeWhile_cons_of_pos (by simpa using hc)]
      omega
  next => simp

end Hotload.Text
