import Hotload.Natives

/-!
# Split texts

A text is split where the separator stands first, and again behind it: occurrences that overlap one
that is passed do not count. So a part has no occurrence in it, and with the separators put back
between the parts the text is whole again.

* `Text.Splits`: the parts of a text between the leftmost occurrences of a separator.
* `Text.splits_splitOn`: these are the parts that a text is split into.
* `joining_undoes_splitting`: `join` behind `split`.
-/

namespace Hotload

namespace Text

variable {sep cs part : List Char} {parts : List (List Char)}

/-! ## The leftmost occurrences -/

/-- The parts of a text between the leftmost occurrences of a separator. Where the separator stands it
is passed as a whole, and anywhere else one character goes to the part in front. -/
inductive Splits (sep : List Char) : List Char → List (List Char) → Prop
  | nil : Splits sep [] [[]]
  | found {cs : List Char} {parts : List (List Char)} (h : Splits sep cs parts) :
      Splits sep (sep ++ cs) ([] :: parts)
  | passed {c : Char} {cs part : List Char} {parts : List (List Char)} (hc : ¬ sep <+: c :: cs)
      (h : Splits sep cs (part :: parts)) : Splits sep (c :: cs) ((c :: part) :: parts)

theorem Splits.ne_nil (h : Splits sep cs parts) : parts ≠ [] := by
  cases h <;> exact List.cons_ne_nil _ _

theorem Splits.joinWith (h : Splits sep cs parts) : joinWith sep parts = cs := by
  induction h with
  | nil => rfl
  | found h ih =>
    obtain ⟨part, parts, rfl⟩ := List.exists_cons_of_ne_nil h.ne_nil
    rw [Text.joinWith, ih, List.nil_append]
    exact List.cons_ne_nil _ _
  | @passed c cs part parts hc h ih =>
    cases parts with
    | nil => exact congrArg (c :: ·) ih
    | cons next parts => exact congrArg (c :: ·) ih

theorem Splits.begins (h : Splits sep cs (part :: parts)) : part <+: cs := by
  generalize hps : part :: parts = ps at h
  induction h generalizing part parts with
  | nil =>
    cases hps
    exact List.nil_prefix
  | found h ih =>
    cases hps
    exact List.nil_prefix
  | passed hc h ih =>
    cases hps
    exact List.cons_prefix_cons.mpr ⟨rfl, ih rfl⟩

/-- An occurrence in a part would have been found. -/
theorem Splits.not_occurs (h : Splits sep cs parts) (hsep : sep ≠ []) :
    ∀ part ∈ parts, ¬ sep <:+: part := by
  have hnil : ¬ sep <:+: [] := fun hs => hsep (List.infix_nil.mp hs)
  induction h with
  | nil => exact List.forall_mem_singleton.mpr hnil
  | found h ih => exact List.forall_mem_cons.mpr ⟨hnil, ih⟩
  | passed hc h ih =>
    obtain ⟨hpart, hparts⟩ := List.forall_mem_cons.mp ih
    refine List.forall_mem_cons.mpr ⟨fun hs => ?_, hparts⟩
    rcases List.infix_cons_iff.mp hs with hs | hs
    · exact hc (hs.trans (List.cons_prefix_cons.mpr ⟨rfl, h.begins⟩))
    · exact hpart hs

/-! ## What a text is split into -/

theorem splitOccurrences_passing (sep : List Char) (n : Nat) (cs : List Char) :
    splitOccurrences sep n cs = splitOccurrences sep 0 (cs.drop n) := by
  induction cs generalizing n with
  | nil => simp [splitOccurrences]
  | cons c cs ih =>
    cases n with
    | zero => rfl
    | succ n => rw [splitOccurrences, ih, List.drop_succ_cons]

theorem splits_splitOccurrences (hsep : sep ≠ []) (cs : List Char) :
    Splits sep cs (splitOccurrences sep 0 cs) := by
  induction hn : cs.length using Nat.strongRecOn generalizing cs with
  | _ n ih =>
    cases cs with
    | nil => exact .nil
    | cons c cs =>
      have hlength : 0 < sep.length := List.length_pos_iff.mpr hsep
      rw [List.length_cons] at hn
      by_cases hp : sep <+: c :: cs
      · obtain ⟨rest, hrest⟩ := hp
        have hdrop : cs.drop (sep.length - 1) = rest := by
          have hdrop : (c :: cs).drop sep.length = rest := by rw [← hrest, List.drop_left]
          rwa [← Nat.sub_add_cancel hlength, List.drop_succ_cons] at hdrop
        have hshort : rest.length < n := by
          have := congrArg List.length hrest
          simp only [List.length_append, List.length_cons] at this
          omega
        have hfound : sep.isPrefixOf (c :: cs) = true := List.isPrefixOf_iff_prefix.mpr ⟨rest, hrest⟩
        rw [splitOccurrences, if_pos hfound, splitOccurrences_passing, hdrop, ← hrest]
        exact .found (ih rest.length hshort rest rfl)
      · have hsplits := ih cs.length (by omega) cs rfl
        obtain ⟨part, parts, hparts⟩ := List.exists_cons_of_ne_nil hsplits.ne_nil
        rw [splitOccurrences, if_neg (mt List.isPrefixOf_iff_prefix.mp hp), hparts]
        exact .passed hp (hparts ▸ hsplits)

theorem splits_splitOn (hsep : sep ≠ []) (cs : List Char) : Splits sep cs (splitOn sep cs) := by
  rw [splitOn, if_neg hsep]
  exact splits_splitOccurrences hsep cs

theorem joinWith_nil (parts : List (List Char)) : joinWith [] parts = parts.flatten := by
  induction parts with
  | nil => rfl
  | cons part parts ih =>
    cases parts with
    | nil => simp [joinWith]
    | cons next parts => simp [joinWith, ih]

/-- With the separator between its parts, a split text is whole again. -/
theorem joinWith_splitOn (sep cs : List Char) : joinWith sep (splitOn sep cs) = cs := by
  by_cases hsep : sep = []
  · rw [splitOn, if_pos hsep, hsep, joinWith_nil]
    simp [← List.flatMap_def]
  · exact (splits_splitOn hsep cs).joinWith

end Text

/-! ## The native functions -/

theorem Heap.items_newList (h : Heap) (items : Array Value) :
    (h.newList items).2.items (h.newList items).1 = items := by
  simp [newList, Heap.items]

theorem Native.joinText_ofChars (h : Heap) (parts : List (List Char)) (sep : String) :
    joinText h (parts.map ofChars) sep = ofChars (Text.joinWith sep.toList parts) := by
  simp [joinText, ofChars, Heap.display, Function.comp_def]

/-- A split text is a list of texts, from which joining with the separator, be it empty, makes the text
again. In none of them is the separator, unless it is empty. -/
theorem joining_undoes_splitting (h : Heap) (s sep : String) :
    ∃ r h', Native.split.apply [.str s, .str sep] h = .ok (.list r, h') ∧
      Native.join.apply [.list r, .str sep] h' = .ok (.str s, h') ∧
      ∀ v ∈ (h'.items r).toList, ∃ part : String, v = .str part ∧
        (sep ≠ "" → ¬ sep.toList <:+: part.toList) := by
  let parts := Text.splitOn sep.toList s.toList
  obtain ⟨r, h', hnew⟩ : ∃ r h', h.newList (parts.map Native.ofChars).toArray = (r, h') :=
    ⟨_, _, rfl⟩
  have hitems : (h'.items r).toList = parts.map Native.ofChars := by
    have hitems := h.items_newList (parts.map Native.ofChars).toArray
    rw [hnew] at hitems
    rw [hitems]
  refine ⟨r, h', ?_, ?_, fun v hv => ?_⟩
  · change Except.ok (Native.splitText h s sep) = _
    rw [Native.splitText, hnew]
  · change Except.ok (Native.joinText h' (h'.items r).toList sep, h') = _
    rw [hitems, Native.joinText_ofChars, Text.joinWith_splitOn, Native.ofChars, String.ofList_toList]
  · rw [hitems] at hv
    obtain ⟨part, hpart, rfl⟩ := List.mem_map.mp hv
    refine ⟨String.ofList part, rfl, fun hsep => ?_⟩
    have hne : sep.toList ≠ [] := mt String.toList_eq_nil_iff.mp hsep
    rw [String.toList_ofList]
    exact (Text.splits_splitOn hne s.toList).not_occurs hne part hpart

/-- Occurrences that overlap one in front of them do not count. -/
example : Text.splitOn "aa".toList "aaaab".toList = [[], [], ['b']] := by decide

end Hotload
