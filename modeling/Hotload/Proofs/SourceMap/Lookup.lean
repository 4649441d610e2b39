import Mathlib
import Hotload.SourceMap

/-!
# Looking up positions in a source map

The mappings of a source map stand in the order of their generated positions. So the binary search
finds the nearest mapping in front of a position. In the source map of a printed program no two
mappings share a generated position, and a position that is mapped itself has the source position
of its mapping. What is looked up has 32 bits where the mappings leave room for it.

* `Pos.Before`: reading order.
* `SourceMap.Sorted`: the mappings are in order.
* `SourceMap.Sorted.lastNotAfter`: what the binary search finds.
* `SourceMap.Ascending`: the mappings are in order and at different positions.
* `SourceMap.Ascending.sourcePosition`: the source position of a mapping.
* `SourceMap.fits_sourcePosition`, `SourceMap.fits_sourcePosition_of_texts`: lookups that stay within 32
  bits.
-/

namespace Hotload

open Syntax (Pos)

/-! ## Reading order -/

/-- The position comes before another one in reading order. -/
def Syntax.Pos.Before (p q : Pos) : Prop := p.line < q.line ∨ p.line = q.line ∧ p.col < q.col

namespace Syntax.Pos

variable {p q r : Pos}

instance (p q : Pos) : Decidable (p.Before q) := inferInstanceAs (Decidable (_ ∨ _))

theorem le_iff (p q : Pos) : p.le q = true ↔ ¬ q.Before p := by
  simp only [le, Before, Bool.or_eq_true, Bool.and_eq_true, decide_eq_true_eq, beq_iff_eq]
  omega

theorem not_before_self (p : Pos) : ¬ p.Before p := by
  unfold Before
  omega

theorem Before.trans (h : p.Before q) (h' : q.Before r) : p.Before r := by
  unfold Before at *
  omega

theorem not_before_trans (h : ¬ q.Before p) (h' : ¬ r.Before q) : ¬ r.Before p := by
  unfold Before at *
  omega

theorem Before.of_not_before (h : p.Before q) (h' : ¬ r.Before q) : p.Before r := by
  unfold Before at *
  omega

theorem before_of_not_before_of_ne (h : ¬ q.Before p) (hne : p ≠ q) : p.Before q := by
  cases p
  cases q
  simp only [Before, ne_eq, mk.injEq] at *
  omega

end Syntax.Pos

namespace SourceMap

/-! ## The binary search -/

/-- The generated positions of the mappings do not decrease. Mappings may share one. -/
def Sorted (map : SourceMap) : Prop :=
  map.mappings.toList.Pairwise fun m m' => ¬ m'.generated.Before m.generated

instance (map : SourceMap) : Decidable map.Sorted := inferInstanceAs (Decidable (List.Pairwise _ _))

variable {map : SourceMap} {p : Pos}

theorem Sorted.not_before (h : map.Sorted) {i j : Nat} {m m' : Mapping} (hij : i < j)
    (hm : map.mappings[i]? = some m) (hm' : map.mappings[j]? = some m') :
    ¬ m'.generated.Before m.generated := by
  obtain ⟨hi, rfl⟩ := Array.getElem?_eq_some_iff.mp hm
  obtain ⟨hj, rfl⟩ := Array.getElem?_eq_some_iff.mp hm'
  exact List.pairwise_iff_getElem.mp h i j (by simpa using hi) (by simpa using hj) hij

/-- The search ends in its stretch, at a mapping that is not after `p` if it began at one, and all
mappings behind its end are after `p` if those behind its stretch are. -/
theorem Sorted.narrow (h : map.Sorted) {base size : Nat} (hsize : 0 < size)
    (hbase : base = 0 ∨ ∀ m, map.mappings[base]? = some m → ¬ p.Before m.generated)
    (hrest : ∀ j m, base + size ≤ j → map.mappings[j]? = some m → p.Before m.generated) :
    SourceMap.narrow map.mappings p base size < base + size ∧
    (SourceMap.narrow map.mappings p base size = 0 ∨
      ∀ m, map.mappings[SourceMap.narrow map.mappings p base size]? = some m →
        ¬ p.Before m.generated) ∧
    ∀ j m, SourceMap.narrow map.mappings p base size < j → map.mappings[j]? = some m →
      p.Before m.generated := by
  fun_induction SourceMap.narrow map.mappings p base size with
  | case1 base size hlt half mid base' ih =>
    cases hmid : map.mappings[mid]?.any (·.generated.le p) with
    | true =>
      -- The first half is dropped: the search goes on from a mapping that is not after `p`.
      have hbase' : base' = mid := if_pos hmid
      rw [hbase'] at ih ⊢
      have hfirst : ∀ m, map.mappings[mid]? = some m → ¬ p.Before m.generated := fun m hm => by
        rw [hm] at hmid
        exact (Pos.le_iff _ _).mp hmid
      obtain ⟨hlt', hfound⟩ := ih (by omega) (.inr hfirst) fun j m hj => hrest j m (by omega)
      exact ⟨by omega, hfound⟩
    | false =>
      -- The second half is dropped: its first mapping is after `p`, and so are those behind it.
      have hbase' : base' = base := if_neg (by rw [hmid]; exact Bool.false_ne_true)
      rw [hbase'] at ih ⊢
      have hsecond : ∀ j m, mid ≤ j → map.mappings[j]? = some m → p.Before m.generated := by
        intro j m hle hm
        obtain ⟨first, hfirst⟩ : ∃ first, map.mappings[mid]? = some first := by
          have hlen := (Array.getElem?_eq_some_iff.mp hm).1
          exact ⟨_, Array.getElem?_eq_getElem (Nat.lt_of_le_of_lt hle hlen)⟩
        have hafter : p.Before first.generated := by
          rw [hfirst] at hmid
          by_contra hn
          rw [Option.any_some, (Pos.le_iff _ _).mpr hn] at hmid
          cases hmid
        rcases Nat.eq_or_lt_of_le hle with rfl | hlt
        · cases hfirst.symm.trans hm
          exact hafter
        · exact hafter.of_not_before (h.not_before hlt hfirst hm)
      obtain ⟨hlt', hfound⟩ := ih (by omega) hbase fun j m hj => hsecond j m (by omega)
      exact ⟨by omega, hfound⟩
  | case2 base size hlt =>
    obtain rfl : size = 1 := by omega
    exact ⟨Nat.lt_succ_self base, hbase, hrest⟩

/-- The search finds the last mapping that is not after a position, or none if all are. -/
theorem Sorted.lastNotAfter (h : map.Sorted) (p : Pos) :
    match map.lastNotAfter p with
    | some m => ∃ front behind, map.mappings.toList = front ++ m :: behind ∧
        ¬ p.Before m.generated ∧ ∀ m' ∈ behind, p.Before m'.generated
    | none => ∀ m ∈ map.mappings, p.Before m.generated := by
  unfold SourceMap.lastNotAfter
  by_cases hsize : map.mappings.size = 0
  · have hnil : map.mappings = #[] := Array.size_eq_zero_iff.mp hsize
    simp [hnil]
  obtain ⟨hlt, hfront, hbehind⟩ := h.narrow (p := p) (Nat.pos_of_ne_zero hsize) (.inl rfl)
    fun j m hj hm => by
      have := (Array.getElem?_eq_some_iff.mp hm).1
      omega
  generalize SourceMap.narrow map.mappings p 0 map.mappings.size = i at *
  obtain ⟨m, hi⟩ : ∃ m, map.mappings[i]? = some m :=
    ⟨_, Array.getElem?_eq_getElem (by omega)⟩
  simp only [hi]
  by_cases hp : p.Before m.generated
  · rw [if_neg fun hle => (Pos.le_iff _ _).mp hle hp]
    -- All mappings are after `p`, since already the first one is.
    obtain rfl : i = 0 := hfront.resolve_right fun hn => hn m hi hp
    intro m' hm'
    obtain ⟨j, hj⟩ := Array.getElem?_of_mem hm'
    rcases Nat.eq_zero_or_pos j with rfl | hpos
    · cases hi.symm.trans hj
      exact hp
    · exact hbehind j m' hpos hj
  · rw [if_pos ((Pos.le_iff _ _).mpr hp)]
    rw [← Array.getElem?_toList] at hi
    obtain ⟨hlen, rfl⟩ := List.getElem?_eq_some_iff.mp hi
    refine ⟨map.mappings.toList.take i, map.mappings.toList.drop (i + 1), ?_, hp, fun m' hm' => ?_⟩
    · rw [List.getElem_cons_drop, List.take_append_drop]
    · obtain ⟨j, hj⟩ := List.mem_iff_getElem?.mp hm'
      rw [List.getElem?_drop, Array.getElem?_toList] at hj
      exact hbehind (i + 1 + j) m' (by omega) hj

/-! ## Mappings at different positions -/

/-- The generated positions of the mappings increase. -/
def Ascending (map : SourceMap) : Prop :=
  map.mappings.toList.Pairwise fun m m' => m.generated.Before m'.generated

theorem Ascending.sorted (h : map.Ascending) : map.Sorted := by
  refine List.Pairwise.imp ?_ h
  intro m m' hb hb'
  exact Pos.not_before_self _ (hb.trans hb')

/-- The search for the generated position of a mapping finds the mapping. -/
theorem Ascending.lastNotAfter (h : map.Ascending) {m : Mapping} (hm : m ∈ map.mappings) :
    map.lastNotAfter m.generated = some m := by
  have hfound := h.sorted.lastNotAfter m.generated
  cases hlast : map.lastNotAfter m.generated with
  | none =>
    rw [hlast] at hfound
    exact absurd (hfound m hm) (Pos.not_before_self _)
  | some m' =>
    rw [hlast] at hfound
    obtain ⟨front, behind, hsplit, hle, hbehind⟩ := hfound
    rw [Ascending, hsplit, List.pairwise_append] at h
    obtain ⟨-, -, hfront⟩ := h
    rw [← Array.mem_toList_iff, hsplit, List.mem_append, List.mem_cons] at hm
    rcases hm with hm | rfl | hm
    · exact absurd (hfront m hm m' List.mem_cons_self) hle
    · rfl
    · exact absurd (hbehind m hm) (Pos.not_before_self _)

/-- The generated position of a mapping comes from its source position. -/
theorem Ascending.sourcePosition (h : map.Ascending) {m : Mapping} (hm : m ∈ map.mappings) :
    map.sourcePosition m.generated = m.source := by
  rw [SourceMap.sourcePosition, h.lastNotAfter hm]
  simp

/-! ## Numbers of 32 bits -/

end SourceMap

namespace Syntax.Pos

/-- Line and column have 32 bits. -/
def Fits (p : Pos) : Prop := p.line < 2 ^ 32 ∧ p.col < 2 ^ 32

theorem after_le (p : Pos) (cs : List Char) :
    (p.after cs).line ≤ p.line + cs.length ∧ (p.after cs).col ≤ max p.col 1 + cs.length := by
  induction cs generalizing p with
  | nil => simp
  | cons c cs ih =>
    obtain ⟨hline, hcol⟩ := ih (p.next c)
    have hnext : (p.next c).line ≤ p.line + 1 ∧ max (p.next c).col 1 ≤ max p.col 1 + 1 := by
      unfold next
      split <;> simp
    rw [after_cons, List.length_cons]
    omega

/-- The positions in a text fit, unless it has about as many characters as there are numbers. -/
theorem fits_after {cs : List Char} (h : cs.length + 1 < 2 ^ 32) : (start.after cs).Fits := by
  obtain ⟨hline, hcol⟩ := after_le start cs
  have hstart : start.line = 1 ∧ start.col = 1 := ⟨rfl, rfl⟩
  exact ⟨by omega, by omega⟩

end Syntax.Pos

namespace SourceMap

variable {map : SourceMap} {p : Pos}

theorem mem_of_lastNotAfter {m : Mapping} (h : map.lastNotAfter p = some m) : m ∈ map.mappings := by
  unfold SourceMap.lastNotAfter at h
  split at h
  · rename_i hfound
    split at h
    · cases h
      exact Array.mem_of_getElem? hfound
    · cases h
  · cases h

/-- A position that fits is looked up within 32 bits if there is room for it behind the source positions
of all mappings. A record keeps mappings that fit, but they may leave no room. -/
theorem fits_sourcePosition (hp : p.Fits) (hroom : ∀ m ∈ map.mappings,
    (Pos.mk (m.source.line + p.line) (m.source.col + p.col)).Fits) :
    (map.sourcePosition p).Fits := by
  rw [SourceMap.sourcePosition]
  cases hlast : map.lastNotAfter p with
  | none => exact hp
  | some m =>
    obtain ⟨hline, hcol⟩ := hroom m (mem_of_lastNotAfter hlast)
    obtain ⟨hpline, hpcol⟩ := hp
    simp only at hline hcol
    dsimp only
    split
    · exact ⟨by simp only; omega, by simp only; omega⟩
    · exact ⟨by simp only; omega, by simp only; omega⟩

/-- So it is for a position in a code and mappings to positions in a source, if both together have fewer
characters than there are numbers. -/
theorem fits_sourcePosition_of_texts {source code front : List Char}
    (hlength : source.length + code.length + 2 < 2 ^ 32)
    (hsource : ∀ m ∈ map.mappings, ∃ before, before <+: source ∧ m.source = Pos.start.after before)
    (hfront : front <+: code) : (map.sourcePosition (Pos.start.after front)).Fits := by
  have hcode := hfront.length_le
  have hstart : Pos.start.line = 1 ∧ Pos.start.col = 1 := ⟨rfl, rfl⟩
  obtain ⟨hline, hcol⟩ := Pos.after_le .start front
  refine fits_sourcePosition (Pos.fits_after (by omega)) fun m hm => ?_
  obtain ⟨before, hbefore, hposition⟩ := hsource m hm
  have hlong := hbefore.length_le
  obtain ⟨hline', hcol'⟩ := Pos.after_le .start before
  rw [hposition]
  exact ⟨by simp only; omega, by simp only; omega⟩

end SourceMap

end Hotload
