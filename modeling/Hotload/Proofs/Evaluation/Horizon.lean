import Mathlib
import Hotload.Proofs.Evaluation.Renaming

/-!
# What a run can reach

A run gets at no more of the heap than what its values lead to, through lists, objects, the variables
of scopes and the scopes around them. So what it leaves behind leads to nothing that was there before
and that it could not reach when it started.

* `Heap.Sound`: every reference refers to something.
* `Heap.Reaches`: a reference is within reach of some values.
* `Horizon`: what a run knows of, and how much there was when it started.
* `Likeness.confined`: the likeness of a machine and itself, within a horizon.
* `Horizon.within_of_reaches`: what is reached from within a horizon is within it.
* `Horizon.lookup_clearScopes`: scopes out of reach can be emptied.
-/

namespace Hotload

/-! ## References -/

/-- A reference to something on the heap that may hold further ones. -/
inductive Ref where
  | list (ref : ListRef)
  | object (ref : ObjectRef)
  | scope (ref : ScopeRef)
deriving DecidableEq

/-- Where the reference points to among those of its kind. -/
def Ref.index : Ref → Nat
  | list r => r.index
  | object r => r.index
  | scope r => r.index

/-- What a value refers to; a function refers to the scope it was made in. -/
def Value.ref? : Value → Option Ref
  | .list r => some (.list r)
  | .object r => some (.object r)
  | .fn closure => some (.scope closure.scope)
  | .nil | .bool _ | .num _ | .str _ | .native .. | .require _ => none

/-- What tells a value apart from others that are made alike. -/
def Value.identity? : Value → Option Identity
  | .native _ i => some i
  | .require r => some r.identity
  | .nil | .bool _ | .num _ | .str _ | .list _ | .object _ | .fn _ => none

namespace Heap

/-- The values that something on the heap holds. -/
def contents (h : Heap) : Ref → List Value
  | .list r => (h.items r).toList
  | .object r => (h.fields r).map Prod.snd
  | .scope r => (h.scope r).vars.map Prod.snd

/-- The scope around a scope. -/
def around? (h : Heap) : Ref → Option ScopeRef
  | .list _ | .object _ => none
  | .scope r => (h.scope r).parent

/-- What the first reference refers to holds the second one, or lies within it. -/
def Holds (h : Heap) (p q : Ref) : Prop :=
  (∃ v ∈ h.contents p, v.ref? = some q) ∨ (h.around? p).map .scope = some q

/-- The reference is within reach of one of the values. -/
def Reaches (h : Heap) (values : Set Value) (p : Ref) : Prop :=
  ∃ v ∈ values, ∃ q, v.ref? = some q ∧ Relation.ReflTransGen h.Holds q p

/-- How many lists, objects, scopes and identities there are. -/
structure Sizes where
  lists : Nat
  objects : Nat
  scopes : Nat
  identities : Nat

/-- How much there is on a heap. -/
def sizes (h : Heap) : Sizes := ⟨h.lists.size, h.objects.size, h.scopes.size, h.identities⟩

namespace Sizes

/-- How many there are of the kind of a reference. -/
def of (s : Sizes) : Ref → Nat
  | .list _ => s.lists
  | .object _ => s.objects
  | .scope _ => s.scopes

/-- There is no less of anything. -/
structure Le (s t : Sizes) : Prop where
  lists : s.lists ≤ t.lists
  objects : s.objects ≤ t.objects
  scopes : s.scopes ≤ t.scopes
  identities : s.identities ≤ t.identities

instance : Preorder Sizes where
  le := Le
  le_refl _ := ⟨le_rfl, le_rfl, le_rfl, le_rfl⟩
  le_trans _ _ _ h h' := ⟨h.lists.trans h'.lists, h.objects.trans h'.objects,
    h.scopes.trans h'.scopes, h.identities.trans h'.identities⟩

theorem of_mono {s t : Sizes} (h : s ≤ t) (p : Ref) : s.of p ≤ t.of p := by
  cases p with
  | list r => exact h.lists
  | object r => exact h.objects
  | scope r => exact h.scopes

end Sizes

theorem Extends.sizes_le {h h' : Heap} (he : h.Extends h') : h.sizes ≤ h'.sizes where
  lists := by
    by_contra hlt
    exact absurd (he.lists ⟨h'.lists.size⟩ (not_le.1 hlt)).1 (lt_irrefl _)
  objects := by
    by_contra hlt
    exact absurd (he.objects ⟨h'.objects.size⟩ (not_le.1 hlt)).1 (lt_irrefl _)
  scopes := by
    by_contra hlt
    exact absurd (he.scopes ⟨h'.scopes.size⟩ (not_le.1 hlt)).1 (lt_irrefl _)
  identities := he.identities

@[simp] theorem sizes_modifyScope (h : Heap) (r : ScopeRef) (f : Scope → Scope) :
    (h.modifyScope r f).sizes = h.sizes := by
  simp [sizes, modifyScope]

@[simp] theorem sizes_setField (h : Heap) (r : ObjectRef) (key : String) (v : Value) :
    (h.setField r key v).sizes = h.sizes := by
  simp [sizes, setField]

theorem sizes_setItem {h h' : Heap} {r : ListRef} {n : Nat} {v : Value}
    (hset : h.setItem? r n v = some h') : h'.sizes = h.sizes := by
  unfold setItem? at hset
  split at hset
  · cases hset
    simp [sizes]
  · cases hset

theorem sizes_assign {h h' : Heap} {r : ScopeRef} {name : String} {v : Value}
    (hassign : h.assign r name v = some h') : h'.sizes = h.sizes := by
  obtain ⟨holder, -, rfl⟩ := exists_of_assign hassign
  exact sizes_modifyScope ..

end Heap

namespace Heap

/-- What a value refers to is there. -/
structure Has (h : Heap) (v : Value) : Prop where
  ref : ∀ p, v.ref? = some p → p.index < h.sizes.of p
  identity : ∀ i, v.identity? = some i → i.index < h.identities

/-- All that is held on the heap is there, and scopes are younger than the scopes around them. -/
structure Sound (h : Heap) : Prop where
  contents : ∀ p, p.index < h.sizes.of p → ∀ v ∈ h.contents p, h.Has v
  older : ∀ r p, r.index < h.scopes.size → (h.scope r).parent = some p → p.index < r.index

/-- What is held is there. -/
theorem Sound.exists_of_holds {h : Heap} (hs : h.Sound) {p q : Ref} (hp : p.index < h.sizes.of p)
    (hpq : h.Holds p q) : q.index < h.sizes.of q := by
  rcases hpq with ⟨v, hv, hq⟩ | hq
  · exact (hs.contents p hp v hv).ref q hq
  · cases p with
    | list r | object r => cases hq
    | scope r =>
      obtain ⟨parent, hparent, rfl⟩ := Option.map_eq_some_iff.1 hq
      exact (hs.older r parent hp hparent).trans hp

/-! ### Scopes that are emptied -/

variable {h : Heap}

@[simp] theorem sizes_clearScope (h : Heap) (r : ScopeRef) : (h.clearScope r).sizes = h.sizes :=
  sizes_modifyScope ..

theorem Has.of_sizes {h' : Heap} {v : Value} (hv : h.Has v) (hs : h.sizes = h'.sizes) : h'.Has v :=
  ⟨fun p hp => hs ▸ hv.ref p hp,
    fun i hi => (show h.identities = h'.identities from congrArg Sizes.identities hs) ▸ hv.identity i hi⟩

theorem clearScope_of_le {r : ScopeRef} (hr : h.scopes.size ≤ r.index) : h.clearScope r = h := by
  obtain ⟨lists, objects, scopes, identities⟩ := h
  simp only [clearScope, modifyScope, Heap.mk.injEq, true_and, and_true]
  refine Array.ext (by simp) fun i hi hi' => ?_
  rw [Array.getElem_modify, if_neg]
  rintro rfl
  exact not_lt.2 hr hi'

theorem Sound.clearScope (hs : h.Sound) (r : ScopeRef) : (h.clearScope r).Sound := by
  by_cases hr : r.index < h.scopes.size
  · have hscope : ∀ q, (h.clearScope r).scope q =
        if r = q then { h.scope q with vars := [], fns := [] } else h.scope q := scope_modifyScope hr _
    refine ⟨fun p hp v hv => ?_, fun q p hq hp => ?_⟩
    · rw [sizes_clearScope] at hp
      refine (hs.contents p hp v ?_).of_sizes (sizes_clearScope h r).symm
      cases p with
      | list q => exact hv
      | object q => exact hv
      | scope q =>
        simp only [Heap.contents, hscope] at hv
        split at hv
        · cases hv
        · exact hv
    · refine hs.older q p (hq.trans_eq (congrArg Sizes.scopes (sizes_clearScope h r))) ?_
      rw [hscope] at hp
      split at hp <;> exact hp
  · rwa [clearScope_of_le (not_lt.1 hr)]

theorem sound_clearScopes (hs : h.Sound) (rs : List ScopeRef) :
    (rs.foldl Heap.clearScope h).Sound ∧ (rs.foldl Heap.clearScope h).sizes = h.sizes := by
  induction rs generalizing h with
  | nil => exact ⟨hs, rfl⟩
  | cons r rs ih =>
    obtain ⟨hsound, hsizes⟩ := ih (hs.clearScope r)
    exact ⟨hsound, hsizes.trans (sizes_clearScope h r)⟩

end Heap

/-! ## Horizons -/

/-- What a run knows of when it starts, and how much there is on its heap then. -/
structure Horizon where
  known : Set Ref
  start : Heap.Sizes

namespace Horizon

open Heap (Sizes Matches)

/-- The horizon that nothing is beyond. -/
def all : Horizon := ⟨Set.univ, ⟨0, 0, 0, 0⟩⟩

/-- The horizon of a run that starts with some values. -/
def of (h : Heap) (values : Set Value) : Horizon := ⟨{ p | h.Reaches values p }, h.sizes⟩

variable (H : Horizon)

/-- The reference is known from the start or new, and there is something that it refers to. -/
structure Within (s : Sizes) (p : Ref) : Prop where
  known : p ∈ H.known ∨ H.start.of p ≤ p.index
  exists_ : p.index < s.of p

/-- Every reference within the horizon stands for itself. -/
def pairing (s : Sizes) : Pairing where
  list r t := r = t ∧ H.Within s (.list r)
  object r t := r = t ∧ H.Within s (.object r)
  scope r t := r = t ∧ H.Within s (.scope r)
  identity i j := i = j ∧ i.index < s.identities
  path _ := True

/-- What is within the horizon refers to nothing outside of it. -/
structure Confines (s : Sizes) (h : Heap) : Prop where
  sizes : h.sizes = s
  later : H.start ≤ s
  sound : Matches (H.pairing s) h h

variable {H} {s t : Sizes} {h : Heap} {p q : Ref} {v : Value}

theorem Within.mono (hst : s ≤ t) (hp : H.Within s p) : H.Within t p :=
  ⟨hp.known, hp.exists_.trans_le (Sizes.of_mono hst p)⟩

theorem pairing_mono (H : Horizon) : Monotone H.pairing := fun _ _ hst =>
  ⟨fun _ _ h => ⟨h.1, h.2.mono hst⟩, fun _ _ h => ⟨h.1, h.2.mono hst⟩,
    fun _ _ h => ⟨h.1, h.2.mono hst⟩, fun _ _ h => ⟨h.1, h.2.trans_le hst.identities⟩, fun _ => id⟩

theorem biUnique_diagonal {α : Type} (P : α → Prop) : Relator.BiUnique fun a b => a = b ∧ P a :=
  ⟨fun _ _ _ h h' => h.1.trans h'.1.symm, fun _ _ _ h h' => h.1.symm.trans h'.1⟩

theorem eq_of_paired {w : Value} (h : v.Paired (H.pairing s) w) : v = w := by
  cases h with
  | nil | bool | num | str => rfl
  | list h | object h | native _ h | require _ _ h => rw [h.1]
  | fn h _ => rw [h.1]

theorem eq_of_fieldsPaired {fs gs : Fields} (h : Fields.Paired (H.pairing s) fs gs) : fs = gs := by
  induction h with
  | nil => rfl
  | cons hp _ ih => rw [ih, Prod.ext hp.1 (eq_of_paired hp.2)]

theorem eq_of_listPaired {vs ws : List Value} (h : Value.ListPaired (H.pairing s) vs ws) :
    vs = ws := by
  induction h with
  | nil => rfl
  | cons hv _ ih => rw [ih, eq_of_paired hv]

/-- A value stands for itself if what it refers to is within the horizon. -/
theorem paired_self_iff : v.Paired (H.pairing s) v ↔
    (∀ p, v.ref? = some p → H.Within s p) ∧ ∀ i, v.identity? = some i → i.index < s.identities := by
  constructor
  · intro h
    constructor
    · rintro p hp
      cases h with
      | nil | bool | num | str | native | require => cases hp
      | list h | object h | fn h => cases hp; exact h.2
    · rintro i hi
      cases h with
      | nil | bool | num | str | list | object | fn => cases hi
      | native _ h | require _ _ h => cases hi; exact h.2
  · rintro ⟨href, hidentity⟩
    cases v with
    | nil => exact .nil
    | bool b => exact .bool b
    | num x => exact .num x
    | str s => exact .str s
    | list r => exact .list ⟨rfl, href _ rfl⟩
    | object r => exact .object ⟨rfl, href _ rfl⟩
    | fn closure => exact .fn ⟨rfl, href _ rfl⟩ trivial
    | native f i => exact .native f ⟨rfl, hidentity _ rfl⟩
    | require r => exact .require r.dir r.resolveOnly ⟨rfl, hidentity _ rfl⟩

theorem within_of_ref (h : v.Paired (H.pairing s) v) (hp : v.ref? = some p) : H.Within s p :=
  (paired_self_iff.1 h).1 p hp

theorem fieldsPaired_self_iff {fs : Fields} : Fields.Paired (H.pairing s) fs fs ↔
    ∀ v ∈ fs.map Prod.snd, v.Paired (H.pairing s) v := by
  simp only [Fields.Paired, List.forall₂_same, List.forall_mem_map, true_and]

theorem listPaired_self_iff {vs : List Value} : Value.ListPaired (H.pairing s) vs vs ↔
    ∀ v ∈ vs, v.Paired (H.pairing s) v := List.forall₂_same

/-- What is held within the horizon stands for itself. -/
theorem paired_of_mem_contents (hs : Matches (H.pairing s) h h) (hp : H.Within s p)
    (hv : v ∈ h.contents p) : v.Paired (H.pairing s) v := by
  cases p with
  | list r => exact listPaired_self_iff.1 (hs.lists ⟨rfl, hp⟩).items v hv
  | object r => exact fieldsPaired_self_iff.1 (hs.objects ⟨rfl, hp⟩).fields v hv
  | scope r => exact fieldsPaired_self_iff.1 (hs.scopes ⟨rfl, hp⟩).contents.vars v hv

/-- What is held within the horizon is within it. -/
theorem within_of_holds (hs : Matches (H.pairing s) h h) (hp : H.Within s p) (hpq : h.Holds p q) :
    H.Within s q := by
  rcases hpq with ⟨v, hv, hq⟩ | hq
  · exact within_of_ref (paired_of_mem_contents hs hp hv) hq
  · cases p with
    | list r | object r => cases hq
    | scope r =>
      obtain ⟨parent, hparent, rfl⟩ := Option.map_eq_some_iff.1 hq
      have hrel := (hs.scopes ⟨rfl, hp⟩).contents.parent
      rw [show (h.scope r).parent = some parent from hparent] at hrel
      cases hrel with
      | some hrel => exact hrel.2

/-- What is reached from within the horizon is within it. -/
theorem within_of_reaches (hs : Matches (H.pairing s) h h) {values : Set Value}
    (hvalues : ∀ v ∈ values, v.Paired (H.pairing s) v) (hp : h.Reaches values p) : H.Within s p := by
  obtain ⟨v, hv, q, hq, hqp⟩ := hp
  induction hqp with
  | refl => exact within_of_ref (hvalues v hv) hq
  | tail _ hstep ih => exact within_of_holds hs ih hstep

/-- A heap is confined within a horizon that holds what it refers to. -/
theorem matches_of_sound (hs : h.Sound)
    (hclosed : ∀ p q, H.Within h.sizes p → h.Holds p q → H.Within h.sizes q) :
    Matches (H.pairing h.sizes) h h := by
  have hcontents : ∀ p, H.Within h.sizes p → ∀ v ∈ h.contents p, v.Paired (H.pairing h.sizes) v :=
    fun p hp v hv => paired_self_iff.2 ⟨fun q hq => hclosed p q hp (.inl ⟨v, hv, hq⟩),
      (hs.contents p hp.exists_ v hv).identity⟩
  refine ⟨?_, ?_, ?_, ?_⟩
  · rintro r _ ⟨rfl, hr⟩
    exact ⟨hr.exists_, hr.exists_, listPaired_self_iff.2 (hcontents _ hr)⟩
  · rintro r _ ⟨rfl, hr⟩
    exact ⟨hr.exists_, hr.exists_, fieldsPaired_self_iff.2 (hcontents _ hr)⟩
  · rintro r _ ⟨rfl, hr⟩
    refine ⟨hr.exists_, hr.exists_, ⟨fieldsPaired_self_iff.2 (hcontents _ hr), rfl, fun _ _ => trivial,
      ?_⟩, fun p => hs.older r p hr.exists_, fun p => hs.older r p hr.exists_⟩
    cases hparent : (h.scope r).parent with
    | none => exact .none
    | some p => exact .some ⟨rfl, hclosed _ _ hr (.inr (congrArg (Option.map Ref.scope) hparent))⟩
  · rintro i _ ⟨rfl, hi⟩
    exact ⟨hi, hi⟩

theorem within_all_iff : all.Within s p ↔ p.index < s.of p :=
  ⟨Within.exists_, fun hp => ⟨.inl trivial, hp⟩⟩

theorem paired_all_iff : v.Paired (all.pairing h.sizes) v ↔ h.Has v := by
  simp only [paired_self_iff, within_all_iff]
  exact ⟨fun hv => ⟨hv.1, hv.2⟩, fun hv => ⟨hv.ref, hv.identity⟩⟩

/-- A heap is sound if it is confined by nothing. -/
theorem matches_all_iff : Matches (all.pairing h.sizes) h h ↔ h.Sound := by
  constructor
  · intro hs
    refine ⟨fun p hp v hv => ?_, fun r p hr => ?_⟩
    · exact paired_all_iff.1 (paired_of_mem_contents hs (within_all_iff.2 hp) hv)
    · exact (hs.scopes ⟨rfl, within_all_iff.2 hr⟩).leftOlder p
  · intro hs
    exact matches_of_sound hs fun p q hp hpq =>
      within_all_iff.2 (hs.exists_of_holds hp.exists_ hpq)

theorem within_of_iff {values : Set Value} :
    (of h values).Within h.sizes p ↔ h.Reaches values p ∧ p.index < h.sizes.of p :=
  ⟨fun hp => ⟨hp.known.resolve_right (not_le.2 hp.exists_), hp.exists_⟩,
    fun hp => ⟨.inl hp.1, hp.2⟩⟩

theorem paired_of_mem {values : Set Value} (hv : v ∈ values) (hhas : h.Has v) :
    v.Paired ((of h values).pairing h.sizes) v :=
  paired_self_iff.2 ⟨fun p hp => within_of_iff.2 ⟨⟨v, hv, p, hp, .refl⟩, hhas.ref p hp⟩, hhas.identity⟩

/-- A sound heap is confined to what some values reach. -/
theorem matches_of (hs : h.Sound) (values : Set Value) :
    Matches ((of h values).pairing h.sizes) h h := by
  refine matches_of_sound hs fun p q hp hpq => ?_
  obtain ⟨⟨v, hv, r, hr, hrp⟩, hexists⟩ := within_of_iff.1 hp
  exact within_of_iff.2 ⟨⟨v, hv, r, hr, hrp.tail hpq⟩, hs.exists_of_holds hexists hpq⟩

/-! ## Scopes out of reach -/

/-- To empty a scope is not seen from where it is out of reach. -/
theorem matches_clearScope {h' : Heap} {r : ScopeRef} (hm : Matches (H.pairing s) h' h)
    (hr : ¬ H.Within s (.scope r)) : Matches (H.pairing s) (h'.clearScope r) h where
  lists hrt := ⟨(hm.lists hrt).left, (hm.lists hrt).right, (hm.lists hrt).items⟩
  objects hrt := ⟨(hm.objects hrt).left, (hm.objects hrt).right, (hm.objects hrt).fields⟩
  identities hij := hm.identities hij
  scopes {q t} hqt := by
    obtain ⟨left, right, hcontents, hq, ht⟩ := hm.scopes hqt
    have hne : r ≠ q := fun hrq => hr (hrq ▸ hqt.2)
    have hsame : (h'.clearScope r).scope q = h'.scope q := by
      by_cases hexists : r.index < h'.scopes.size
      · rw [Heap.clearScope, Heap.scope_modifyScope hexists, if_neg hne]
      · rw [Heap.clearScope_of_le (not_lt.1 hexists)]
    exact ⟨left.trans_eq (congrArg Sizes.scopes (Heap.sizes_clearScope h' r)).symm, right,
      by rwa [hsame], by rwa [hsame], ht⟩

theorem matches_clearScopes {h' : Heap} {rs : List ScopeRef} (hm : Matches (H.pairing s) h' h)
    (hrs : ∀ r ∈ rs, ¬ H.Within s (.scope r)) :
    Matches (H.pairing s) (rs.foldl Heap.clearScope h') h := by
  induction rs generalizing h' with
  | nil => exact hm
  | cons r rs ih =>
    exact ih (matches_clearScope hm (hrs r List.mem_cons_self)) fun t ht =>
      hrs t (List.mem_cons_of_mem _ ht)

/-- Names are found as before from scopes within reach of some values if scopes are emptied that are
not. -/
theorem lookup_clearScopes (hs : h.Sound) {values : Set Value} (hvalues : ∀ v ∈ values, h.Has v)
    {rs : List ScopeRef} (hrs : ∀ r ∈ rs, ¬ h.Reaches values (.scope r)) {q : ScopeRef}
    (hq : h.Reaches values (.scope q)) (name : String) :
    (rs.foldl Heap.clearScope h).lookup q name = h.lookup q name := by
  have hm := matches_of hs values
  have hwithin : (of h values).Within h.sizes (.scope q) :=
    within_of_reaches hm (fun v hv => paired_of_mem hv (hvalues v hv)) hq
  have hlookup := (matches_clearScopes hm fun r hr hw => hrs r hr (within_of_iff.1 hw).1).lookup
    ⟨rfl, hwithin⟩ name
  generalize (rs.foldl Heap.clearScope h).lookup q name = a at hlookup ⊢
  generalize h.lookup q name = b at hlookup ⊢
  cases hlookup with
  | none => rfl
  | some hv => rw [eq_of_paired hv]

/-! ## Heaps that grow -/

theorem pairing_eq {K : Pairing} (hlist : ∀ r t, (H.pairing s).list r t ↔ K.list r t)
    (hobject : ∀ r t, (H.pairing s).object r t ↔ K.object r t)
    (hscope : ∀ r t, (H.pairing s).scope r t ↔ K.scope r t)
    (hidentity : ∀ i j, (H.pairing s).identity i j ↔ K.identity i j) (hpath : ∀ p, K.path p) :
    H.pairing s = K := by
  obtain ⟨list, object, scope, identity, path⟩ := K
  simp only [pairing, Pairing.mk.injEq]
  exact ⟨funext₂ fun r t => propext (hlist r t), funext₂ fun r t => propext (hobject r t),
    funext₂ fun r t => propext (hscope r t), funext₂ fun i j => propext (hidentity i j),
    funext fun p => propext ⟨fun _ => hpath p, fun _ => trivial⟩⟩

theorem within_congr (hst : s.of p = t.of p) : H.Within s p ↔ H.Within t p :=
  ⟨fun hp => ⟨hp.known, hst ▸ hp.exists_⟩, fun hp => ⟨hp.known, hst ▸ hp.exists_⟩⟩

/-- One more thing of a kind is within the horizon. -/
theorem within_succ_iff (hstart : H.start.of p ≤ s.of p) (hst : t.of p = s.of p + 1) :
    H.Within t p ↔ H.Within s p ∨ p.index = s.of p := by
  constructor
  · rintro ⟨hknown, hlt⟩
    by_cases hp : p.index = s.of p
    · exact .inr hp
    · exact .inl ⟨hknown, by omega⟩
  · rintro (⟨hknown, hlt⟩ | hp)
    · exact ⟨hknown, by omega⟩
    · exact ⟨.inr (hp ▸ hstart), by omega⟩

theorem withPair_diagonal {α : Type} {P Q : α → Prop} {a : α} (hQ : ∀ x, Q x ↔ P x ∨ x = a)
    (x y : α) : (x = y ∧ Q x) ↔ withPair (fun x y => x = y ∧ P x) a a x y := by
  rw [hQ]
  constructor
  · rintro ⟨rfl, h | rfl⟩
    · exact .inl ⟨rfl, h⟩
    · exact .inr ⟨rfl, rfl⟩
  · rintro (⟨rfl, h⟩ | ⟨rfl, rfl⟩)
    · exact ⟨rfl, .inl h⟩
    · exact ⟨rfl, .inr rfl⟩

theorem pairing_newList (hstart : H.start ≤ h.sizes) (items : Array Value) :
    H.pairing (h.newList items).2.sizes =
      { H.pairing h.sizes with
        list := withPair (H.pairing h.sizes).list (h.newList items).1 (h.newList items).1 } := by
  refine pairing_eq (withPair_diagonal fun r => ?_) (fun r t => and_congr_right' (within_congr rfl))
    (fun r t => and_congr_right' (within_congr rfl)) (fun i j => .rfl) fun _ => trivial
  rw [within_succ_iff (Sizes.of_mono hstart (.list r)) (by simp [Sizes.of, Heap.sizes, Heap.newList])]
  exact or_congr_right ⟨fun hr => congrArg ListRef.mk hr, fun hr => congrArg ListRef.index hr⟩

theorem pairing_newObject (hstart : H.start ≤ h.sizes) (fields : Fields) :
    H.pairing (h.newObject fields).2.sizes =
      { H.pairing h.sizes with
        object :=
          withPair (H.pairing h.sizes).object (h.newObject fields).1 (h.newObject fields).1 } := by
  refine pairing_eq (fun r t => and_congr_right' (within_congr rfl)) (withPair_diagonal fun r => ?_)
    (fun r t => and_congr_right' (within_congr rfl)) (fun i j => .rfl) fun _ => trivial
  rw [within_succ_iff (Sizes.of_mono hstart (.object r)) (by simp [Sizes.of, Heap.sizes, Heap.newObject])]
  exact or_congr_right ⟨fun hr => congrArg ObjectRef.mk hr, fun hr => congrArg ObjectRef.index hr⟩

theorem pairing_newScope (hstart : H.start ≤ h.sizes) (parent : Option ScopeRef) :
    H.pairing (h.newScope parent).2.sizes =
      { H.pairing h.sizes with
        scope :=
          withPair (H.pairing h.sizes).scope (h.newScope parent).1 (h.newScope parent).1 } := by
  refine pairing_eq (fun r t => and_congr_right' (within_congr rfl))
    (fun r t => and_congr_right' (within_congr rfl)) (withPair_diagonal fun r => ?_)
    (fun i j => .rfl) fun _ => trivial
  rw [within_succ_iff (Sizes.of_mono hstart (.scope r)) (by simp [Sizes.of, Heap.sizes, Heap.newScope])]
  exact or_congr_right ⟨fun hr => congrArg ScopeRef.mk hr, fun hr => congrArg ScopeRef.index hr⟩

theorem pairing_freshIdentity (H : Horizon) (h : Heap) :
    H.pairing h.freshIdentity.2.sizes =
      { H.pairing h.sizes with
        identity :=
          withPair (H.pairing h.sizes).identity h.freshIdentity.1 h.freshIdentity.1 } := by
  refine pairing_eq (fun r t => and_congr_right' (within_congr rfl))
    (fun r t => and_congr_right' (within_congr rfl)) (fun r t => and_congr_right' (within_congr rfl))
    (withPair_diagonal fun i => ?_) fun _ => trivial
  obtain ⟨n⟩ := i
  simp only [Heap.sizes, Heap.freshIdentity, Identity.mk.injEq]
  omega

end Horizon

/-! ## The likeness -/

namespace Likeness

open Heap (Sizes)

variable {σ : Type}

/-- A machine and itself, which knows of nothing outside of a horizon. What else is known of the world
and the host depends only on how much there is on the heap. -/
def confined (H : Horizon) (known : Sizes → World × σ → Prop)
    (mono : ∀ {s t e}, s ≤ t → known s e → known t e) : Likeness σ σ where
  Stage := Sizes
  pairing := H.pairing
  pairing_mono := H.pairing_mono
  blank _ := trivial
  alike s h₁ h₂ e₁ e₂ := h₁ = h₂ ∧ e₁ = e₂ ∧ H.Confines s h₁ ∧ known s e₁
  lookup := by
    rintro s h _ e _ r t ⟨rfl, rfl, hc, -⟩ hrt name
    exact hc.sound.lookup hrt name
  define := by
    rintro s h _ e _ r t v w ⟨rfl, rfl, hc, hk⟩ hrt hv name
    obtain rfl := hrt.1
    obtain rfl := Horizon.eq_of_paired hv
    exact ⟨rfl, rfl, ⟨by simp [Heap.define, hc.sizes], hc.later,
      hc.sound.define (Horizon.biUnique_diagonal _) hrt hv name⟩, hk⟩
  hoist := by
    rintro s h _ e _ r t p ⟨rfl, rfl, hc, hk⟩ hrt hp name function
    obtain rfl := hrt.1
    exact ⟨rfl, rfl, ⟨by simp [Heap.hoist, hc.sizes], hc.later,
      hc.sound.hoist (Horizon.biUnique_diagonal _) hrt hp name function⟩, hk⟩
  assign := by
    rintro s h _ e _ r t v w ⟨rfl, rfl, hc, hk⟩ hrt hv name
    obtain rfl := hrt.1
    obtain rfl := Horizon.eq_of_paired hv
    have hassign := hc.sound.assign (Horizon.biUnique_diagonal _) hrt hv name
    cases ha : h.assign r name v with
    | none => exact .none
    | some h' =>
      rw [ha] at hassign
      cases hassign with
      | some hm => exact .some ⟨rfl, rfl, ⟨(Heap.sizes_assign ha).trans hc.sizes, hc.later, hm⟩, hk⟩
  newScope := by
    rintro s h _ e _ p q ⟨rfl, rfl, hc, hk⟩ hpq
    obtain ⟨rfl, hlater, hsound⟩ := hc
    obtain rfl : p = q := by
      cases hpq with
      | none => rfl
      | some hpq => rw [hpq.1]
    have hle := (Heap.extends_newScope h p).sizes_le
    have hpairing := Horizon.pairing_newScope hlater p
    refine ⟨_, hle, ?_, rfl, rfl, ⟨rfl, hlater.trans hle, ?_⟩, mono hle hk⟩
    · rw [hpairing]
      exact .inr ⟨rfl, rfl⟩
    · rw [hpairing]
      exact hsound.newScope hpq
  newObject := by
    rintro s h _ e _ fs gs ⟨rfl, rfl, hc, hk⟩ hfg
    obtain ⟨rfl, hlater, hsound⟩ := hc
    obtain rfl := Horizon.eq_of_fieldsPaired hfg
    have hle := (Heap.extends_newObject h fs).sizes_le
    have hpairing := Horizon.pairing_newObject hlater fs
    refine ⟨_, hle, ?_, rfl, rfl, ⟨rfl, hlater.trans hle, ?_⟩, mono hle hk⟩
    · rw [hpairing]
      exact .inr ⟨rfl, rfl⟩
    · rw [hpairing]
      exact hsound.newObject hfg
  newList := by
    rintro s h _ e _ vs ws ⟨rfl, rfl, hc, hk⟩ hvw
    obtain ⟨rfl, hlater, hsound⟩ := hc
    obtain rfl := Horizon.eq_of_listPaired hvw
    have hle := (Heap.extends_newList h vs.toArray).sizes_le
    have hpairing := Horizon.pairing_newList hlater vs.toArray
    refine ⟨_, hle, ?_, rfl, rfl, ⟨rfl, hlater.trans hle, ?_⟩, mono hle hk⟩
    · rw [hpairing]
      exact .inr ⟨rfl, rfl⟩
    · rw [hpairing]
      exact hsound.newList hvw
  freshIdentity := by
    rintro s h _ e _ ⟨rfl, rfl, hc, hk⟩
    obtain ⟨rfl, hlater, hsound⟩ := hc
    have hle := (Heap.extends_freshIdentity h).sizes_le
    have hpairing := H.pairing_freshIdentity h
    refine ⟨_, hle, ?_, rfl, rfl, ⟨rfl, hlater.trans hle, ?_⟩, mono hle hk⟩
    · rw [hpairing]
      exact .inr ⟨rfl, rfl⟩
    · rw [hpairing]
      exact hsound.freshIdentity
  fields := by
    rintro s h _ e _ r t ⟨rfl, rfl, hc, -⟩ hrt
    exact (hc.sound.objects hrt).fields
  setField := by
    rintro s h _ e _ r t v w ⟨rfl, rfl, hc, hk⟩ hrt hv key
    obtain rfl := hrt.1
    obtain rfl := Horizon.eq_of_paired hv
    exact ⟨rfl, rfl, ⟨by simp [hc.sizes], hc.later,
      hc.sound.setField (Horizon.biUnique_diagonal _) hrt hv key⟩, hk⟩
  items := by
    rintro s h _ e _ r t ⟨rfl, rfl, hc, -⟩ hrt
    exact (hc.sound.lists hrt).items
  setItem := by
    rintro s h _ e _ r t v w ⟨rfl, rfl, hc, hk⟩ hrt hv n
    obtain rfl := hrt.1
    obtain rfl := Horizon.eq_of_paired hv
    have hset := hc.sound.setItem (Horizon.biUnique_diagonal _) hrt hv n
    cases hs : h.setItem? r n v with
    | none => exact .none
    | some h' =>
      rw [hs] at hset
      cases hset with
      | some hm => exact .some ⟨rfl, rfl, ⟨(Heap.sizes_setItem hs).trans hc.sizes, hc.later, hm⟩, hk⟩
  strictEq := by
    rintro s h₁ h₂ e₁ e₂ v w v' w' - hv hv'
    rw [Horizon.eq_of_paired hv, Horizon.eq_of_paired hv']

end Likeness

end Hotload
