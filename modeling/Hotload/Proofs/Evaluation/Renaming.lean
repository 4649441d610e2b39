import Mathlib
import Hotload.Proofs.Evaluation.Likeness
import Hotload.Proofs.Heap

/-!
# Runs on heaps of their own

The likeness of two machines whose heaps hold the same under other references: references stand for
each other one to one, and what they refer to corresponds. What else a heap holds is out of reach of
the programs and stays as it is.

* `Renaming`: which references stand for each other, one to one.
* `Heap.Matches`: what they refer to corresponds.
* `Surroundings`: what is outside of the programs, and of the first heap out of their reach.
* `Likeness.renamed`: the likeness.
-/

namespace Hotload

open Syntax (Function)

/-! ## Pairs one to one -/

/-- Pairs of two kinds that have nothing in common. -/
theorem biUnique_or {α β : Type} {R S : α → β → Prop} (hR : Relator.BiUnique R)
    (hS : Relator.BiUnique S) (hleft : ∀ a b c, R a b → ¬ S a c) (hright : ∀ a b c, R a c → ¬ S b c) :
    Relator.BiUnique fun a b => R a b ∨ S a b := by
  constructor
  · rintro a b c (ha | ha) (hb | hb)
    · exact hR.1 ha hb
    · exact absurd hb (hright a b c ha)
    · exact absurd ha (hright b a c hb)
    · exact hS.1 ha hb
  · rintro a b c (hb | hb) (hc | hc)
    · exact hR.2 hb hc
    · exact absurd hc (hleft a b c hb)
    · exact absurd hb (hleft a c b hc)
    · exact hS.2 hb hc

/-- One more pair. -/
def withPair {α β : Type} (R : α → β → Prop) (a : α) (b : β) : α → β → Prop :=
  fun x y => R x y ∨ x = a ∧ y = b

theorem biUnique_withPair {α β : Type} {R : α → β → Prop} {a : α} {b : β} (h : Relator.BiUnique R)
    (ha : ∀ y, ¬ R a y) (hb : ∀ x, ¬ R x b) : Relator.BiUnique (withPair R a b) :=
  biUnique_or h ⟨fun _ _ _ h h' => h.1.trans h'.1.symm, fun _ _ _ h h' => h.2.trans h'.2.symm⟩
    (fun _ y _ hxy h => ha y (h.1 ▸ hxy)) fun x _ _ hxy h => hb x (h.2 ▸ hxy)

/-- References that stand for each other one to one. -/
structure Renaming where
  pairing : Pairing
  lists : Relator.BiUnique pairing.list
  objects : Relator.BiUnique pairing.object
  scopes : Relator.BiUnique pairing.scope
  identities : Relator.BiUnique pairing.identity
  blank : pairing.path ⟨""⟩

namespace Renaming

instance : Preorder Renaming := Preorder.lift Renaming.pairing

/-- Nothing stands for anything, and no module's code may run. -/
def none : Renaming where
  pairing := ⟨fun _ _ => False, fun _ _ => False, fun _ _ => False, fun _ _ => False, (· = ⟨""⟩)⟩
  lists := ⟨nofun, nofun⟩
  objects := ⟨nofun, nofun⟩
  scopes := ⟨nofun, nofun⟩
  identities := ⟨nofun, nofun⟩
  blank := rfl

variable (i : Renaming)

/-- One more pair of lists. -/
def withList {r s : ListRef} (hr : ∀ y, ¬ i.pairing.list r y) (hs : ∀ x, ¬ i.pairing.list x s) :
    Renaming :=
  { i with
    pairing := { i.pairing with list := withPair i.pairing.list r s }
    lists := biUnique_withPair i.lists hr hs }

/-- One more pair of objects. -/
def withObject {r s : ObjectRef} (hr : ∀ y, ¬ i.pairing.object r y)
    (hs : ∀ x, ¬ i.pairing.object x s) : Renaming :=
  { i with
    pairing := { i.pairing with object := withPair i.pairing.object r s }
    objects := biUnique_withPair i.objects hr hs }

/-- One more pair of scopes. -/
def withScope {r s : ScopeRef} (hr : ∀ y, ¬ i.pairing.scope r y)
    (hs : ∀ x, ¬ i.pairing.scope x s) : Renaming :=
  { i with
    pairing := { i.pairing with scope := withPair i.pairing.scope r s }
    scopes := biUnique_withPair i.scopes hr hs }

/-- One more pair of identities. -/
def withIdentity {a b : Identity} (ha : ∀ y, ¬ i.pairing.identity a y)
    (hb : ∀ x, ¬ i.pairing.identity x b) : Renaming :=
  { i with
    pairing := { i.pairing with identity := withPair i.pairing.identity a b }
    identities := biUnique_withPair i.identities ha hb }

/-- The code of one more module may run. -/
def withPath (p : Path) : Renaming :=
  { i with
    pairing := { i.pairing with path := fun q => i.pairing.path q ∨ q = p }
    blank := .inl i.blank }

variable {i}

theorem le_withList {r s : ListRef} (hr : ∀ y, ¬ i.pairing.list r y)
    (hs : ∀ x, ¬ i.pairing.list x s) : i ≤ i.withList hr hs :=
  ⟨fun _ _ => .inl, fun _ _ => id, fun _ _ => id, fun _ _ => id, fun _ => id⟩

theorem le_withObject {r s : ObjectRef} (hr : ∀ y, ¬ i.pairing.object r y)
    (hs : ∀ x, ¬ i.pairing.object x s) : i ≤ i.withObject hr hs :=
  ⟨fun _ _ => id, fun _ _ => .inl, fun _ _ => id, fun _ _ => id, fun _ => id⟩

theorem le_withScope {r s : ScopeRef} (hr : ∀ y, ¬ i.pairing.scope r y)
    (hs : ∀ x, ¬ i.pairing.scope x s) : i ≤ i.withScope hr hs :=
  ⟨fun _ _ => id, fun _ _ => id, fun _ _ => .inl, fun _ _ => id, fun _ => id⟩

theorem le_withIdentity {a b : Identity} (ha : ∀ y, ¬ i.pairing.identity a y)
    (hb : ∀ x, ¬ i.pairing.identity x b) : i ≤ i.withIdentity ha hb :=
  ⟨fun _ _ => id, fun _ _ => id, fun _ _ => id, fun _ _ => .inl, fun _ => id⟩

theorem le_withPath (p : Path) : i ≤ i.withPath p :=
  ⟨fun _ _ => id, fun _ _ => id, fun _ _ => id, fun _ _ => id, fun _ => .inl⟩

end Renaming

/-! ## Heaps that match -/

section

variable {K : Pairing} {v w : Value} {fs gs : Fields}

theorem Fields.Paired.set (h : Fields.Paired K fs gs) (hv : v.Paired K w) (key : String) :
    Fields.Paired K (Fields.set key v fs) (Fields.set key w gs) := by
  induction h with
  | nil => exact .cons ⟨rfl, hv⟩ .nil
  | @cons p q fs gs hp hrest ih =>
    obtain ⟨k, v'⟩ := p
    obtain ⟨l, w'⟩ := q
    obtain ⟨rfl, hv'⟩ := hp
    simp only [Fields.set]
    split
    · exact .cons ⟨rfl, hv⟩ hrest
    · split
      · exact .cons ⟨rfl, hv⟩ (.cons ⟨rfl, hv'⟩ hrest)
      · exact .cons ⟨rfl, hv'⟩ ih

theorem Fields.Paired.setPair (h : Fields.Paired K fs gs) (hv : v.Paired K w) (key : String) :
    Fields.Paired K (setPair key v fs) (setPair key w gs) := by
  induction h with
  | nil => exact .cons ⟨rfl, hv⟩ .nil
  | @cons p q fs gs hp hrest ih =>
    obtain ⟨k, v'⟩ := p
    obtain ⟨l, w'⟩ := q
    obtain ⟨rfl, hv'⟩ := hp
    simp only [Hotload.setPair]
    split
    · exact .cons ⟨rfl, hv⟩ hrest
    · exact .cons ⟨rfl, hv'⟩ ih

theorem Value.ListPaired.set {vs ws : List Value} (h : Value.ListPaired K vs ws) (hv : v.Paired K w)
    (n : Nat) : Value.ListPaired K (vs.set n v) (ws.set n w) := by
  induction h generalizing n with
  | nil => exact .nil
  | cons hv' hrest ih =>
    cases n with
    | zero => exact .cons hv hrest
    | succ n => exact .cons hv' (ih n)

end

/-- The second heap holds all that the first one does. -/
structure Heap.Extends (h h' : Heap) : Prop where
  lists : ∀ r : ListRef, r.index < h.lists.size → r.index < h'.lists.size ∧ h'.items r = h.items r
  objects : ∀ r : ObjectRef, r.index < h.objects.size →
    r.index < h'.objects.size ∧ h'.fields r = h.fields r
  scopes : ∀ r : ScopeRef, r.index < h.scopes.size →
    r.index < h'.scopes.size ∧ h'.scope r = h.scope r
  identities : h.identities ≤ h'.identities

namespace Heap

/-- The items of two lists correspond. -/
structure ListsMatch (K : Pairing) (h₁ h₂ : Heap) (r s : ListRef) : Prop where
  left : r.index < h₁.lists.size
  right : s.index < h₂.lists.size
  items : Value.ListPaired K (h₁.items r).toList (h₂.items s).toList

/-- The fields of two objects correspond. -/
structure ObjectsMatch (K : Pairing) (h₁ h₂ : Heap) (r s : ObjectRef) : Prop where
  left : r.index < h₁.objects.size
  right : s.index < h₂.objects.size
  fields : Fields.Paired K (h₁.fields r) (h₂.fields s)

/-- Two scopes hold the same names with corresponding values. -/
structure Contents (K : Pairing) (s t : Scope) : Prop where
  vars : Fields.Paired K s.vars t.vars
  fns : s.fns = t.fns
  known : ∀ f ∈ s.fns, K.path f.2.2
  parent : Option.Rel K.scope s.parent t.parent

/-- The contents of two scopes correspond, and both are younger than the scopes around them. -/
structure ScopesMatch (K : Pairing) (h₁ h₂ : Heap) (r s : ScopeRef) : Prop where
  left : r.index < h₁.scopes.size
  right : s.index < h₂.scopes.size
  contents : Contents K (h₁.scope r) (h₂.scope s)
  leftOlder : ∀ p, (h₁.scope r).parent = some p → p.index < r.index
  rightOlder : ∀ p, (h₂.scope s).parent = some p → p.index < s.index

/-- What the references of a pairing refer to corresponds. -/
structure Matches (K : Pairing) (h₁ h₂ : Heap) : Prop where
  lists : ∀ {r s}, K.list r s → ListsMatch K h₁ h₂ r s
  objects : ∀ {r s}, K.object r s → ObjectsMatch K h₁ h₂ r s
  scopes : ∀ {r s}, K.scope r s → ScopesMatch K h₁ h₂ r s
  identities : ∀ {a b}, K.identity a b → a.index < h₁.identities ∧ b.index < h₂.identities

variable {K K' : Pairing} {h h' h₁ h₂ h₁' h₂' : Heap} {v w : Value}

/-! ### Heaps that grow -/

theorem Extends.refl (h : Heap) : h.Extends h :=
  ⟨fun _ hr => ⟨hr, rfl⟩, fun _ hr => ⟨hr, rfl⟩, fun _ hr => ⟨hr, rfl⟩, le_rfl⟩

theorem getD_push_of_lt {α : Type} {xs : Array α} {x d : α} {n : Nat} (hn : n < xs.size) :
    (xs.push x).getD n d = xs.getD n d := by
  rw [Array.getD_eq_getD_getElem?, Array.getElem?_push, if_neg (by omega),
    Array.getD_eq_getD_getElem?]

theorem getD_push_size {α : Type} (xs : Array α) (x d : α) : (xs.push x).getD xs.size d = x := by
  rw [Array.getD_eq_getD_getElem?, Array.getElem?_push, if_pos rfl]
  rfl

theorem extends_newList (h : Heap) (items : Array Value) : h.Extends (h.newList items).2 where
  lists r hr := ⟨by simp only [newList, Array.size_push]; omega, getD_push_of_lt hr⟩
  objects _ hr := ⟨hr, rfl⟩
  scopes _ hr := ⟨hr, rfl⟩
  identities := le_rfl

theorem extends_newObject (h : Heap) (fields : Fields) : h.Extends (h.newObject fields).2 where
  lists _ hr := ⟨hr, rfl⟩
  objects r hr := ⟨by simp only [newObject, Array.size_push]; omega, getD_push_of_lt hr⟩
  scopes _ hr := ⟨hr, rfl⟩
  identities := le_rfl

theorem extends_newScope (h : Heap) (parent : Option ScopeRef) :
    h.Extends (h.newScope parent).2 where
  lists _ hr := ⟨hr, rfl⟩
  objects _ hr := ⟨hr, rfl⟩
  scopes r hr := ⟨by simp only [newScope, Array.size_push]; omega, getD_push_of_lt hr⟩
  identities := le_rfl

theorem extends_freshIdentity (h : Heap) : h.Extends h.freshIdentity.2 where
  lists _ hr := ⟨hr, rfl⟩
  objects _ hr := ⟨hr, rfl⟩
  scopes _ hr := ⟨hr, rfl⟩
  identities := Nat.le_succ _

theorem optionRel_mono {α β : Type} {R R' : α → β → Prop} (hR : ∀ a b, R a b → R' a b)
    {a : Option α} {b : Option β} (h : Option.Rel R a b) : Option.Rel R' a b := by
  cases h with
  | none => exact .none
  | some h => exact .some (hR _ _ h)

theorem paired_fields_mono (hK : K ≤ K') {fs gs : Fields} (h : Fields.Paired K fs gs) :
    Fields.Paired K' fs gs :=
  List.Forall₂.imp (fun _ _ h => ⟨h.1, h.2.mono hK⟩) h

theorem Contents.mono (hK : K ≤ K') {s t : Scope} (h : Contents K s t) : Contents K' s t :=
  ⟨paired_fields_mono hK h.vars, h.fns, fun f hf => hK.path (h.known f hf),
    optionRel_mono (fun _ _ h => hK.scope h) h.parent⟩

/-- Heaps that match still do when both have grown, if the new pairs match. -/
theorem Matches.grow (hm : Matches K h₁ h₂) (hK : K ≤ K') (he₁ : h₁.Extends h₁')
    (he₂ : h₂.Extends h₂')
    (lists : ∀ r s, K'.list r s → K.list r s ∨ ListsMatch K' h₁' h₂' r s)
    (objects : ∀ r s, K'.object r s → K.object r s ∨ ObjectsMatch K' h₁' h₂' r s)
    (scopes : ∀ r s, K'.scope r s → K.scope r s ∨ ScopesMatch K' h₁' h₂' r s)
    (identities : ∀ a b, K'.identity a b →
      K.identity a b ∨ a.index < h₁'.identities ∧ b.index < h₂'.identities) :
    Matches K' h₁' h₂' where
  lists {r s} hrs := by
    rcases lists r s hrs with hrs | hnew
    · obtain ⟨left, right, hitems⟩ := hm.lists hrs
      obtain ⟨left', hr⟩ := he₁.lists r left
      obtain ⟨right', hs⟩ := he₂.lists s right
      exact ⟨left', right', by rw [hr, hs]; exact hitems.mono hK⟩
    · exact hnew
  objects {r s} hrs := by
    rcases objects r s hrs with hrs | hnew
    · obtain ⟨left, right, hfields⟩ := hm.objects hrs
      obtain ⟨left', hr⟩ := he₁.objects r left
      obtain ⟨right', hs⟩ := he₂.objects s right
      exact ⟨left', right', by rw [hr, hs]; exact paired_fields_mono hK hfields⟩
    · exact hnew
  scopes {r s} hrs := by
    rcases scopes r s hrs with hrs | hnew
    · obtain ⟨left, right, hcontents, hr, hs⟩ := hm.scopes hrs
      obtain ⟨left', hr'⟩ := he₁.scopes r left
      obtain ⟨right', hs'⟩ := he₂.scopes s right
      exact ⟨left', right', by rw [hr', hs']; exact hcontents.mono hK, by rwa [hr'], by rwa [hs']⟩
    · exact hnew
  identities {a b} hab := by
    rcases identities a b hab with hab | hnew
    · obtain ⟨ha, hb⟩ := hm.identities hab
      exact ⟨ha.trans_le he₁.identities, hb.trans_le he₂.identities⟩
    · exact hnew

/-- Nothing is paired with what is not there yet. -/
theorem Matches.fresh (hm : Matches K h₁ h₂) :
    (∀ s, ¬ K.list ⟨h₁.lists.size⟩ s) ∧ (∀ r, ¬ K.list r ⟨h₂.lists.size⟩) ∧
      (∀ s, ¬ K.object ⟨h₁.objects.size⟩ s) ∧ (∀ r, ¬ K.object r ⟨h₂.objects.size⟩) ∧
      (∀ s, ¬ K.scope ⟨h₁.scopes.size⟩ s) ∧ (∀ r, ¬ K.scope r ⟨h₂.scopes.size⟩) ∧
      (∀ b, ¬ K.identity ⟨h₁.identities⟩ b) ∧ (∀ a, ¬ K.identity a ⟨h₂.identities⟩) :=
  ⟨fun _ h => lt_irrefl _ (hm.lists h).left, fun _ h => lt_irrefl _ (hm.lists h).right,
    fun _ h => lt_irrefl _ (hm.objects h).left, fun _ h => lt_irrefl _ (hm.objects h).right,
    fun _ h => lt_irrefl _ (hm.scopes h).left, fun _ h => lt_irrefl _ (hm.scopes h).right,
    fun _ h => lt_irrefl _ (hm.identities h).1, fun _ h => lt_irrefl _ (hm.identities h).2⟩

/-! ### Heaps that are changed -/

theorem getD_modify {α : Type} {xs : Array α} {f : α → α} {m : Nat} (hm : m < xs.size) (n : Nat)
    (d : α) : (xs.modify m f).getD n d = if m = n then f (xs.getD n d) else xs.getD n d := by
  rw [Array.getD_eq_getD_getElem?, Array.getElem?_modify, Array.getD_eq_getD_getElem?]
  split
  next hmn =>
    subst hmn
    rw [Array.getElem?_eq_getElem hm]
    rfl
  next => rfl

theorem scope_modifyScope {r : ScopeRef} (hr : r.index < h.scopes.size) (f : Scope → Scope)
    (q : ScopeRef) : (h.modifyScope r f).scope q = if r = q then f (h.scope q) else h.scope q := by
  rw [scope, modifyScope, getD_modify hr]
  cases r
  cases q
  simp only [ScopeRef.mk.injEq, scope]

theorem fields_setField {r : ObjectRef} (hr : r.index < h.objects.size) (key : String) (v : Value)
    (q : ObjectRef) :
    (h.setField r key v).fields q = if r = q then Fields.set key v (h.fields q) else h.fields q := by
  rw [fields, setField, getD_modify hr]
  cases r
  cases q
  simp only [ObjectRef.mk.injEq, fields]

/-- Scopes that match are changed alike; the scopes around them stay. -/
theorem Matches.modifyScope (hm : Matches K h₁ h₂) (hK : Relator.BiUnique K.scope)
    {r s : ScopeRef} (hrs : K.scope r s) {f g : Scope → Scope}
    (hf : ∀ a, (f a).parent = a.parent) (hg : ∀ a, (g a).parent = a.parent)
    (hfg : Contents K (h₁.scope r) (h₂.scope s) →
      Contents K (f (h₁.scope r)) (g (h₂.scope s))) :
    Matches K (h₁.modifyScope r f) (h₂.modifyScope s g) where
  lists hrs' := ⟨(hm.lists hrs').left, (hm.lists hrs').right, (hm.lists hrs').items⟩
  objects hrs' := ⟨(hm.objects hrs').left, (hm.objects hrs').right, (hm.objects hrs').fields⟩
  identities hab := hm.identities hab
  scopes {r' s'} hrs' := by
    obtain ⟨left, right, hcontents, hr', hs'⟩ := hm.scopes hrs'
    have hleft := scope_modifyScope (hm.scopes hrs).left f r'
    have hright := scope_modifyScope (hm.scopes hrs).right g s'
    have hiff : r = r' ↔ s = s' :=
      ⟨fun h => hK.2 (h ▸ hrs) hrs', fun h => hK.1 hrs (h ▸ hrs')⟩
    refine ⟨by simpa [Heap.modifyScope] using left, by simpa [Heap.modifyScope] using right, ?_, ?_, ?_⟩
    · rw [hleft, hright]
      by_cases h : r = r'
      · rw [if_pos h, if_pos (hiff.1 h)]
        subst h
        cases hiff.1 rfl
        exact hfg hcontents
      · rwa [if_neg h, if_neg (mt hiff.2 h)]
    · rw [hleft]
      split
      · rwa [hf]
      · exact hr'
    · rw [hright]
      split
      · rwa [hg]
      · exact hs'

/-- Objects that match are changed alike. -/
theorem Matches.setField (hm : Matches K h₁ h₂) (hK : Relator.BiUnique K.object) {r s : ObjectRef}
    (hrs : K.object r s) (hv : v.Paired K w) (key : String) :
    Matches K (h₁.setField r key v) (h₂.setField s key w) where
  lists hrs' := ⟨(hm.lists hrs').left, (hm.lists hrs').right, (hm.lists hrs').items⟩
  scopes hrs' :=
    have h := hm.scopes hrs'
    ⟨h.left, h.right, h.contents, h.leftOlder, h.rightOlder⟩
  identities hab := hm.identities hab
  objects {r' s'} hrs' := by
    obtain ⟨left, right, hfields⟩ := hm.objects hrs'
    have hiff : r = r' ↔ s = s' :=
      ⟨fun h => hK.2 (h ▸ hrs) hrs', fun h => hK.1 hrs (h ▸ hrs')⟩
    refine ⟨by simpa [Heap.setField] using left, by simpa [Heap.setField] using right, ?_⟩
    rw [fields_setField (hm.objects hrs).left, fields_setField (hm.objects hrs).right]
    by_cases h : r = r'
    · rw [if_pos h, if_pos (hiff.1 h)]
      exact hfields.set hv key
    · rwa [if_neg h, if_neg (mt hiff.2 h)]

theorem items_setItem {r : ListRef} {n : Nat} (hr : r.index < h.lists.size)
    (hset : h.setItem? r n v = some h') (q : ListRef) :
    h'.items q = if r = q then (h.items q).setIfInBounds n v else h.items q := by
  unfold setItem? at hset
  split at hset
  · cases hset
    rw [items, getD_modify hr]
    cases r
    cases q
    simp only [ListRef.mk.injEq, items]
  · cases hset

/-- Lists that match are changed alike, or not at all. -/
theorem Matches.setItem (hm : Matches K h₁ h₂) (hK : Relator.BiUnique K.list) {r s : ListRef}
    (hrs : K.list r s) (hv : v.Paired K w) (n : Nat) :
    Option.Rel (Matches K) (h₁.setItem? r n v) (h₂.setItem? s n w) := by
  have hsize : (h₁.items r).size = (h₂.items s).size := (hm.lists hrs).items.length_eq
  by_cases hn : n < (h₁.items r).size
  · have hset₁ : h₁.setItem? r n v = some _ := if_pos hn
    have hset₂ : h₂.setItem? s n w = some _ := if_pos (hsize ▸ hn)
    rw [hset₁, hset₂]
    refine .some ⟨fun {r' s'} hrs' => ?_,
      fun h => ⟨(hm.objects h).left, (hm.objects h).right, (hm.objects h).fields⟩,
      fun h =>
        have h := hm.scopes h
        ⟨h.left, h.right, h.contents, h.leftOlder, h.rightOlder⟩,
      fun h => hm.identities h⟩
    obtain ⟨left, right, hitems⟩ := hm.lists hrs'
    have hiff : r = r' ↔ s = s' :=
      ⟨fun h => hK.2 (h ▸ hrs) hrs', fun h => hK.1 hrs (h ▸ hrs')⟩
    refine ⟨by simpa using left, by simpa using right, ?_⟩
    rw [items_setItem (hm.lists hrs).left hset₁, items_setItem (hm.lists hrs).right hset₂]
    by_cases h : r = r'
    · rw [if_pos h, if_pos (hiff.1 h)]
      simpa only [Array.toList_setIfInBounds] using hitems.set hv n
    · rwa [if_neg h, if_neg (mt hiff.2 h)]
  · rw [setItem?, if_neg hn, setItem?, if_neg (hsize ▸ hn)]
    exact .none

/-! ### Variables -/

theorem isSome_eq_of_rel {α β : Type} {R : α → β → Prop} {a : Option α} {b : Option β}
    (h : Option.Rel R a b) : a.isSome = b.isSome := by
  cases h <;> rfl

/-- What two scopes hold under a name themselves. -/
theorem Matches.ownValue (hm : Matches K h₁ h₂) {r s : ScopeRef} (hrs : K.scope r s)
    (name : String) : Option.Rel (Value.Paired K) (h₁.ownValue? r name) (h₂.ownValue? s name) := by
  have hcontents := (hm.scopes hrs).contents
  have hvars := hcontents.vars.lookup name
  simp only [ownValue?]
  generalize (h₁.scope r).vars.lookup name = a at hvars ⊢
  generalize (h₂.scope s).vars.lookup name = b at hvars ⊢
  cases hvars with
  | some hv => exact .some hv
  | none =>
    simp only [← hcontents.fns]
    cases hfn : (h₁.scope r).fns.lookup name with
    | none => exact .none
    | some declared =>
      obtain ⟨before, after, hfns, -⟩ := List.lookup_eq_some_iff.1 hfn
      exact .some (.fn hrs (hcontents.known (name, declared) (by rw [hfns]; simp)))

/-- The nearest scopes that hold a name stand for each other. Parents are older than their children,
so the searches do not run out of scopes. -/
theorem Matches.holderWithin (hm : Matches K h₁ h₂) (name : String) {m n : Nat} {r s : ScopeRef}
    (hrs : K.scope r s) (hr : r.index < m) (hs : s.index < n) :
    Option.Rel K.scope (h₁.holderWithin? name m r) (h₂.holderWithin? name n s) := by
  induction m generalizing n r s with
  | zero => omega
  | succ m ih =>
    obtain ⟨n, rfl⟩ : ∃ n', n = n' + 1 := ⟨n - 1, by omega⟩
    obtain ⟨-, -, hcontents, hleft, hright⟩ := hm.scopes hrs
    simp only [holderWithin?, isSome_eq_of_rel (hm.ownValue hrs name)]
    split
    · exact .some hrs
    · have hparent := hcontents.parent
      generalize (h₁.scope r).parent = p at hparent hleft ⊢
      generalize (h₂.scope s).parent = q at hparent hright ⊢
      cases hparent with
      | none => exact .none
      | some hpq =>
        have hp := hleft _ rfl
        have hq := hright _ rfl
        exact ih hpq (by omega) (by omega)

theorem Matches.holder (hm : Matches K h₁ h₂) {r s : ScopeRef} (hrs : K.scope r s)
    (name : String) : Option.Rel K.scope (h₁.holder? r name) (h₂.holder? s name) :=
  hm.holderWithin name hrs (Nat.lt_succ_self _) (Nat.lt_succ_self _)

theorem Matches.lookup (hm : Matches K h₁ h₂) {r s : ScopeRef} (hrs : K.scope r s)
    (name : String) : Option.Rel (Value.Paired K) (h₁.lookup r name) (h₂.lookup s name) := by
  have hholder := hm.holder hrs name
  simp only [Heap.lookup]
  generalize h₁.holder? r name = p at hholder ⊢
  generalize h₂.holder? s name = q at hholder ⊢
  cases hholder with
  | none => exact .none
  | some hpq => exact hm.ownValue hpq name

theorem Contents.setVar {s t : Scope} (h : Contents K s t) (hv : v.Paired K w) (name : String) :
    Contents K { s with vars := setPair name v s.vars } { t with vars := setPair name w t.vars } :=
  ⟨h.vars.setPair hv name, h.fns, h.known, h.parent⟩

theorem Matches.define (hm : Matches K h₁ h₂) (hK : Relator.BiUnique K.scope) {r s : ScopeRef}
    (hrs : K.scope r s) (hv : v.Paired K w) (name : String) :
    Matches K (h₁.define r name v) (h₂.define s name w) :=
  hm.modifyScope hK hrs (fun _ => rfl) (fun _ => rfl) fun h => h.setVar hv name

theorem mem_setPair {α : Type} {key : String} {a : α} {p : String × α} {pairs : List (String × α)}
    (h : p ∈ setPair key a pairs) : p.2 = a ∨ p ∈ pairs := by
  induction pairs with
  | nil =>
    rw [List.mem_singleton.1 h]
    exact .inl rfl
  | cons q pairs ih =>
    simp only [Hotload.setPair] at h
    split at h
    · rcases List.mem_cons.1 h with rfl | h
      · exact .inl rfl
      · exact .inr (List.mem_cons_of_mem _ h)
    · rcases List.mem_cons.1 h with rfl | h
      · exact .inr List.mem_cons_self
      · exact (ih h).imp_right (List.mem_cons_of_mem _)

theorem Matches.hoist (hm : Matches K h₁ h₂) (hK : Relator.BiUnique K.scope) {r s : ScopeRef}
    (hrs : K.scope r s) {p : Path} (hp : K.path p) (name : String) (function : Function) :
    Matches K (h₁.hoist r name function p) (h₂.hoist s name function p) :=
  hm.modifyScope hK hrs (fun _ => rfl) (fun _ => rfl) fun h =>
    ⟨h.vars, by simp only [h.fns], fun f hf =>
      (mem_setPair hf).elim (fun hf => by rw [hf]; exact hp) (h.known f), h.parent⟩

theorem Matches.assign (hm : Matches K h₁ h₂) (hK : Relator.BiUnique K.scope) {r s : ScopeRef}
    (hrs : K.scope r s) (hv : v.Paired K w) (name : String) :
    Option.Rel (Matches K) (h₁.assign r name v) (h₂.assign s name w) := by
  have hholder := hm.holder hrs name
  simp only [assign_eq_map]
  generalize h₁.holder? r name = p at hholder ⊢
  generalize h₂.holder? s name = q at hholder ⊢
  cases hholder with
  | none => exact .none
  | some hpq =>
    refine .some (hm.modifyScope hK hpq (fun a => ?_) (fun a => ?_) fun h => ?_)
    · unfold Scope.reassign
      split <;> rfl
    · unfold Scope.reassign
      split <;> rfl
    · simp only [Scope.reassign, isSome_eq_of_rel (h.vars.lookup name)]
      split
      · exact h.setVar hv name
      · exact ⟨h.vars.setPair hv name, by simp only [h.fns],
          fun f hf => h.known f (List.mem_of_mem_filter hf), h.parent⟩

/-! ### Things that are made -/

theorem Matches.newList (hm : Matches K h₁ h₂) {vs ws : List Value}
    (h : Value.ListPaired K vs ws) :
    Matches { K with list := withPair K.list (h₁.newList vs.toArray).1 (h₂.newList ws.toArray).1 }
      (h₁.newList vs.toArray).2 (h₂.newList ws.toArray).2 := by
  have hK : K ≤ { K with list := withPair K.list (h₁.newList vs.toArray).1 (h₂.newList ws.toArray).1 } :=
    ⟨fun _ _ => .inl, fun _ _ => id, fun _ _ => id, fun _ _ => id, fun _ => id⟩
  refine hm.grow hK (extends_newList h₁ _) (extends_newList h₂ _) ?_ (fun _ _ => .inl)
    (fun _ _ => .inl) fun _ _ => .inl
  rintro r s (hrs | ⟨rfl, rfl⟩)
  · exact .inl hrs
  · refine .inr ⟨by simp [Heap.newList], by simp [Heap.newList], ?_⟩
    have hleft : (h₁.newList vs.toArray).2.items (h₁.newList vs.toArray).1 = vs.toArray :=
      getD_push_size _ _ _
    have hright : (h₂.newList ws.toArray).2.items (h₂.newList ws.toArray).1 = ws.toArray :=
      getD_push_size _ _ _
    rw [hleft, hright]
    exact h.mono hK

theorem Matches.newObject (hm : Matches K h₁ h₂) {fs gs : Fields} (h : Fields.Paired K fs gs) :
    Matches { K with object := withPair K.object (h₁.newObject fs).1 (h₂.newObject gs).1 }
      (h₁.newObject fs).2 (h₂.newObject gs).2 := by
  have hK : K ≤ { K with object := withPair K.object (h₁.newObject fs).1 (h₂.newObject gs).1 } :=
    ⟨fun _ _ => id, fun _ _ => .inl, fun _ _ => id, fun _ _ => id, fun _ => id⟩
  refine hm.grow hK (extends_newObject h₁ _) (extends_newObject h₂ _) (fun _ _ => .inl) ?_
    (fun _ _ => .inl) fun _ _ => .inl
  rintro r s (hrs | ⟨rfl, rfl⟩)
  · exact .inl hrs
  · refine .inr ⟨by simp [Heap.newObject], by simp [Heap.newObject], ?_⟩
    have hleft : (h₁.newObject fs).2.fields (h₁.newObject fs).1 = fs := getD_push_size _ _ _
    have hright : (h₂.newObject gs).2.fields (h₂.newObject gs).1 = gs := getD_push_size _ _ _
    rw [hleft, hright]
    exact paired_fields_mono hK h

theorem Matches.newScope (hm : Matches K h₁ h₂) {p q : Option ScopeRef}
    (h : Option.Rel K.scope p q) :
    Matches { K with scope := withPair K.scope (h₁.newScope p).1 (h₂.newScope q).1 }
      (h₁.newScope p).2 (h₂.newScope q).2 := by
  have hK : K ≤ { K with scope := withPair K.scope (h₁.newScope p).1 (h₂.newScope q).1 } :=
    ⟨fun _ _ => id, fun _ _ => id, fun _ _ => .inl, fun _ _ => id, fun _ => id⟩
  refine hm.grow hK (extends_newScope h₁ _) (extends_newScope h₂ _) (fun _ _ => .inl)
    (fun _ _ => .inl) ?_ fun _ _ => .inl
  rintro r s (hrs | ⟨rfl, rfl⟩)
  · exact .inl hrs
  · have hleft : (h₁.newScope p).2.scope (h₁.newScope p).1 = ⟨[], [], p⟩ := getD_push_size _ _ _
    have hright : (h₂.newScope q).2.scope (h₂.newScope q).1 = ⟨[], [], q⟩ := getD_push_size _ _ _
    refine .inr ⟨by simp [Heap.newScope], by simp [Heap.newScope], ?_, ?_, ?_⟩
    · rw [hleft, hright]
      exact ⟨.nil, rfl, nofun, optionRel_mono (fun _ _ h => hK.scope h) h⟩
    · rw [hleft]
      rintro parent rfl
      cases h with
      | some h => exact (hm.scopes h).left
    · rw [hright]
      rintro parent rfl
      cases h with
      | some h => exact (hm.scopes h).right

theorem Matches.freshIdentity (hm : Matches K h₁ h₂) :
    Matches { K with identity := withPair K.identity h₁.freshIdentity.1 h₂.freshIdentity.1 }
      h₁.freshIdentity.2 h₂.freshIdentity.2 := by
  refine hm.grow ⟨fun _ _ => id, fun _ _ => id, fun _ _ => id, fun _ _ => .inl, fun _ => id⟩
    (extends_freshIdentity h₁) (extends_freshIdentity h₂) (fun _ _ => .inl) (fun _ _ => .inl)
    (fun _ _ => .inl) ?_
  rintro a b (hab | ⟨rfl, rfl⟩)
  · exact .inl hab
  · exact .inr ⟨Nat.lt_succ_self _, Nat.lt_succ_self _⟩

/-- The code of one more module may run. -/
theorem Matches.withPath {i : Renaming} (hm : Matches i.pairing h₁ h₂) (p : Path) :
    Matches (i.withPath p).pairing h₁ h₂ :=
  hm.grow (Renaming.le_withPath p) (.refl h₁) (.refl h₂) (fun _ _ => .inl) (fun _ _ => .inl)
    (fun _ _ => .inl) fun _ _ => .inl

end Heap

/-! ## The likeness -/

/-- The second renaming has no more pairs than the first one but for what the first heap has made
since, and what was out of reach on that heap is as it was. -/
structure Renaming.Grown (i j : Renaming) (h h' : Heap) : Prop where
  le : i ≤ j
  paths : ∀ p, j.pairing.path p → i.pairing.path p
  objects : ∀ r s, j.pairing.object r s → i.pairing.object r s ∨ h.objects.size ≤ r.index
  identities : ∀ a b, j.pairing.identity a b → i.pairing.identity a b ∨ h.identities ≤ a.index
  fields : ∀ r : ObjectRef, r.index < h.objects.size → (∀ s, ¬ i.pairing.object r s) →
    r.index < h'.objects.size ∧ h'.fields r = h.fields r
  count : h.identities ≤ h'.identities

namespace Renaming

variable {i j : Renaming} {h h' : Heap}

/-- What is out of reach is as it was. -/
theorem Grown.same (hfields : ∀ r : ObjectRef, r.index < h.objects.size →
      (∀ s, ¬ i.pairing.object r s) → r.index < h'.objects.size ∧ h'.fields r = h.fields r)
    (hcount : h.identities ≤ h'.identities) : i.Grown i h h' :=
  ⟨le_rfl, fun _ => id, fun _ _ => .inl, fun _ _ => .inl, hfields, hcount⟩

theorem Grown.modifyScope (i : Renaming) (h : Heap) (r : ScopeRef) (f : Scope → Scope) :
    i.Grown i h (h.modifyScope r f) :=
  .same (fun _ hr _ => ⟨hr, rfl⟩) le_rfl

/-- The first heap only has more than before. -/
theorem Grown.of_extends (hij : i ≤ j) (he : h.Extends h')
    (hpaths : ∀ p, j.pairing.path p → i.pairing.path p)
    (hobjects : ∀ r s, j.pairing.object r s → i.pairing.object r s ∨ h.objects.size ≤ r.index)
    (hidentities : ∀ a b, j.pairing.identity a b → i.pairing.identity a b ∨ h.identities ≤ a.index) :
    i.Grown j h h' :=
  ⟨hij, hpaths, hobjects, hidentities, fun r hr _ => he.objects r hr, he.identities⟩

end Renaming

/-- What is known of the world, of the hosts, and of what the programs cannot reach on the first
heap. -/
structure Surroundings (σ₁ σ₂ : Type) where
  Hold : Renaming → Heap → World × σ₁ → World × σ₂ → Prop
  grow : ∀ {i j h h' e₁ e₂}, Hold i h e₁ e₂ → i.Grown j h h' → Hold j h' e₁ e₂

namespace Likeness

variable {σ₁ σ₂ : Type}

/-- The heaps are the same under other references. -/
def renamed (S : Surroundings σ₁ σ₂) : Likeness σ₁ σ₂ where
  Stage := Renaming
  pairing := Renaming.pairing
  pairing_mono _ _ h := h
  blank := Renaming.blank
  alike i h₁ h₂ e₁ e₂ := Heap.Matches i.pairing h₁ h₂ ∧ S.Hold i h₁ e₁ e₂
  lookup h hrs name := h.1.lookup hrs name
  define {i _ _ _ _ _ _ _ _} h hrs hv name :=
    ⟨h.1.define i.scopes hrs hv name, S.grow h.2 (.modifyScope ..)⟩
  hoist {i _ _ _ _ _ _ _} h hrs hp name function :=
    ⟨h.1.hoist i.scopes hrs hp name function, S.grow h.2 (.modifyScope ..)⟩
  assign {i h₁ h₂ e₁ e₂ r s v w} h hrs hv name := by
    have hassign := h.1.assign i.scopes hrs hv name
    have hgrown : ∀ h', h₁.assign r name v = some h' → i.Grown i h₁ h' := by
      intro h' h'eq
      obtain ⟨holder, -, rfl⟩ := Heap.exists_of_assign h'eq
      exact .modifyScope ..
    generalize h₁.assign r name v = a at hassign hgrown ⊢
    generalize h₂.assign s name w = b at hassign ⊢
    cases hassign with
    | none => exact .none
    | some hm => exact .some ⟨hm, S.grow h.2 (hgrown _ rfl)⟩
  newScope {i h₁ h₂ e₁ e₂ p q} h hpq := by
    obtain ⟨-, -, -, -, hr, hs, -⟩ := h.1.fresh
    refine ⟨i.withScope (r := (h₁.newScope p).1) (s := (h₂.newScope q).1) hr hs,
      Renaming.le_withScope hr hs, .inr ⟨rfl, rfl⟩, h.1.newScope hpq, S.grow h.2 ?_⟩
    exact .of_extends (Renaming.le_withScope hr hs) (Heap.extends_newScope h₁ p) (fun _ => id)
      (fun _ _ => .inl) fun _ _ => .inl
  newObject {i h₁ h₂ e₁ e₂ fs gs} h hfg := by
    obtain ⟨-, -, hr, hs, -⟩ := h.1.fresh
    refine ⟨i.withObject (r := (h₁.newObject fs).1) (s := (h₂.newObject gs).1) hr hs,
      Renaming.le_withObject hr hs, .inr ⟨rfl, rfl⟩, h.1.newObject hfg, S.grow h.2 ?_⟩
    refine .of_extends (Renaming.le_withObject hr hs) (Heap.extends_newObject h₁ fs) (fun _ => id)
      (fun r s hrs => hrs.imp id fun hrs => ?_) fun _ _ => .inl
    rw [hrs.1]
    exact le_rfl
  newList {i h₁ h₂ e₁ e₂ vs ws} h hvw := by
    obtain ⟨hr, hs, -⟩ := h.1.fresh
    refine ⟨i.withList (r := (h₁.newList vs.toArray).1) (s := (h₂.newList ws.toArray).1) hr hs,
      Renaming.le_withList hr hs, .inr ⟨rfl, rfl⟩, h.1.newList hvw, S.grow h.2 ?_⟩
    exact .of_extends (Renaming.le_withList hr hs) (Heap.extends_newList h₁ _) (fun _ => id)
      (fun _ _ => .inl) fun _ _ => .inl
  freshIdentity {i h₁ h₂ e₁ e₂} h := by
    obtain ⟨-, -, -, -, -, -, ha, hb⟩ := h.1.fresh
    refine ⟨i.withIdentity (a := h₁.freshIdentity.1) (b := h₂.freshIdentity.1) ha hb,
      Renaming.le_withIdentity ha hb, .inr ⟨rfl, rfl⟩, h.1.freshIdentity, S.grow h.2 ?_⟩
    refine .of_extends (Renaming.le_withIdentity ha hb) (Heap.extends_freshIdentity h₁) (fun _ => id)
      (fun _ _ => .inl) fun a b hab => hab.imp id fun hab => ?_
    rw [hab.1]
    exact le_rfl
  fields h hrs := (h.1.objects hrs).fields
  setField {i h₁ h₂ e₁ e₂ r s v w} h hrs hv key := by
    refine ⟨h.1.setField i.objects hrs hv key, S.grow h.2 (.same (fun q hq hfar => ?_) le_rfl)⟩
    have hne : ¬ r = q := fun hrq => hfar s (hrq ▸ hrs)
    rw [Heap.fields_setField (h.1.objects hrs).left, if_neg hne]
    exact ⟨by simpa [Heap.setField] using hq, rfl⟩
  items h hrs := (h.1.lists hrs).items
  setItem {i h₁ h₂ e₁ e₂ r s v w} h hrs hv n := by
    have hset := h.1.setItem i.lists hrs hv n
    have hgrown : ∀ h', h₁.setItem? r n v = some h' → i.Grown i h₁ h' := by
      intro h' h'eq
      unfold Heap.setItem? at h'eq
      split at h'eq
      · cases h'eq
        exact .same (fun _ hr _ => ⟨hr, rfl⟩) le_rfl
      · cases h'eq
    generalize h₁.setItem? r n v = a at hset hgrown ⊢
    generalize h₂.setItem? s n w = b at hset ⊢
    cases hset with
    | none => exact .none
    | some hm => exact .some ⟨hm, S.grow h.2 (hgrown _ rfl)⟩
  strictEq {i _ _ _ _ _ _ _ _} _ hv hv' := by
    have hiff : ∀ {α β : Type} {R : α → β → Prop} {a a' : α} {b b' : β}, Relator.BiUnique R →
        R a b → R a' b' → (a = a' ↔ b = b') :=
      fun hR h h' => ⟨fun heq => hR.2 (heq ▸ h) h', fun heq => hR.1 h (heq ▸ h')⟩
    cases hv with
    | nil | bool | num | str => cases hv' <;> rfl
    | list h =>
      cases hv' with
      | list h' => exact decide_eq_decide.2 (hiff i.lists h h')
      | nil | bool | num | str | object | fn | native | require => rfl
    | object h =>
      cases hv' with
      | object h' => exact decide_eq_decide.2 (hiff i.objects h h')
      | nil | bool | num | str | list | fn | native | require => rfl
    | fn h _ =>
      cases hv' with
      | fn h' _ => simp only [Value.strictEq, Closure.same, hiff i.scopes h h']
      | nil | bool | num | str | list | object | native | require => rfl
    | native f h =>
      cases hv' with
      | native g h' => exact decide_eq_decide.2 (hiff i.identities h h')
      | nil | bool | num | str | list | object | fn | require => rfl
    | require dir only h =>
      cases hv' with
      | require dir' only' h' => exact decide_eq_decide.2 (hiff i.identities h h')
      | nil | bool | num | str | list | object | fn | native => rfl

end Likeness

end Hotload
