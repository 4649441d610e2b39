import Mathlib
import Hotload.Proofs.Module.Builds

/-!
# Core modules that are kept

A core module is built once and outlives every change of a file. As long as it is as it was built, it
stands for one that is built anew on another heap.

* `Pristine`: core modules as they were built.
* `CoresMeet`: the core modules of a module system in use and of a new one.
* `CoresMeet.adopt`: a core module that was there stands for one that is built.
-/

namespace Hotload

/-! ## Building -/

/-- The functions that a core module exports; what is no core module exports none. -/
def coreNatives (name : String) : List Native := (coreFunctions name).getD []

/-- Functions under their names, with identities one after the other. -/
def nativeFields (first : Nat) : List Native → Fields
  | [] => []
  | f :: fs => (f.name, .native f ⟨first⟩) :: nativeFields (first + 1) fs

/-- The fields that a core module is built with. -/
def coreFields (name : String) (first : Nat) : Fields :=
  (nativeFields first (coreNatives name) ++ coreConstants name).foldl
    (fun fields (key, value) => Fields.set key value fields) []

namespace Heap

/-- The heap after a core module was built. -/
def withCore (h : Heap) (name : String) : Heap :=
  { h with
    objects := h.objects.push (coreFields name h.identities)
    identities := h.identities + (coreNatives name).length }

theorem extends_withCore (h : Heap) (name : String) : h.Extends (h.withCore name) where
  lists _ hr := ⟨hr, rfl⟩
  objects r hr := ⟨by simp only [withCore, Array.size_push]; omega, getD_push_of_lt hr⟩
  scopes _ hr := ⟨hr, rfl⟩
  identities := Nat.le_add_right _ _

end Heap

theorem nativeValues_eq (h : Heap) (fs : List Native) :
    nativeValues h fs =
      (nativeFields h.identities fs, { h with identities := h.identities + fs.length }) := by
  induction fs generalizing h with
  | nil => rfl
  | cons f fs ih =>
    simp only [nativeValues, ih, Heap.freshIdentity, nativeFields, List.length_cons]
    rw [Nat.add_assoc, Nat.add_comm 1]

theorem loadCoreModule_eq {name : String} (hname : isCoreModule name = true) (h : Heap) :
    loadCoreModule h name = some (.object ⟨h.objects.size⟩, h.withCore name) := by
  obtain ⟨functions, hfunctions⟩ := Option.isSome_iff_exists.1 hname
  have hnatives : coreNatives name = functions := by rw [coreNatives, hfunctions, Option.getD_some]
  simp only [loadCoreModule, hfunctions, Option.bind_eq_bind, Option.bind_some, nativeValues_eq,
    Heap.objectOf, Heap.newObject, Heap.withCore, coreFields, hnatives]
  rfl

section

variable {K : Pairing} {a b : Nat}

theorem nativeFields_paired {fs : List Native} (h : ∀ k < fs.length, K.identity ⟨a + k⟩ ⟨b + k⟩) :
    Fields.Paired K (nativeFields a fs) (nativeFields b fs) := by
  induction fs generalizing a b with
  | nil => exact .nil
  | cons f fs ih =>
    refine .cons ⟨rfl, .native f (h 0 (Nat.succ_pos _))⟩ (ih fun k hk => ?_)
    rw [Nat.add_assoc, Nat.add_assoc, Nat.add_comm 1]
    exact h (k + 1) (Nat.succ_lt_succ hk)

theorem coreFields_paired {name : String}
    (h : ∀ k < (coreNatives name).length, K.identity ⟨a + k⟩ ⟨b + k⟩) :
    Fields.Paired K (coreFields name a) (coreFields name b) :=
  Fields.Paired.setAll .nil
    (List.rel_append (nativeFields_paired h) (Likeness.coreConstants_paired K name))

end

/-! ## Places -/

/-- Where a core module was built: its exports object, and the first identity of its functions. -/
structure CorePlace where
  exports : ObjectRef
  first : Nat

/-- A core module has the fields that it was built with. -/
structure AsBuilt (h : Heap) (name : String) (value : Value) (place : CorePlace) : Prop where
  isCore : isCoreModule name = true
  value : value = .object place.exports
  exports : place.exports.index < h.objects.size
  fields : h.fields place.exports = coreFields name place.first
  identities : place.first + (coreNatives name).length ≤ h.identities

/-- Two core modules share neither their objects nor their functions. -/
structure Apart (name other : String) (place there : CorePlace) : Prop where
  exports : place.exports ≠ there.exports
  identities : ∀ k < (coreNatives name).length, ∀ l < (coreNatives other).length,
    place.first + k ≠ there.first + l

/-- Core modules are as they were built, each at a place of its own. -/
structure PristineAt (h : Heap) (find? : String → Option Value) (place : String → CorePlace) :
    Prop where
  built : ∀ name v, find? name = some v → AsBuilt h name v (place name)
  apart : ∀ name other v w, find? name = some v → find? other = some w → other ≠ name →
    Apart name other (place name) (place other)

/-- Core modules are as they were built. -/
def Pristine (h : Heap) (find? : String → Option Value) : Prop := ∃ place, PristineAt h find? place

theorem pristine_nil (h : Heap) : Pristine h (([] : List (String × Value)).lookup ·) :=
  ⟨fun _ => ⟨⟨0⟩, 0⟩, nofun, nofun⟩

/-- Nothing stands for a core module yet, and nothing for its functions. -/
structure Renaming.Free (i : Renaming) (name : String) (place : CorePlace) : Prop where
  exports : ∀ s, ¬ i.pairing.object place.exports s
  identities : ∀ k < (coreNatives name).length, ∀ b, ¬ i.pairing.identity ⟨place.first + k⟩ b

theorem Renaming.Free.of_none (name : String) (place : CorePlace) : Renaming.none.Free name place :=
  ⟨fun _ => id, fun _ _ _ => id⟩

/-! ## A core module that stands for a new one -/

/-- Identities one after the other stand for each other. -/
def inStep (count a b : Nat) (x y : Identity) : Prop := ∃ k < count, x = ⟨a + k⟩ ∧ y = ⟨b + k⟩

theorem biUnique_inStep (count a b : Nat) : Relator.BiUnique (inStep count a b) := by
  constructor
  · rintro x y z ⟨k, -, rfl, rfl⟩ ⟨l, -, rfl, hl⟩
    cases Nat.add_left_cancel (congrArg Identity.index hl)
    rfl
  · rintro x y z ⟨k, -, rfl, rfl⟩ ⟨l, -, hl, rfl⟩
    cases Nat.add_left_cancel (congrArg Identity.index hl)
    rfl

section

variable {i : Renaming} {h₁ h₂ : Heap} {name : String} {place : CorePlace} {value : Value}

/-- The core module at a place stands for the one that is built next. -/
def Renaming.withCore (i : Renaming) (hm : Heap.Matches i.pairing h₁ h₂)
    (hfree : i.Free name place) : Renaming where
  pairing :=
    { i.pairing with
      object := withPair i.pairing.object place.exports ⟨h₂.objects.size⟩
      identity := fun x y => i.pairing.identity x y ∨
        inStep (coreNatives name).length place.first h₂.identities x y }
  lists := i.lists
  objects := biUnique_withPair i.objects hfree.exports hm.fresh.2.2.2.1
  scopes := i.scopes
  identities := by
    refine biUnique_or i.identities (biUnique_inStep ..) ?_ ?_
    · rintro x y z hxy ⟨k, hk, rfl, -⟩
      exact hfree.identities k hk y hxy
    · rintro x y z hxz ⟨k, -, -, rfl⟩
      have hlt := (hm.identities hxz).2
      dsimp only at hlt
      omega
  blank := i.blank

theorem Renaming.le_withCore (hm : Heap.Matches i.pairing h₁ h₂) (hfree : i.Free name place) :
    i ≤ i.withCore hm hfree :=
  ⟨fun _ _ => id, fun _ _ => .inl, fun _ _ => id, fun _ _ => .inl, fun _ => id⟩

/-- The heaps match with the core module that was there and the one that is built. -/
theorem Heap.Matches.withCore (hm : Heap.Matches i.pairing h₁ h₂)
    (hbuilt : AsBuilt h₁ name value place) (hfree : i.Free name place) :
    Heap.Matches (i.withCore hm hfree).pairing h₁ (h₂.withCore name) := by
  refine hm.grow (Renaming.le_withCore hm hfree) (.refl h₁) (Heap.extends_withCore h₂ name)
    (fun _ _ => .inl) ?_ (fun _ _ => .inl) ?_
  · rintro r s (hrs | ⟨rfl, rfl⟩)
    · exact .inl hrs
    · refine .inr ⟨hbuilt.exports, by simp [Heap.withCore], ?_⟩
      have hnew : (h₂.withCore name).fields ⟨h₂.objects.size⟩ = coreFields name h₂.identities :=
        Heap.getD_push_size _ _ _
      rw [hbuilt.fields, hnew]
      exact coreFields_paired fun k hk => .inr ⟨k, hk, rfl, rfl⟩
  · rintro a b (hab | ⟨k, hk, rfl, rfl⟩)
    · exact .inl hab
    · have hold := hbuilt.identities
      exact .inr ⟨by dsimp only; omega, Nat.add_lt_add_left hk _⟩

/-- Core modules at other places are still free. -/
theorem Renaming.Free.withCore {other : String} {there : CorePlace}
    (hm : Heap.Matches i.pairing h₁ h₂) (hfree : i.Free name place) (hother : i.Free other there)
    (hapart : Apart name other place there) : (i.withCore hm hfree).Free other there where
  exports := by
    rintro s (hs | ⟨hs, -⟩)
    · exact hother.exports s hs
    · exact hapart.exports hs.symm
  identities := by
    rintro l hl b (hb | ⟨k, hk, hb, -⟩)
    · exact hother.identities l hl b hb
    · exact hapart.identities k hk l hl (congrArg Identity.index hb).symm

end

/-! ## Two module systems -/

/-- The core module that one module system has and the other one has not asked for. -/
def waiting (core₁ core₂ : List (String × Value)) (name : String) : Option Value :=
  match core₂.lookup name with
  | some _ => none
  | none => core₁.lookup name

/-- The core modules of a module system in use stand for those of a new one, and the others are as
they were built. -/
structure CoresMeet (i : Renaming) (h : Heap) (core₁ core₂ : List (String × Value)) : Prop where
  shared : ∀ name w, core₂.lookup name = some w →
    ∃ v, core₁.lookup name = some v ∧ v.Paired i.pairing w
  kept : ∃ place, PristineAt h (waiting core₁ core₂) place ∧
    ∀ name v, waiting core₁ core₂ name = some v → i.Free name (place name)

section

variable {core₁ core₁' core₂ : List (String × Value)} {name other : String} {v w : Value}

/-- What waits once the second module system has a core module, too. -/
theorem waiting_cons (hsame : ∀ other, other ≠ name → core₁'.lookup other = core₁.lookup other)
    (h : waiting core₁' ((name, w) :: core₂) other = some v) :
    other ≠ name ∧ waiting core₁ core₂ other = some v := by
  by_cases hother : other = name
  · simp [waiting, hother] at h
  · refine ⟨hother, ?_⟩
    rw [waiting, List.lookup_cons, beq_false_of_ne hother] at h
    rw [waiting, ← hsame other hother]
    exact h

end

namespace CoresMeet

variable {i j : Renaming} {h h' h₁ h₂ : Heap} {core core₁ core₁' core₂ : List (String × Value)}
  {name : String} {v w : Value}

/-- A new module system has asked for no core module. -/
theorem start (hcore : Pristine h (core.lookup ·)) : CoresMeet .none h core [] where
  shared _ _ hw := by cases hw
  kept := by
    obtain ⟨place, hplace⟩ := hcore
    exact ⟨place, hplace, fun name _ _ => .of_none name _⟩

theorem grow (hc : CoresMeet i h core₁ core₂) (hij : i.Grown j h h') :
    CoresMeet j h' core₁ core₂ where
  shared name w hw := by
    obtain ⟨v, hv, hvw⟩ := hc.shared name w hw
    exact ⟨v, hv, hvw.mono hij.le⟩
  kept := by
    obtain ⟨place, hplace, hfree⟩ := hc.kept
    refine ⟨place, ⟨fun name v hv => ?_, hplace.apart⟩, fun name v hv => ?_⟩
    · obtain ⟨hcore, hvalue, hexports, hfields, hidentities⟩ := hplace.built name v hv
      obtain ⟨hlt, hsame⟩ := hij.fields _ hexports (hfree name v hv).exports
      exact ⟨hcore, hvalue, hlt, hsame.trans hfields, hidentities.trans hij.count⟩
    · obtain ⟨-, -, hexports, -, hidentities⟩ := hplace.built name v hv
      refine ⟨fun s hs => ?_, fun k hk b hb => ?_⟩
      · rcases hij.objects _ s hs with hs | hle
        · exact (hfree name v hv).exports s hs
        · omega
      · rcases hij.identities _ b hb with hb | hle
        · exact (hfree name v hv).identities k hk b hb
        · dsimp only at hle
          omega

theorem withPath (hc : CoresMeet i h core₁ core₂) (p : Path) :
    CoresMeet (i.withPath p) h core₁ core₂ where
  shared name w hw := by
    obtain ⟨v, hv, hvw⟩ := hc.shared name w hw
    exact ⟨v, hv, hvw.mono (Renaming.le_withPath p)⟩
  kept := by
    obtain ⟨place, hplace, hfree⟩ := hc.kept
    exact ⟨place, hplace, fun name v hv => ⟨(hfree name v hv).exports, (hfree name v hv).identities⟩⟩

/-- Both module systems have a core module, and the others wait where they did. -/
theorem cons (hc : CoresMeet i h core₁ core₂) (hij : i ≤ j) (hv : core₁'.lookup name = some v)
    (hsame : ∀ other, other ≠ name → core₁'.lookup other = core₁.lookup other)
    (hvw : v.Paired j.pairing w) {place : String → CorePlace}
    (hplace : PristineAt h (waiting core₁ core₂) place)
    (hfree : ∀ other u, other ≠ name → waiting core₁ core₂ other = some u →
      j.Free other (place other)) :
    CoresMeet j h core₁' ((name, w) :: core₂) where
  shared other w' hw' := by
    by_cases hother : other = name
    · subst hother
      rw [List.lookup_cons_self] at hw'
      cases hw'
      exact ⟨v, hv, hvw⟩
    · rw [List.lookup_cons, beq_false_of_ne hother] at hw'
      obtain ⟨u, hu, huw⟩ := hc.shared other w' hw'
      exact ⟨u, (hsame other hother).trans hu, huw.mono hij⟩
  kept := by
    refine ⟨place, ⟨fun other u hu => ?_, fun a b u t hu ht hab => ?_⟩, fun other u hu => ?_⟩
    · exact hplace.built other u (waiting_cons hsame hu).2
    · exact hplace.apart a b u t (waiting_cons hsame hu).2 (waiting_cons hsame ht).2 hab
    · obtain ⟨hne, hold⟩ := waiting_cons hsame hu
      exact hfree other u hne hold

/-- Both module systems have built a core module. -/
theorem both (hc : CoresMeet i h core₁ core₂) (hvw : v.Paired i.pairing w) (name : String) :
    CoresMeet i h ((name, v) :: core₁) ((name, w) :: core₂) := by
  obtain ⟨place, hplace, hfree⟩ := hc.kept
  refine hc.cons le_rfl List.lookup_cons_self (fun other hother => ?_) hvw hplace
    fun other u _ hu => hfree other u hu
  rw [List.lookup_cons, beq_false_of_ne hother]

/-- The new module system builds a core module that the other one has had all along. -/
theorem adopt (hc : CoresMeet i h₁ core₁ core₂) (hm : Heap.Matches i.pairing h₁ h₂)
    (hv : core₁.lookup name = some v) (hnone : core₂.lookup name = none) :
    isCoreModule name = true ∧ ∃ j, i ≤ j ∧ (∀ p, j.pairing.path p → i.pairing.path p) ∧
      v.Paired j.pairing (.object ⟨h₂.objects.size⟩) ∧
      Heap.Matches j.pairing h₁ (h₂.withCore name) ∧
      CoresMeet j h₁ core₁ ((name, .object ⟨h₂.objects.size⟩) :: core₂) := by
  obtain ⟨place, hplace, hfree⟩ := hc.kept
  have hwaits : waiting core₁ core₂ name = some v := by simp only [waiting, hnone, hv]
  have hbuilt := hplace.built name v hwaits
  have hname := hfree name v hwaits
  have hle := Renaming.le_withCore hm hname
  have hpaired : v.Paired (i.withCore hm hname).pairing (.object ⟨h₂.objects.size⟩) := by
    rw [hbuilt.value]
    exact .object (.inr ⟨rfl, rfl⟩)
  refine ⟨hbuilt.isCore, i.withCore hm hname, hle, fun _ => id, hpaired, hm.withCore hbuilt hname,
    hc.cons hle hv (fun _ _ => rfl) hpaired hplace fun other u hne hu => ?_⟩
  exact .withCore hm hname (hfree other u hu) (hplace.apart name other v u hwaits hu hne)

end CoresMeet

end Hotload
