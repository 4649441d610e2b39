import Mathlib
import Hotload.Module.System
import Hotload.Proofs.Evaluation.Operations
import Hotload.Proofs.Evaluation.Renaming

/-!
# What is built on alike heaps

The values that a module system makes itself: those of data files, the exports of core modules, and
the scopes of modules. Built alike on heaps that are alike.

* `Likeness.valueOfJson`: the value of a data file.
* `Likeness.loadCoreModule`: the exports of a core module.
* `Likeness.newModuleScope`: the scope of a module.
-/

namespace Hotload

/-- Keys set one after the other. -/
theorem Fields.Paired.setAll {K : Pairing} {fs gs ps qs : Fields} (h : Fields.Paired K fs gs)
    (hp : Fields.Paired K ps qs) :
    Fields.Paired K (ps.foldl (fun fields (key, value) => Fields.set key value fields) fs)
      (qs.foldl (fun fields (key, value) => Fields.set key value fields) gs) := by
  induction hp generalizing fs gs with
  | nil => exact h
  | @cons p q ps qs hpq _ ih =>
    obtain ⟨k, v⟩ := p
    obtain ⟨l, w⟩ := q
    obtain ⟨rfl, hv⟩ := hpq
    exact ih (h.set hv k)

namespace Likeness

variable {σ₁ σ₂ : Type} {L : Likeness σ₁ σ₂} {i : L.Stage} {h₁ h₂ : Heap} {e₁ : World × σ₁}
  {e₂ : World × σ₂}

/-- Corresponding things and alike heaps at a later stage. -/
def Makes {α β : Type} (L : Likeness σ₁ σ₂) (i : L.Stage) (Q : L.Stage → α → β → Prop)
    (e₁ : World × σ₁) (e₂ : World × σ₂) (a : α × Heap) (b : β × Heap) : Prop :=
  ∃ j, i ≤ j ∧ Q j a.1 b.1 ∧ L.alike j a.2 b.2 e₁ e₂

/-- Fields with corresponding values. -/
abbrev SameFields (L : Likeness σ₁ σ₂) (i : L.Stage) : Fields → Fields → Prop :=
  Fields.Paired (L.pairing i)

theorem objectOf (ha : L.alike i h₁ h₂ e₁ e₂) {ps qs : Fields} (hp : L.SameFields i ps qs) :
    L.Makes i (fun j => (L.pairing j).object) e₁ e₂ (h₁.objectOf ps) (h₂.objectOf qs) :=
  L.newObject ha (Fields.Paired.setAll .nil hp)

/-! ## Data files -/

mutual

theorem valueOfJson : ∀ (json : Json) {i : L.Stage} {h₁ h₂ : Heap}, L.alike i h₁ h₂ e₁ e₂ →
    L.Leaves i e₁ e₂ (Hotload.valueOfJson json h₁) (Hotload.valueOfJson json h₂)
  | .null, i, _, _, ha => ⟨i, le_rfl, .nil, ha⟩
  | .bool b, i, _, _, ha => ⟨i, le_rfl, .bool b, ha⟩
  | .number n, i, _, _, ha => ⟨i, le_rfl, .num _, ha⟩
  | .string s, i, _, _, ha => ⟨i, le_rfl, .str s, ha⟩
  | .array items, i, h₁, h₂, ha => by
    obtain ⟨j, hij, hvs, ha⟩ := valuesOfJson items ha
    obtain ⟨k, hjk, hr, ha⟩ := L.newList ha hvs
    exact ⟨k, hij.trans hjk, .list hr, ha⟩
  | .object members, i, h₁, h₂, ha => by
    obtain ⟨j, hij, hps, ha⟩ := pairsOfJson members ha
    obtain ⟨k, hjk, hr, ha⟩ := objectOf ha hps
    exact ⟨k, hij.trans hjk, .object hr, ha⟩

theorem valuesOfJson : ∀ (items : List Json) {i : L.Stage} {h₁ h₂ : Heap},
    L.alike i h₁ h₂ e₁ e₂ →
    L.Makes i (fun j => Value.ListPaired (L.pairing j)) e₁ e₂ (Hotload.valuesOfJson items h₁)
      (Hotload.valuesOfJson items h₂)
  | [], i, _, _, ha => ⟨i, le_rfl, .nil, ha⟩
  | item :: items, i, h₁, h₂, ha => by
    obtain ⟨j, hij, hv, ha⟩ := valueOfJson item ha
    obtain ⟨k, hjk, hvs, ha⟩ := valuesOfJson items ha
    exact ⟨k, hij.trans hjk, .cons (hv.mono hjk) hvs, ha⟩

theorem pairsOfJson : ∀ (members : List (String × Json)) {i : L.Stage} {h₁ h₂ : Heap},
    L.alike i h₁ h₂ e₁ e₂ →
    L.Makes i L.SameFields e₁ e₂ (Hotload.pairsOfJson members h₁) (Hotload.pairsOfJson members h₂)
  | [], i, _, _, ha => ⟨i, le_rfl, .nil, ha⟩
  | (key, item) :: members, i, h₁, h₂, ha => by
    obtain ⟨j, hij, hv, ha⟩ := valueOfJson item ha
    obtain ⟨k, hjk, hps, ha⟩ := pairsOfJson members ha
    exact ⟨k, hij.trans hjk, .cons ⟨rfl, hv.mono hjk⟩ hps, ha⟩

end

/-- Results of reading a file: one error on both sides, or corresponding values. -/
inductive LoadAlike (L : Likeness σ₁ σ₂) (i : L.Stage) (e₁ : World × σ₁) (e₂ : World × σ₂) :
    Except LoadError (Value × Heap) → Except LoadError (Value × Heap) → Prop where
  | ok {a b : Value × Heap} (h : L.Leaves i e₁ e₂ a b) : LoadAlike L i e₁ e₂ (.ok a) (.ok b)
  | error (e : LoadError) : LoadAlike L i e₁ e₂ (.error e) (.error e)

theorem loadFile (ha : L.alike i h₁ h₂ e₁ e₂) (files : FileTree) (p : Path) :
    L.LoadAlike i e₁ e₂ (Hotload.loadFile files p h₁) (Hotload.loadFile files p h₂) := by
  unfold Hotload.loadFile
  by_cases hext : p.extension?.getD "" ≠ "json"
  · rw [if_pos hext, if_pos hext]
    exact .error _
  · rw [if_neg hext, if_neg hext]
    cases files.read p with
    | error e => exact .error _
    | ok text =>
      cases hjson : Json.parse? text.toList with
      | none =>
        simp only [hjson]
        exact .error _
      | some json =>
        simp only [hjson]
        exact .ok (valueOfJson json ha)

/-! ## Core modules -/

theorem nativeValues (ha : L.alike i h₁ h₂ e₁ e₂) (fs : List Native) :
    L.Makes i L.SameFields e₁ e₂ (Hotload.nativeValues h₁ fs) (Hotload.nativeValues h₂ fs) := by
  induction fs generalizing i h₁ h₂ with
  | nil => exact ⟨i, le_rfl, .nil, ha⟩
  | cons f fs ih =>
    obtain ⟨j, hij, hidentity, ha⟩ := L.freshIdentity ha
    obtain ⟨k, hjk, hvs, ha⟩ := ih ha
    exact ⟨k, hij.trans hjk, .cons ⟨rfl, .native f ((L.pairing_mono hjk).identity hidentity)⟩ hvs, ha⟩

theorem coreConstants_paired (K : Pairing) (name : String) :
    Fields.Paired K (coreConstants name) (coreConstants name) := by
  unfold coreConstants
  split
  · exact .cons ⟨rfl, .num _⟩ .nil
  · exact .nil

theorem loadCoreModule (ha : L.alike i h₁ h₂ e₁ e₂) (name : String) :
    Option.Rel (L.Leaves i e₁ e₂) (Hotload.loadCoreModule h₁ name)
      (Hotload.loadCoreModule h₂ name) := by
  unfold Hotload.loadCoreModule
  cases coreFunctions name with
  | none => exact .none
  | some functions =>
    obtain ⟨j, hij, hvs, ha⟩ := nativeValues ha functions
    obtain ⟨k, hjk, hr, ha⟩ := objectOf ha (List.rel_append hvs (coreConstants_paired _ name))
    exact .some ⟨k, hij.trans hjk, .object hr, ha⟩

/-! ## Scopes of modules -/

/-- Variables defined one after the other. -/
theorem fold_define (ha : L.alike i h₁ h₂ e₁ e₂) {r s : ScopeRef} (hs : (L.pairing i).scope r s)
    {ps qs : Fields} (hp : L.SameFields i ps qs) :
    L.alike i (ps.foldl (fun h (name, value) => h.define r name value) h₁)
      (qs.foldl (fun h (name, value) => h.define s name value) h₂) e₁ e₂ := by
  induction hp generalizing h₁ h₂ with
  | nil => exact ha
  | @cons p q ps qs hpq _ ih =>
    obtain ⟨k, v⟩ := p
    obtain ⟨l, w⟩ := q
    obtain ⟨rfl, hv⟩ := hpq
    exact ih (L.define ha hs hv k)

theorem newModuleScope (ha : L.alike i h₁ h₂ e₁ e₂) (p : Path) {r s : ObjectRef}
    (hexports : (L.pairing i).object r s) :
    L.Makes i (fun j a b => (L.pairing j).scope a.1 b.1 ∧ (L.pairing j).object a.2 b.2) e₁ e₂
      (ModuleSystem.newModuleScope p r h₁) (ModuleSystem.newModuleScope p s h₂) := by
  have hfields : Fields.Paired (L.pairing i) [("exports", .object r), ("filename", .str p.text)]
      [("exports", .object s), ("filename", .str p.text)] :=
    .cons ⟨rfl, .object hexports⟩ (.cons ⟨rfl, .str _⟩ .nil)
  obtain ⟨j₁, hj₁, hrecord, ha⟩ := L.newObject ha hfields
  obtain ⟨j₂, hj₂, hscope, ha⟩ := L.newScope ha (r := none) (s := none) .none
  obtain ⟨j₃, hj₃, hinterop, ha⟩ := L.freshIdentity ha
  obtain ⟨j₄, hj₄, hrequire, ha⟩ := L.freshIdentity ha
  have hrecord₄ := (L.pairing_mono (hj₂.trans (hj₃.trans hj₄))).object hrecord
  have hexports₄ := (L.pairing_mono (hj₁.trans (hj₂.trans (hj₃.trans hj₄)))).object hexports
  have hscope₄ := (L.pairing_mono (hj₃.trans hj₄)).scope hscope
  refine ⟨j₄, hj₁.trans (hj₂.trans (hj₃.trans hj₄)), ⟨hscope₄, hrecord₄⟩, fold_define ha hscope₄ ?_⟩
  exact .cons ⟨rfl, .object hrecord₄⟩ (.cons ⟨rfl, .object hexports₄⟩ (.cons ⟨rfl, .str _⟩
    (.cons ⟨rfl, .str _⟩ (.cons ⟨rfl, .native _ ((L.pairing_mono hj₄).identity hinterop)⟩
      (.cons ⟨rfl, .require _ _ hrequire⟩ .nil)))))

end Likeness

end Hotload
