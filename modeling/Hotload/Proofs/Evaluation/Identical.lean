import Mathlib
import Hotload.Proofs.Evaluation.Agreement

/-!
# Runs on one heap

The likeness of two machines whose heaps are the same and whose hosts are not: a host and the same
host with a record of what it is asked, or one host twice, for what it keeps.

* `Pairing.same`: every reference stands for itself.
* `Likeness.identical`: the likeness, given what is known of the world and the hosts.
-/

namespace Hotload

/-- Every reference stands for itself. -/
def Pairing.same : Pairing := ⟨Eq, Eq, Eq, Eq, fun _ => True⟩

section

variable {v w : Value}

theorem Value.paired_same (v : Value) : v.Paired .same v := by
  cases v with
  | nil => exact .nil
  | bool b => exact .bool b
  | num x => exact .num x
  | str s => exact .str s
  | list r => exact .list rfl
  | object r => exact .object rfl
  | fn closure => exact .fn rfl trivial
  | native f i => exact .native f rfl
  | require r => exact .require r.dir r.resolveOnly rfl

theorem Value.paired_same_iff : v.Paired .same w ↔ v = w := by
  refine ⟨fun h => ?_, fun h => h ▸ v.paired_same⟩
  cases h with
  | nil | bool | num | str => rfl
  | list h | object h | native _ h | require _ _ h => cases h; rfl
  | fn h _ => cases h; rfl

theorem Value.listPaired_same_iff {vs ws : List Value} :
    Value.ListPaired .same vs ws ↔ vs = ws := by
  rw [Value.ListPaired, show Value.Paired .same = Eq from
    funext fun v => funext fun w => propext Value.paired_same_iff, List.forall₂_eq_eq_eq]

theorem Fields.paired_same_iff {fs gs : Fields} : Fields.Paired .same fs gs ↔ fs = gs := by
  rw [Fields.Paired, show (fun p q : String × Value => p.1 = q.1 ∧ p.2.Paired .same q.2) = Eq from
    funext fun p => funext fun q => propext
      ⟨fun h => Prod.ext h.1 (Value.paired_same_iff.1 h.2),
        fun h => h ▸ ⟨rfl, p.2.paired_same⟩⟩, List.forall₂_eq_eq_eq]

theorem optionRel_of_eq {α : Type} {R : α → α → Prop} {a b : Option α} (hR : ∀ a, R a a)
    (h : a = b) : Option.Rel R a b := by
  subst h
  cases a with
  | none => exact .none
  | some a => exact .some (hR a)

end

namespace Likeness

variable {σ₁ σ₂ Stage : Type} [Preorder Stage]

/-- The heaps are the same; what is known of the world and the hosts is said by stages. -/
def identical (Stage : Type) [Preorder Stage] (known : Stage → World × σ₁ → World × σ₂ → Prop) :
    Likeness σ₁ σ₂ where
  Stage := Stage
  pairing _ := .same
  pairing_mono _ _ _ := le_rfl
  blank _ := trivial
  alike i h₁ h₂ e₁ e₂ := h₁ = h₂ ∧ known i e₁ e₂
  lookup := by
    rintro i h₁ h₂ e₁ e₂ r s ⟨rfl, -⟩ rfl name
    exact optionRel_of_eq Value.paired_same rfl
  define := by
    rintro i h₁ h₂ e₁ e₂ r s v w ⟨rfl, hk⟩ rfl hv name
    rw [Value.paired_same_iff] at hv
    exact ⟨by rw [hv], hk⟩
  hoist := by
    rintro i h₁ h₂ e₁ e₂ r s p ⟨rfl, hk⟩ rfl - name function
    exact ⟨rfl, hk⟩
  assign := by
    rintro i h₁ h₂ e₁ e₂ r s v w ⟨rfl, hk⟩ rfl hv name
    rw [Value.paired_same_iff] at hv
    exact optionRel_of_eq (fun _ => ⟨rfl, hk⟩) (by rw [hv])
  newScope := by
    rintro i h₁ h₂ e₁ e₂ r s ⟨rfl, hk⟩ hr
    cases hr with
    | none => exact ⟨i, le_rfl, rfl, rfl, hk⟩
    | some hr => exact ⟨i, le_rfl, by cases hr; exact ⟨rfl, rfl, hk⟩⟩
  newObject := by
    rintro i h₁ h₂ e₁ e₂ fs gs ⟨rfl, hk⟩ hf
    rw [Fields.paired_same_iff] at hf
    exact ⟨i, le_rfl, by cases hf; exact ⟨rfl, rfl, hk⟩⟩
  newList := by
    rintro i h₁ h₂ e₁ e₂ vs ws ⟨rfl, hk⟩ hv
    rw [Value.listPaired_same_iff] at hv
    exact ⟨i, le_rfl, by cases hv; exact ⟨rfl, rfl, hk⟩⟩
  freshIdentity := by
    rintro i h₁ h₂ e₁ e₂ ⟨rfl, hk⟩
    exact ⟨i, le_rfl, rfl, rfl, hk⟩
  fields := by
    rintro i h₁ h₂ e₁ e₂ r s ⟨rfl, -⟩ rfl
    exact Fields.paired_same_iff.2 rfl
  setField := by
    rintro i h₁ h₂ e₁ e₂ r s v w ⟨rfl, hk⟩ rfl hv key
    rw [Value.paired_same_iff] at hv
    exact ⟨by rw [hv], hk⟩
  items := by
    rintro i h₁ h₂ e₁ e₂ r s ⟨rfl, -⟩ rfl
    exact Value.listPaired_same_iff.2 rfl
  setItem := by
    rintro i h₁ h₂ e₁ e₂ r s v w ⟨rfl, hk⟩ rfl hv n
    rw [Value.paired_same_iff] at hv
    exact optionRel_of_eq (fun _ => ⟨rfl, hk⟩) (by rw [hv])
  strictEq := by
    rintro i h₁ h₂ e₁ e₂ v w v' w' - hv hv'
    rw [Value.paired_same_iff] at hv hv'
    rw [hv, hv']

variable {known : Stage → World × σ₁ → World × σ₂ → Prop} {v w : Value} {vs ws : List Value}

end Likeness

end Hotload
