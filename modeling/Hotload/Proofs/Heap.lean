import Hotload.Heap

/-!
# Walks from a scope outward

A look-up and an assignment each walk from a scope to the nearest one that holds the name. The walks are
two, and stop at the same scope.

* `Heap.Scope.reassign`: what an assignment does to that scope.
* `Heap.assign_eq_map`: an assignment changes the scope that a look-up finds.
-/

namespace Hotload.Heap

/-- One name of a scope with another value. A function that was declared under it is gone. -/
def Scope.reassign (name : String) (value : Value) (s : Scope) : Scope :=
  if (s.vars.lookup name).isSome then { s with vars := setPair name value s.vars }
  else { s with vars := setPair name value s.vars, fns := s.fns.filter (·.1 ≠ name) }

/-- Only what becomes of the scope itself counts. -/
theorem modifyScope_congr {h : Heap} {r : ScopeRef} {f g : Scope → Scope}
    (hfg : f (h.scope r) = g (h.scope r)) : h.modifyScope r f = h.modifyScope r g := by
  have hscopes : h.scopes.modify r.index f = h.scopes.modify r.index g := by
    refine Array.ext (by simp) fun i hi hi' => ?_
    rw [Array.getElem_modify, Array.getElem_modify]
    split
    next heq =>
      have hr : r.index < h.scopes.size := by simpa [← heq] using hi
      have hscope : h.scope r = h.scopes[i] := by
        simp only [scope, Array.getD_eq_getD_getElem?, ← heq, Array.getElem?_eq_getElem hr, Option.getD_some]
      rwa [hscope] at hfg
    next => rfl
  rw [modifyScope, modifyScope, hscopes]

/-- The walk of an assignment stops where that of a look-up does. -/
theorem assignWithin?_eq_map (h : Heap) (name : String) (value : Value) (bound : Nat) (r : ScopeRef) :
    h.assignWithin? name value bound r =
      (h.holderWithin? name bound r).map fun q => h.modifyScope q (Scope.reassign name value) := by
  induction bound generalizing r with
  | zero => rfl
  | succ bound ih =>
    rw [assignWithin?, holderWithin?, ownValue?]
    cases hvar : (h.scope r).vars.lookup name with
    | some old =>
      have hscope : Scope.reassign name value (h.scope r) =
          { h.scope r with vars := setPair name value (h.scope r).vars } := if_pos (by rw [hvar]; rfl)
      exact congrArg some (modifyScope_congr hscope).symm
    | none =>
      cases hfn : (h.scope r).fns.lookup name with
      | some declared =>
        have hscope : Scope.reassign name value (h.scope r) =
            { h.scope r with
              vars := setPair name value (h.scope r).vars
              fns := (h.scope r).fns.filter (·.1 ≠ name) } := if_neg (by rw [hvar]; exact Bool.false_ne_true)
        exact congrArg some (modifyScope_congr hscope).symm
      | none =>
        cases hparent : (h.scope r).parent with
        | some parent => exact ih parent
        | none => rfl

/-- An assignment changes the scope that a look-up finds the name in. -/
theorem assign_eq_map (h : Heap) (r : ScopeRef) (name : String) (value : Value) :
    h.assign r name value =
      (h.holder? r name).map fun q => h.modifyScope q (Scope.reassign name value) :=
  h.assignWithin?_eq_map name value (r.index + 1) r

theorem exists_of_assign {h h' : Heap} {r : ScopeRef} {name : String} {value : Value}
    (hassign : h.assign r name value = some h') :
    ∃ q, h.holder? r name = some q ∧ h.modifyScope q (Scope.reassign name value) = h' :=
  Option.map_eq_some_iff.1 ((h.assign_eq_map r name value).symm.trans hassign)

end Hotload.Heap
