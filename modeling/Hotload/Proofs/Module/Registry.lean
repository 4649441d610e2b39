import Mathlib
import Hotload.Module.Registry

/-!
# What the registry holds

The exports and the bodies of all paths after each operation. Paths count as the same if they name
the same steps, so an operation on a path is one on all ways to write it.

* `Registry.find?_update`: the record of a path after a record was changed.
* `Registry.exports?_setExports` and so on: the exports after each operation.
* `Registry.compiled?_setCompiled` and so on: the bodies.
* `Registry.scope?_setScope` and so on: the scopes, of which `Registry.scopes` are all.
-/

namespace Hotload

namespace Path

variable {p q r : Path}

@[simp] theorem same_refl (p : Path) : p.same p = true := decide_eq_true rfl

theorem same_comm (p q : Path) : p.same q = q.same p := by simp only [same, eq_comm]

/-- Paths that are the same are the same as the same others. -/
theorem same_right (h : p.same q = true) (r : Path) : r.same p = r.same q := by
  simp only [same, of_decide_eq_true h]

theorem same_left (h : p.same q = true) (r : Path) : p.same r = q.same r := by
  rw [same_comm p, same_comm q, same_right h]

end Path

namespace Registry

open Syntax (Stmt)

variable {r : Registry} {p q : Path} {f : ModuleRecord → ModuleRecord}

theorem find?_congr (r : Registry) (h : p.same q = true) : r.find? p = r.find? q := by
  simp only [find?, Path.same_right h]

theorem find?_some_same {record : ModuleRecord} (h : r.find? p = some record) :
    record.path.same p = true := by
  simpa using List.find?_some h

/-- The record of a path after one was changed. -/
theorem find?_update (hf : ∀ record, (f record).path = record.path) (r : Registry) (p q : Path) :
    (r.update p f).find? q =
      if p.same q then some (f ((r.find? p).getD (.blank p))) else r.find? q := by
  cases hp : r.find? p with
  | some record =>
    have hpath : ∀ record : ModuleRecord,
        (if record.path.same p then f record else record).path = record.path := by
      intro record
      split <;> simp [hf]
    have hmap : (r.update p f).find? q =
        (r.find? q).map fun record => if record.path.same p then f record else record := by
      simp only [update, hp]
      simp only [find?, List.find?_map, Function.comp_def, hpath]
    rw [hmap]
    split
    next hpq => simp [← find?_congr r hpq, hp, find?_some_same hp]
    next hpq =>
      cases hq : r.find? q with
      | none => rfl
      | some other =>
        have hother : ¬ other.path.same p = true := by
          rw [Path.same_left (find?_some_same hq), Path.same_comm]
          exact hpq
        simp [hother]
  | none =>
    have happend : (r.update p f).find? q =
        (r.find? q).or (if p.same q then some (f (.blank p)) else none) := by
      simp only [update, hp]
      simp only [find?, List.find?_append, List.find?_cons, List.find?_nil, hf, ModuleRecord.blank]
      cases p.same q <;> rfl
    rw [happend]
    split
    next hpq => simp [← find?_congr r hpq, hp]
    next => simp

/-- An operation that leaves the exports of a record alone. -/
theorem exports?_update_of_eq (hf : ∀ record, (f record).path = record.path)
    (hexports : ∀ record, (f record).exports = record.exports) (r : Registry) (p q : Path) :
    (r.update p f).exports? q = r.exports? q := by
  rw [exports?, find?_update hf]
  split
  next hpq =>
    rw [Option.bind_some, hexports, exports?, ← find?_congr r hpq]
    cases r.find? p <;> rfl
  next => rfl

/-- An operation that leaves the body of a record alone. -/
theorem compiled?_update_of_eq (hf : ∀ record, (f record).path = record.path)
    (hcompiled : ∀ record, (f record).compiled = record.compiled) (r : Registry) (p q : Path) :
    (r.update p f).compiled? q = r.compiled? q := by
  rw [compiled?, find?_update hf]
  split
  next hpq =>
    rw [Option.bind_some, hcompiled, compiled?, ← find?_congr r hpq]
    cases r.find? p <;> rfl
  next => rfl

theorem find?_retire (r : Registry) (p q : Path) : (r.retire p).find? q = r.find? q := by
  unfold retire
  split <;> rfl

/-! ## Exports -/

@[simp] theorem exports?_empty (q : Path) : Registry.empty.exports? q = none := rfl

theorem exports?_setExports (r : Registry) (p : Path) (v : Value) (q : Path) :
    (r.setExports p v).exports? q = if p.same q then some v else r.exports? q := by
  rw [exports?, setExports, find?_update]
  · split <;> rfl
  · exact fun _ => rfl

@[simp] theorem exports?_setCompiled (r : Registry) (p : Path) (program : List Syntax.Stmt)
    (q : Path) : (r.setCompiled p program).exports? q = r.exports? q :=
  exports?_update_of_eq (fun _ => by rfl) (fun _ => by rfl) r p q

@[simp] theorem exports?_markWatched (r : Registry) (p q : Path) :
    (r.markWatched p).exports? q = r.exports? q :=
  exports?_update_of_eq (fun _ => by rfl) (fun _ => by rfl) r p q

@[simp] theorem exports?_setScope (r : Registry) (p : Path) (scope : ScopeRef) (q : Path) :
    (r.setScope p scope).exports? q = r.exports? q := by
  refine (exports?_update_of_eq (fun _ => by rfl) (fun _ => by rfl) _ p q).trans ?_
  rw [exports?, find?_retire]
  rfl

theorem exports?_removeExports (r : Registry) (p q : Path) :
    (r.removeExports p).exports? q = if p.same q then none else r.exports? q := by
  cases hp : r.find? p with
  | some record =>
    simp only [removeExports, hp]
    rw [exports?, find?_update, find?_retire, find?_retire]
    · split <;> rfl
    · exact fun _ => rfl
  | none =>
    simp only [removeExports, hp]
    split
    next hpq => rw [exports?, ← find?_congr r hpq, hp]; rfl
    next => rfl

@[simp] theorem exports?_invalidate (r : Registry) (p q : Path) :
    (r.invalidate p).exports? q = none := by
  simp only [exports?, find?, invalidate, List.find?_map, Function.comp_def]
  cases r.records.find? (·.path.same q) <;> rfl

@[simp] theorem exports?_release (r : Registry) (h : Heap) (q : Path) :
    (r.release h).1.exports? q = r.exports? q := rfl

/-! ## Bodies -/

/-- A body that is held stands in a record. -/
theorem exists_of_compiled? {r : Registry} {p : Path} (h : r.compiled? p ≠ none) :
    ∃ record ∈ r.records, record.path.same p = true := by
  cases hfind : r.find? p with
  | none => exact absurd (by rw [compiled?, hfind]; rfl) h
  | some record =>
    unfold find? at hfind
    have hp := List.find?_some hfind
    exact ⟨record, List.mem_of_find?_eq_some hfind, hp⟩

theorem compiled?_setCompiled (r : Registry) (p : Path) (program : List Syntax.Stmt) (q : Path) :
    (r.setCompiled p program).compiled? q = if p.same q then some program else r.compiled? q := by
  rw [compiled?, setCompiled, find?_update]
  · split <;> rfl
  · exact fun _ => rfl

@[simp] theorem compiled?_setExports (r : Registry) (p : Path) (v : Value) (q : Path) :
    (r.setExports p v).compiled? q = r.compiled? q :=
  compiled?_update_of_eq (fun _ => by rfl) (fun _ => by rfl) r p q

@[simp] theorem compiled?_markWatched (r : Registry) (p q : Path) :
    (r.markWatched p).compiled? q = r.compiled? q :=
  compiled?_update_of_eq (fun _ => by rfl) (fun _ => by rfl) r p q

@[simp] theorem compiled?_setScope (r : Registry) (p : Path) (scope : ScopeRef) (q : Path) :
    (r.setScope p scope).compiled? q = r.compiled? q := by
  refine (compiled?_update_of_eq (fun _ => by rfl) (fun _ => by rfl) _ p q).trans ?_
  rw [compiled?, find?_retire]
  rfl

@[simp] theorem compiled?_removeExports (r : Registry) (p q : Path) :
    (r.removeExports p).compiled? q = r.compiled? q := by
  unfold removeExports
  split
  · refine (compiled?_update_of_eq (fun _ => by rfl) (fun _ => by rfl) _ p q).trans ?_
    rw [compiled?, find?_retire]
    rfl
  · rfl

/-- Only the changed file loses its body. -/
theorem compiled?_invalidate (r : Registry) (p q : Path) :
    (r.invalidate p).compiled? q = if p.same q then none else r.compiled? q := by
  simp only [compiled?, find?, invalidate, List.find?_map, Function.comp_def]
  cases hq : r.records.find? (·.path.same q) with
  | none => simp
  | some record =>
    have hsame : record.path.same q = true := by simpa using List.find?_some hq
    simp [Path.same_left hsame, Path.same_comm q]

/-! ## Scopes -/

/-- The scope of a path. -/
def scope? (r : Registry) (p : Path) : Option ScopeRef := (r.find? p).bind (·.scope)

/-- All scopes of modules, in use or retired. -/
def scopes (r : Registry) : List ScopeRef := r.records.filterMap (·.scope) ++ r.retired

theorem mem_scopes {s : ScopeRef} : s ∈ r.scopes ↔
    (∃ record ∈ r.records, record.scope = some s) ∨ s ∈ r.retired := by
  simp [scopes]

theorem mem_scopes_of_scope? {s : ScopeRef} (h : r.scope? p = some s) : s ∈ r.scopes := by
  obtain ⟨record, hrecord, hs⟩ := Option.bind_eq_some_iff.1 h
  exact mem_scopes.2 (.inl ⟨record, List.mem_of_find?_eq_some hrecord, hs⟩)

/-- An operation on a record makes no scopes but its own ones. -/
theorem mem_scopes_update (own : ScopeRef → Prop)
    (hf : ∀ record s, (f record).scope = some s → record.scope = some s ∨ own s) {s : ScopeRef}
    (h : s ∈ (r.update p f).scopes) : s ∈ r.scopes ∨ own s := by
  rcases mem_scopes.1 h with ⟨record, hrecord, hs⟩ | hs
  · cases hp : r.find? p with
    | some found =>
      simp only [update, hp, List.mem_map] at hrecord
      obtain ⟨old, hold, rfl⟩ := hrecord
      split at hs
      · exact (hf old s hs).imp_left fun hs => mem_scopes.2 (.inl ⟨old, hold, hs⟩)
      · exact .inl (mem_scopes.2 (.inl ⟨old, hold, hs⟩))
    | none =>
      simp only [update, hp, List.mem_append, List.mem_singleton] at hrecord
      rcases hrecord with hrecord | rfl
      · exact .inl (mem_scopes.2 (.inl ⟨record, hrecord, hs⟩))
      · exact (hf _ s hs).imp_left fun hs => by cases hs
  · refine .inl (mem_scopes.2 (.inr ?_))
    unfold update at hs
    split at hs <;> exact hs

theorem mem_scopes_update_of_eq (hscope : ∀ record, (f record).scope = record.scope)
    {s : ScopeRef} (h : s ∈ (r.update p f).scopes) : s ∈ r.scopes :=
  (mem_scopes_update (fun _ => False) (fun record _ hs => .inl (hscope record ▸ hs)) h).elim
    id False.elim

theorem mem_scopes_retire {s : ScopeRef} (h : s ∈ (r.retire p).scopes) : s ∈ r.scopes := by
  unfold retire at h
  split at h
  next old hold =>
    rcases mem_scopes.1 h with hs | hs
    · exact mem_scopes.2 (.inl hs)
    · rcases List.mem_cons.1 hs with rfl | hs
      · exact mem_scopes_of_scope? hold
      · exact mem_scopes.2 (.inr hs)
  next => exact h

theorem mem_scopes_setExports {v : Value} {s : ScopeRef} (h : s ∈ (r.setExports p v).scopes) :
    s ∈ r.scopes :=
  mem_scopes_update_of_eq (fun _ => by rfl) h

theorem mem_scopes_setCompiled {program : List Stmt} {s : ScopeRef}
    (h : s ∈ (r.setCompiled p program).scopes) : s ∈ r.scopes :=
  mem_scopes_update_of_eq (fun _ => by rfl) h

theorem mem_scopes_markWatched {s : ScopeRef} (h : s ∈ (r.markWatched p).scopes) : s ∈ r.scopes :=
  mem_scopes_update_of_eq (fun _ => by rfl) h

theorem mem_scopes_setScope {scope s : ScopeRef} (h : s ∈ (r.setScope p scope).scopes) :
    s ∈ r.scopes ∨ s = scope :=
  (mem_scopes_update (· = scope) (fun _ _ hs => .inr (Option.some.inj hs).symm) h).imp_left
    mem_scopes_retire

theorem mem_scopes_removeExports {s : ScopeRef} (h : s ∈ (r.removeExports p).scopes) :
    s ∈ r.scopes := by
  unfold removeExports at h
  split at h
  · refine mem_scopes_retire ((mem_scopes_update (fun _ => False) ?_ h).resolve_right id)
    exact fun _ _ hs => by cases hs
  · exact h

theorem mem_scopes_invalidate {s : ScopeRef} (h : s ∈ (r.invalidate p).scopes) : s ∈ r.scopes := by
  rcases mem_scopes.1 h with ⟨record, hrecord, hs⟩ | hs
  · obtain ⟨old, -, rfl⟩ := List.mem_map.1 hrecord
    cases hs
  · exact hs

/-- An operation that leaves the scope of a record alone. -/
theorem scope?_update_of_eq (hf : ∀ record, (f record).path = record.path)
    (hscope : ∀ record, (f record).scope = record.scope) (r : Registry) (p q : Path) :
    (r.update p f).scope? q = r.scope? q := by
  rw [scope?, find?_update hf]
  split
  next hpq =>
    rw [Option.bind_some, hscope, scope?, ← find?_congr r hpq]
    cases r.find? p <;> rfl
  next => rfl

@[simp] theorem scope?_setExports (r : Registry) (p : Path) (v : Value) (q : Path) :
    (r.setExports p v).scope? q = r.scope? q :=
  scope?_update_of_eq (fun _ => by rfl) (fun _ => by rfl) r p q

@[simp] theorem scope?_setCompiled (r : Registry) (p : Path) (program : List Stmt) (q : Path) :
    (r.setCompiled p program).scope? q = r.scope? q :=
  scope?_update_of_eq (fun _ => by rfl) (fun _ => by rfl) r p q

@[simp] theorem scope?_markWatched (r : Registry) (p q : Path) :
    (r.markWatched p).scope? q = r.scope? q :=
  scope?_update_of_eq (fun _ => by rfl) (fun _ => by rfl) r p q

theorem scope?_setScope (r : Registry) (p : Path) (scope : ScopeRef) (q : Path) :
    (r.setScope p scope).scope? q = if p.same q then some scope else r.scope? q := by
  rw [scope?, setScope, find?_update]
  · rw [find?_retire, find?_retire]
    split <;> rfl
  · exact fun _ => rfl

theorem retired_update (r : Registry) (p : Path) (f : ModuleRecord → ModuleRecord) :
    (r.update p f).retired = r.retired := by
  unfold update
  split <;> rfl

/-- To set a scope retires the one that was there. -/
theorem retired_setScope (r : Registry) (p : Path) (scope : ScopeRef) :
    (r.setScope p scope).retired = (r.scope? p).toList ++ r.retired := by
  rw [setScope, retired_update, retire]
  unfold scope?
  cases (r.find? p).bind (·.scope) <;> rfl

end Registry

end Hotload
