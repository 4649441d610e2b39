import Mathlib
import Hotload.Proofs.Evaluation.Bindings

/-!
# Assignments

A name is found in the nearest scope of a chain that holds it, as a variable or as a function that is
declared there. An assignment gives the name another value in this scope. Where else the name is looked
up from decides whether the value is seen there.

* `Heap.Layered`: scopes lie in older ones.
* `Heap.Resolves`: the scope of a chain that a name is found in.
* `Heap.holder?_eq_some_iff`: the search for it finds it.
* `Heap.Reassigned`: one name of one scope has another value, and nothing else has changed.
* `assign_iff_resolves`: an assignment finds the scope that a look-up finds.
-/

namespace Hotload

open Syntax (Pos Expr)
open Run (fail)

namespace Heap

variable {h h' : Heap} {q q' r : ScopeRef} {name other : String} {value : Value}

/-! ## Chains of scopes -/

/-- The scope holds the name, as a variable or as a function. -/
def Knows (h : Heap) (q : ScopeRef) (name : String) : Prop :=
  ((h.scope q).vars.lookup name).isSome ∨ ((h.scope q).fns.lookup name).isSome

/-- The name is found in a scope of the chain that starts at another one: in the first that holds it. -/
inductive Resolves (h : Heap) (name : String) : ScopeRef → ScopeRef → Prop
  | here {q : ScopeRef} (known : h.Knows q name) : Resolves h name q q
  | outward {r parent q : ScopeRef} (unknown : ¬ h.Knows r name)
      (lies_in : (h.scope r).parent = some parent) (rest : Resolves h name parent q) : Resolves h name r q

/-- Scopes lie in scopes that were made before them, so every chain ends. -/
def Layered (h : Heap) : Prop :=
  ∀ r p, r.index < h.scopes.size → (h.scope r).parent = some p → p.index < r.index

/-- The heaps of all runs are such. -/
theorem Sound.layered (hs : h.Sound) : h.Layered := hs.older

theorem isSome_ownValue? : (h.ownValue? q name).isSome ↔ h.Knows q name := by
  simp only [ownValue?, Knows]
  cases (h.scope q).vars.lookup name with
  | some value => exact iff_of_true rfl (.inl rfl)
  | none => rw [Option.isSome_map, Option.isSome_none, Bool.false_eq_true, false_or]

theorem Resolves.knows (hr : h.Resolves name r q) : h.Knows q name := by
  induction hr with
  | here known => exact known
  | outward _ _ _ ih => exact ih

/-- A name is found in one scope at most. -/
theorem Resolves.unique (hr : h.Resolves name r q) (hr' : h.Resolves name r q') : q = q' := by
  induction hr with
  | here known =>
    cases hr' with
    | here => rfl
    | outward unknown => exact absurd known unknown
  | outward unknown lies_in _ ih =>
    cases hr' with
    | here known => exact absurd known unknown
    | outward _ lies_in' rest' =>
      obtain rfl := Option.some.inj (lies_in.symm.trans lies_in')
      exact ih rest'

/-! ## The search along a chain -/

theorem resolves_of_holderWithin? {bound : Nat} (hholder : h.holderWithin? name bound r = some q) :
    h.Resolves name r q := by
  induction bound generalizing r with
  | zero => cases hholder
  | succ bound ih =>
    rw [holderWithin?] at hholder
    split at hholder
    next hown =>
      obtain rfl := Option.some.inj hholder
      exact .here (isSome_ownValue?.1 hown)
    next hown =>
      split at hholder
      next parent hparent => exact .outward (mt isSome_ownValue?.2 hown) hparent (ih hholder)
      next => cases hholder

/-- A scope that was never made lies in no other. -/
theorem lt_size_of_parent {parent : ScopeRef} (hparent : (h.scope r).parent = some parent) :
    r.index < h.scopes.size := by
  by_contra hr
  rw [scope, Array.getD_eq_getD_getElem?, Array.getElem?_eq_none (not_lt.1 hr)] at hparent
  cases hparent

/-- As many steps outward as there are older scopes are enough. -/
theorem Resolves.holderWithin? (hl : h.Layered) (hr : h.Resolves name r q) {bound : Nat}
    (hbound : r.index < bound) : h.holderWithin? name bound r = some q := by
  induction hr generalizing bound with
  | here known =>
    cases bound with
    | zero => exact absurd hbound (Nat.not_lt_zero _)
    | succ bound => rw [Heap.holderWithin?, if_pos (isSome_ownValue?.2 known)]
  | outward unknown lies_in _ ih =>
    cases bound with
    | zero => exact absurd hbound (Nat.not_lt_zero _)
    | succ bound =>
      have holder := hl _ _ (lt_size_of_parent lies_in) lies_in
      rw [Heap.holderWithin?, if_neg (mt isSome_ownValue?.1 unknown), lies_in]
      exact ih (holder.trans_le (Nat.le_of_lt_succ hbound))

theorem holder?_eq_some_iff (hl : h.Layered) : h.holder? r name = some q ↔ h.Resolves name r q :=
  ⟨resolves_of_holderWithin?, fun hr => hr.holderWithin? hl (Nat.lt_succ_self _)⟩

theorem holder?_eq_none_iff (hl : h.Layered) :
    h.holder? r name = none ↔ ∀ q, ¬ h.Resolves name r q := by
  simp only [Option.eq_none_iff_forall_ne_some, ne_eq, holder?_eq_some_iff hl]

/-- What a name is seen as is what it is in the scope that it is found in. -/
theorem Resolves.lookup (hl : h.Layered) (hr : h.Resolves name r q) :
    h.lookup r name = h.ownValue? q name := by
  rw [Heap.lookup, (holder?_eq_some_iff hl).2 hr, Option.bind_some]

theorem lookup_eq_none (hr : ∀ q, ¬ h.Resolves name r q) : h.lookup r name = none := by
  cases hholder : h.holder? r name with
  | none => rw [Heap.lookup, hholder, Option.bind_none]
  | some q => exact absurd (resolves_of_holderWithin? hholder) (hr q)

theorem lookup_eq_none_iff (hl : h.Layered) :
    h.lookup r name = none ↔ ∀ q, ¬ h.Resolves name r q := by
  refine ⟨fun hlookup q hr => ?_, lookup_eq_none⟩
  rw [hr.lookup hl, ← Option.not_isSome_iff_eq_none, isSome_ownValue?] at hlookup
  exact hlookup hr.knows

/-! ## Reassignment -/

@[simp] theorem Scope.parent_reassign (name : String) (value : Value) (s : Scope) :
    (reassign name value s).parent = s.parent := by
  unfold reassign
  split <;> rfl

theorem Scope.lookup_vars_reassign (name : String) (value : Value) (s : Scope) (other : String) :
    (reassign name value s).vars.lookup other =
      if other = name then some value else s.vars.lookup other := by
  unfold reassign
  split <;> exact lookup_setPair ..

theorem Scope.lookup_fns_reassign_of_ne (value : Value) (s : Scope) (hname : other ≠ name) :
    (reassign name value s).fns.lookup other = s.fns.lookup other := by
  unfold reassign
  split
  · rfl
  · exact lookup_filter_of_ne hname _

/-- One name of one scope has another value. It is seen from where the name is found in this scope;
nothing else that is seen from anywhere has changed, and neither have the chains of scopes. -/
structure Reassigned (h h' : Heap) (q : ScopeRef) (name : String) (value : Value) : Prop where
  seen : ∀ s, h.Resolves name s q → h'.lookup s name = some value
  elsewhere : ∀ s, ¬ h.Resolves name s q → h'.lookup s name = h.lookup s name
  others : ∀ s other, other ≠ name → h'.lookup s other = h.lookup s other
  chains : ∀ s p other, h'.Resolves other s p ↔ h.Resolves other s p

section

variable {f : Scope → Scope}

theorem scope_reassign (hq : h.Knows q name) (value : Value) (s : ScopeRef) :
    (h.modifyScope q (Scope.reassign name value)).scope s =
      if q = s then Scope.reassign name value (h.scope s) else h.scope s := by
  refine scope_modifyScope ?_ _ s
  by_contra hsize
  rw [Knows, scope, Array.getD_eq_getD_getElem?, Array.getElem?_eq_none (not_lt.1 hsize)] at hq
  simp at hq

/-- A scope holds the names that it held. -/
theorem knows_reassign_iff (hq : h.Knows q name) (value : Value) (s : ScopeRef) (other : String) :
    (h.modifyScope q (Scope.reassign name value)).Knows s other ↔ h.Knows s other := by
  rw [Knows, scope_reassign hq]
  split
  next heq =>
    subst heq
    rw [Scope.lookup_vars_reassign]
    by_cases hother : other = name
    · subst hother
      simpa using hq
    · rw [if_neg hother, Scope.lookup_fns_reassign_of_ne value _ hother, Knows]
  next => rfl

theorem parent_reassign (hq : h.Knows q name) (value : Value) (s : ScopeRef) :
    ((h.modifyScope q (Scope.reassign name value)).scope s).parent = (h.scope s).parent := by
  rw [scope_reassign hq]
  split
  · exact Scope.parent_reassign ..
  · rfl

/-- Chains that hold the same names find them in the same scopes. -/
theorem Resolves.congr (hknows : ∀ s, h'.Knows s name ↔ h.Knows s name)
    (hparent : ∀ s, (h'.scope s).parent = (h.scope s).parent) (hr : h.Resolves name r q) :
    h'.Resolves name r q := by
  induction hr with
  | here known => exact .here ((hknows _).2 known)
  | outward unknown lies_in _ ih =>
    exact .outward (mt (hknows _).1 unknown) ((hparent _).trans lies_in) ih

theorem resolves_reassign_iff (hq : h.Knows q name) (value : Value) (s p : ScopeRef)
    (other : String) :
    (h.modifyScope q (Scope.reassign name value)).Resolves other s p ↔ h.Resolves other s p :=
  ⟨.congr (fun s => (knows_reassign_iff hq value s other).symm)
      fun s => (parent_reassign hq value s).symm,
    .congr (fun s => knows_reassign_iff hq value s other) fun s => parent_reassign hq value s⟩

theorem layered_modifyScope (hl : h.Layered)
    (hparent : ∀ s, ((h.modifyScope q f).scope s).parent = (h.scope s).parent) :
    (h.modifyScope q f).Layered := fun r p hr hp =>
  hl r p (hr.trans_eq (size_modifyScope ..)) ((hparent r).symm.trans hp)

theorem ownValue?_reassign (hq : h.Knows q name) (value : Value) :
    (h.modifyScope q (Scope.reassign name value)).ownValue? q name = some value := by
  simp only [ownValue?, scope_reassign hq, if_pos, Scope.lookup_vars_reassign]

/-- Only the one name of the one scope is bound to something else. -/
theorem ownValue?_reassign_of_ne (hq : h.Knows q name) (value : Value) {s : ScopeRef}
    (hne : q = s → other ≠ name) :
    (h.modifyScope q (Scope.reassign name value)).ownValue? s other = h.ownValue? s other := by
  by_cases heq : q = s
  · have hother := hne heq
    simp only [ownValue?, scope_reassign hq, if_pos heq, Scope.lookup_vars_reassign, if_neg hother,
      Scope.lookup_fns_reassign_of_ne value _ hother]
  · simp only [ownValue?, scope_reassign hq, if_neg heq]

/-- What is not bound to anything else in the scope that it is found in is seen as before. -/
theorem lookup_reassign_of_ne (hl : h.Layered) (hq : h.Knows q name) (value : Value) {s : ScopeRef}
    (hne : ∀ p, h.Resolves other s p → q = p → other ≠ name) :
    (h.modifyScope q (Scope.reassign name value)).lookup s other = h.lookup s other := by
  have hl' := layered_modifyScope hl (parent_reassign hq value)
  by_cases hfound : ∃ p, h.Resolves other s p
  · obtain ⟨p, hp⟩ := hfound
    rw [((resolves_reassign_iff hq value s p other).2 hp).lookup hl', hp.lookup hl,
      ownValue?_reassign_of_ne hq value (hne p hp)]
  · rw [not_exists] at hfound
    rw [lookup_eq_none hfound,
      lookup_eq_none fun p hp => hfound p ((resolves_reassign_iff hq value s p other).1 hp)]

theorem reassigned_reassign (hl : h.Layered) (hq : h.Knows q name) (value : Value) :
    h.Reassigned (h.modifyScope q (Scope.reassign name value)) q name value where
  seen s hs := by
    rw [((resolves_reassign_iff hq value s q name).2 hs).lookup
      (layered_modifyScope hl (parent_reassign hq value)), ownValue?_reassign hq]
  elsewhere s hs := lookup_reassign_of_ne hl hq value fun p hp hqp => absurd (hqp ▸ hp) hs
  others s other hother := lookup_reassign_of_ne hl hq value fun _ _ _ => hother
  chains := resolves_reassign_iff hq value

end

end Heap

/-! ## The statement -/

section

variable {σ : Type} (host : Host σ) (ev : Evaluator σ) (pos : Pos) (name : String) (value : Value)
  (r : ScopeRef) (m : Machine σ)

/-- An assignment to a name does to the heap what it can, or else fails. -/
theorem run_assignTo_ident :
    (assignTo host ev (.ident pos name) value r).run m =
      match m.heap.assign r name value with
      | some h' => (.ok (), { m with heap := h' })
      | none => (.error (.runtime ⟨.undeclared name, Run.frames host m⟩), m) := by
  have hrun : (assignTo host ev (.ident pos name) value r).run m =
      (match m.heap.assign r name value with
        | some h' => Run.modifyHeap fun _ => h'
        | none => fail host (.undeclared name) : Run σ Unit).run m := rfl
  rw [hrun]
  cases m.heap.assign r name value <;> rfl

/-- An assignment to a name fails where the name is not seen, and then everything is as it was.
Where the name is seen, it gets the value in the scope that it is found in. -/
theorem assign_iff_resolves (hl : m.heap.Layered) :
    (m.heap.assign r name value = none ↔ m.heap.lookup r name = none) ∧
      (m.heap.lookup r name = none →
        (assignTo host ev (.ident pos name) value r).run m =
          (.error (.runtime ⟨.undeclared name, Run.frames host m⟩), m)) ∧
      ((m.heap.lookup r name).isSome → ∃ h' q, m.heap.assign r name value = some h' ∧
        (assignTo host ev (.ident pos name) value r).run m = (.ok (), { m with heap := h' }) ∧
        m.heap.Resolves name r q ∧ m.heap.Reassigned h' q name value) := by
  have hnone : m.heap.assign r name value = none ↔ m.heap.lookup r name = none := by
    rw [Heap.assign_eq_map, Option.map_eq_none_iff, Heap.holder?_eq_none_iff hl,
      Heap.lookup_eq_none_iff hl]
  refine ⟨hnone, fun hlookup => ?_, fun hlookup => ?_⟩
  · rw [run_assignTo_ident, hnone.2 hlookup]
  · obtain ⟨h', hassign⟩ : ∃ h', m.heap.assign r name value = some h' := by
      rw [← Option.isSome_iff_exists, ← Option.ne_none_iff_isSome, ne_eq, hnone]
      exact Option.ne_none_iff_isSome.2 hlookup
    obtain ⟨q, hholder, hmodify⟩ := Heap.exists_of_assign hassign
    have hresolves := (Heap.holder?_eq_some_iff hl).1 hholder
    refine ⟨h', q, hassign, ?_, hresolves, ?_⟩
    · rw [run_assignTo_ident, hassign]
    · rw [← hmodify]
      exact Heap.reassigned_reassign hl hresolves.knows value

end

/-- A scope that declares a function, and two scopes in it. The second declares a function of the same
name. -/
def shadowedFunction : Heap :=
  let fns : List (String × Syntax.Function × Path) := [("f", .mk ⟨1, 1⟩ (some "f") [] [], ⟨"/a.rl"⟩)]
  { Heap.empty with scopes := #[⟨[], fns, none⟩, ⟨[], [], some ⟨0⟩⟩, ⟨[], fns, some ⟨0⟩⟩] }

theorem layered_shadowedFunction : shadowedFunction.Layered := by
  rintro ⟨r⟩ ⟨p⟩ hr hp
  match r, hr with
  | 0, _ => cases hp
  | 1, _ => cases hp; exact Nat.zero_lt_one
  | 2, _ => cases hp; exact Nat.zero_lt_two

/-- From the first of the two scopes the outer function gets another value, which the outer scope sees
and the second does not. -/
theorem assign_shadowedFunction :
    shadowedFunction.Layered ∧
      ∃ h', shadowedFunction.assign ⟨1⟩ "f" .nil = some h' ∧ h'.lookup ⟨1⟩ "f" = some .nil ∧
        h'.lookup ⟨0⟩ "f" = some .nil ∧ h'.lookup ⟨2⟩ "f" = shadowedFunction.lookup ⟨2⟩ "f" := by
  have houter : shadowedFunction.Resolves "f" ⟨0⟩ ⟨0⟩ := .here (.inr rfl)
  have hfirst : shadowedFunction.Resolves "f" ⟨1⟩ ⟨0⟩ :=
    .outward (by rintro (h | h) <;> cases h) rfl houter
  have hsecond : shadowedFunction.Resolves "f" ⟨2⟩ ⟨2⟩ := .here (.inr rfl)
  let host : Host Unit := ⟨fun _ _ _ => pure .nil, fun _ _ => pure ⟨""⟩, fun _ _ pos => pos⟩
  let m : Machine Unit := ⟨shadowedFunction, ⟨.empty, .empty false, []⟩, ⟨0, []⟩, .none, ()⟩
  obtain ⟨-, -, hseen⟩ :=
    assign_iff_resolves host ⟨0, fun _ _ => pure .nil⟩ ⟨1, 1⟩ "f" .nil ⟨1⟩ m layered_shadowedFunction
  obtain ⟨h', q, hassign, -, hq, hreassigned⟩ := hseen rfl
  obtain rfl := hq.unique hfirst
  refine ⟨layered_shadowedFunction, h', hassign, hreassigned.seen _ hfirst,
    hreassigned.seen _ houter, hreassigned.elsewhere _ fun hne => ?_⟩
  cases hne.unique hsecond

end Hotload
