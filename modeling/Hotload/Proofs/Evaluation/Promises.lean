import Mathlib
import Hotload.Proofs.Evaluation.Monitoring
import Hotload.Proofs.Evaluation.Settling
import Hotload.Proofs.Heap

/-!
# What runs promise

A promise says what holds of the heap and of the calls under way for as long as a program runs, and
what its errors tell. It can single out scopes that are there already: only a `let` or an assignment
changes what these hold. Under two monitors that agree under a promise a program runs alike, but for
the errors with which one of them may end the run early.

* `Promise`: what is promised.
* `Promise.Allows`: monitors that agree under a promise.
* `Promise.Same`: a computation does what another one does, which keeps the promise.
* `Promise.Hosts`: what is left to show of a host.
* `Promise.Allows.same_evaluator`, `Promise.Allows.runners_runModule`: evaluation and whole runs.
-/

namespace Hotload

open Syntax (Pos Expr Stmt Function BinaryOp)
open Run (modifyHeap onHeap setPos currentPath fail failAt)

namespace Run

variable {σ α β : Type} {x y : Run σ α} {f g : α → Run σ β} {m : Machine σ}

theorem run_bind_congr (h : x.run m = y.run m) (f : α → Run σ β) :
    (x >>= f).run m = (y >>= f).run m := by
  change (ExceptT.bindCont f (x.run m).1) (x.run m).2 = (ExceptT.bindCont f (y.run m).1) (y.run m).2
  rw [h]

/-- What follows a computation has only to be the same if that one gives a result. -/
theorem run_bind_congr_ok
    (h : ∀ a, x.outcome m = .ok a → (f a).run (x.after m) = (g a).run (x.after m)) :
    (x >>= f).run m = (x >>= g).run m := by
  cases hx : x.outcome m with
  | ok a => rw [run_bind_ok hx rfl, run_bind_ok hx rfl, h a hx]
  | error e =>
    exact Prod.ext ((outcome_bind_error hx).trans (outcome_bind_error hx).symm)
      ((after_bind_error hx).trans (after_bind_error hx).symm)

end Run

/-- What holds while a program runs. -/
structure Promise where
  /-- The scopes that only a `let` or an assignment may change. -/
  kept : ScopeRef → Prop
  heap : Heap → Prop
  stack : List Activation → Prop
  error : LoadError → Prop
  /-- The error ends a run early. -/
  ended : LoadError → Prop
  made : ∀ {h q}, heap h → kept q → q.index < h.scopes.size
  of_scopes : ∀ {h h'}, heap h → h'.scopes = h.scopes → heap h'
  newScope : ∀ {h} parent, heap h → heap (h.newScope parent).2
  hoist : ∀ {h q} name function path, heap h → ¬ kept q → heap (h.hoist q name function path)
  define : ∀ {h q} name value, heap h → ¬ kept q → heap (h.define q name value)
  /-- Positions do not count. -/
  stack_congr : ∀ {s s' : List Activation},
    s'.map (fun a => (a.function, a.path)) = s.map (fun a => (a.function, a.path)) →
      stack s → stack s'
  call : ∀ {s} name path pos, stack s → stack (⟨some name, path, pos⟩ :: s)
  body : ∀ path pos, stack [⟨none, path, pos⟩]
  fault : ∀ {s} fault (frames : List Frame), stack s →
    frames.map (fun f => (f.function, f.path)) = s.map (fun a => (a.function, a.path)) →
      error (.runtime ⟨fault, frames⟩)
  /-- A module body that is not started has no calls. -/
  refused : error (.runtime ⟨.tooManyCalls, []⟩)

namespace Promise

variable {σ α β : Type} (P : Promise)

/-- From a state on, the first computation does what the second one does, unless that one is ended
early. The second one stays in its calls, and what is promised of the heap and of errors holds. -/
structure SameAt (x y : Run σ α) (m : Machine σ) : Prop where
  run : x.run m = y.run m ∨ ∃ e, P.ended e ∧ y.outcome m = .error e
  heap : P.heap (y.after m).heap
  calls : m.SameCalls (y.after m)
  error : ∀ e, y.outcome m = .error e → P.error e

/-- The computations do the same wherever the heap is as promised. -/
def SameAnywhere (x y : Run σ α) : Prop := ∀ m, P.heap m.heap → P.SameAt x y m

/-- The computations do the same wherever the heap and the calls under way are as promised. -/
def Same (x y : Run σ α) : Prop :=
  ∀ m, P.heap m.heap → P.stack m.running.stack → P.SameAt x y m

/-- The module bodies that are run in new scopes do the same. -/
def Runners (run run' : Runner σ) : Prop :=
  ∀ program scope path, ¬ P.kept scope → P.SameAnywhere (run program scope path) (run' program scope path)

/-- The host keeps the promise if the bodies that it runs do. -/
structure Hosts (host : Host σ) : Prop where
  require : ∀ {run run'}, P.Runners run run' → ∀ specifier dir,
    P.SameAnywhere (host.require run specifier dir) (host.require run' specifier dir)
  find : ∀ specifier dir, P.SameAnywhere (host.find specifier dir) (host.find specifier dir)

/-- Under the second monitor writes keep the promise, and the first one does the same, if it does not
go on where the second one ends a run. -/
structure Allows (M M' : Monitor) : Prop where
  stop : ∀ q name, M.stop? q name = M'.stop? q name ∨ ∃ e, M'.stop? q name = some e ∧ P.ended e
  stopped : ∀ {q name e}, M'.stop? q name = some e → P.error e
  define : ∀ {h q name} value, P.heap h → M'.stop? q name = none → P.heap (h.define q name value)
  assign : ∀ {h h' scope q name value}, P.heap h → h.holder? scope name = some q →
    M'.stop? q name = none → h.assign scope name value = some h' → P.heap h'
  ownValue : ∀ {h} q name, P.heap h → M.ownValue? h q name = M'.ownValue? h q name

variable {P} {x y : Run σ α} {f g : α → Run σ β} {m : Machine σ}

/-! ## Computations that do the same -/

theorem SameAnywhere.same (h : P.SameAnywhere x y) : P.Same x y := fun m hm _ => h m hm

theorem SameAt.of_eq (hrun : x.run m = y.run m) (hheap : P.heap (y.after m).heap)
    (hcalls : m.SameCalls (y.after m)) (herror : ∀ e, y.outcome m = .error e → P.error e) :
    P.SameAt x y m :=
  ⟨.inl hrun, hheap, hcalls, herror⟩

theorem SameAt.bind (h : P.SameAt x y m)
    (hf : ∀ a, y.outcome m = .ok a → P.SameAt (f a) (g a) (y.after m)) :
    P.SameAt (x >>= f) (y >>= g) m := by
  cases hy : y.outcome m with
  | ok a =>
    obtain ⟨hrun, hheap, hcalls, herror⟩ := hf a hy
    refine ⟨?_, ?_, ?_, ?_⟩
    · rcases h.run with hxy | ⟨e, -, he⟩
      · have hx : x.outcome m = .ok a := (congrArg Prod.fst hxy).trans hy
        rw [Run.run_bind_ok hx (congrArg Prod.snd hxy), Run.run_bind_ok hy rfl, Run.outcome_bind_ok hy]
        exact hrun
      · rw [hy] at he
        cases he
    · rwa [Run.after_bind_ok hy]
    · rw [Run.after_bind_ok hy]
      exact h.calls.trans hcalls
    · rwa [Run.outcome_bind_ok hy]
  | error e =>
    refine ⟨?_, ?_, ?_, ?_⟩
    · rcases h.run with hxy | ⟨e', hended, he⟩
      · have hx : x.outcome m = .error e := (congrArg Prod.fst hxy).trans hy
        refine .inl (Prod.ext ?_ ?_)
        · exact (Run.outcome_bind_error hx).trans (Run.outcome_bind_error hy).symm
        · exact (Run.after_bind_error hx).trans
            ((congrArg Prod.snd hxy).trans (Run.after_bind_error hy).symm)
      · exact .inr ⟨e', hended, Run.outcome_bind_error he⟩
    · rw [Run.after_bind_error hy]
      exact h.heap
    · rw [Run.after_bind_error hy]
      exact h.calls
    · rw [Run.outcome_bind_error hy]
      rintro _ ⟨⟩
      exact h.error e hy

theorem Same.bind (h : P.Same x y) (hf : ∀ a, P.Same (f a) (g a)) :
    P.Same (x >>= f) (y >>= g) := fun m hm hs =>
  have hx := h m hm hs
  hx.bind fun a _ => hf a _ hx.heap (P.stack_congr hx.calls.stack hs)

theorem SameAnywhere.bind (h : P.SameAnywhere x y) (hf : ∀ a, P.SameAnywhere (f a) (g a)) :
    P.SameAnywhere (x >>= f) (y >>= g) := fun m hm =>
  (h m hm).bind fun a _ => hf a _ (h m hm).heap

theorem SameAt.bind_pure (h : P.SameAt x y m) (b : β) :
    P.SameAt (x >>= fun _ => pure b) (y >>= fun _ => pure b) m :=
  h.bind fun _ _ => .of_eq rfl h.heap (.refl _) nofun

/-- What follows an outcome. An early end is passed on. -/
theorem SameAt.observe_bind {f g : Except LoadError α → Run σ β} (h : P.SameAt x y m)
    (hf : P.SameAt (f (y.outcome m)) (g (y.outcome m)) (y.after m))
    (hends : ∀ e m, (g (.error e)).outcome m = .error e) :
    P.SameAt (Run.observe x >>= f) (Run.observe y >>= g) m where
  run := by
    rcases h.run with hxy | ⟨e, hended, he⟩
    · rw [Run.run_observe_bind, Run.outcome, Run.after, hxy]
      exact hf.run
    · refine .inr ⟨e, hended, ?_⟩
      rw [Run.outcome, Run.run_observe_bind, he]
      exact hends e _
  heap := hf.heap
  calls := h.calls.trans hf.calls
  error := hf.error

/-- Computations that do what others do in a state with the same calls, but for what is put back. -/
theorem SameAt.of_run {x' y' : Run σ α} {m' : Machine σ} (h : P.SameAt x' y' m')
    (back : Machine σ → Machine σ) (hx : x.run m = (x'.outcome m', back (x'.after m')))
    (hy : y.run m = (y'.outcome m', back (y'.after m')))
    (hheap : ∀ n, (back n).heap = n.heap)
    (hcalls : ∀ n, m'.SameCalls n → m.SameCalls (back n)) : P.SameAt x y m where
  run := by
    rcases h.run with hxy | hended
    · rw [hx, hy, Run.outcome, Run.after, hxy]
      exact .inl rfl
    · rw [Run.outcome, hy]
      exact .inr hended
  heap := by rw [Run.after, hy, hheap]; exact h.heap
  calls := by rw [Run.after, hy]; exact hcalls _ h.calls
  error := by rw [Run.outcome, hy]; exact h.error

/-- Computations that first come to another state in the same calls. -/
theorem SameAt.of_start {x' y' : Run σ α} {m' : Machine σ} (h : P.SameAt x' y' m')
    (hcalls : m.SameCalls m') (hx : x.run m = x'.run m') (hy : y.run m = y'.run m') :
    P.SameAt x y m :=
  h.of_run id hx hy (fun _ => rfl) fun _ => hcalls.trans

theorem SameAt.get_bind {f g : Machine σ → Run σ β} (h : P.SameAt (f m) (g m) m) :
    P.SameAt (get >>= f) (get >>= g) m :=
  ⟨h.run, h.heap, h.calls, h.error⟩

theorem SameAt.heap_bind {f g : Heap → Run σ β} (h : P.SameAt (f m.heap) (g m.heap) m) :
    P.SameAt (Run.heap >>= f) (Run.heap >>= g) m :=
  ⟨h.run, h.heap, h.calls, h.error⟩

theorem sameAnywhere_ite {p : Prop} [Decidable p] {x' y' : Run σ α} (h : p → P.SameAnywhere x y)
    (h' : ¬ p → P.SameAnywhere x' y') :
    P.SameAnywhere (if p then x else x') (if p then y else y') := by
  by_cases hp : p
  · simpa only [if_pos hp] using h hp
  · simpa only [if_neg hp] using h' hp

theorem same_ite {p : Prop} [Decidable p] {x' y' : Run σ α} (h : p → P.Same x y)
    (h' : ¬ p → P.Same x' y') : P.Same (if p then x else x') (if p then y else y') := by
  by_cases hp : p
  · simpa only [if_pos hp] using h hp
  · simpa only [if_neg hp] using h' hp

/-! ## Steps -/

theorem sameAt_pure (hm : P.heap m.heap) (a : α) : P.SameAt (pure a) (pure a) m :=
  .of_eq rfl hm (.refl m) nofun

theorem sameAnywhere_pure (a : α) : P.SameAnywhere (pure a : Run σ α) (pure a) :=
  fun _ hm => sameAt_pure hm a

theorem same_pure (a : α) : P.Same (pure a : Run σ α) (pure a) := (sameAnywhere_pure a).same

theorem sameAnywhere_throw {e : LoadError} (he : P.error e) :
    P.SameAnywhere (throw e : Run σ α) (throw e) :=
  fun m hm => .of_eq rfl hm (.refl m) (by rintro _ ⟨⟩; exact he)

theorem sameAt_modifyHeap {f : Heap → Heap} (hf : P.heap (f m.heap)) :
    P.SameAt (modifyHeap f) (modifyHeap f) m :=
  .of_eq rfl hf (.of_eq rfl rfl) nofun

theorem sameAnywhere_modifyHeap {f : Heap → Heap} (hf : ∀ h, P.heap h → P.heap (f h)) :
    P.SameAnywhere (modifyHeap f : Run σ Unit) (modifyHeap f) :=
  fun m hm => sameAt_modifyHeap (hf m.heap hm)

theorem sameAnywhere_setField (r : ObjectRef) (key : String) (value : Value) :
    P.SameAnywhere (modifyHeap (·.setField r key value) : Run σ Unit)
      (modifyHeap (·.setField r key value)) :=
  sameAnywhere_modifyHeap fun _ hh => P.of_scopes hh rfl

theorem sameAnywhere_onHeap {f : Heap → α × Heap} (hf : ∀ h, P.heap h → P.heap (f h).2) :
    P.SameAnywhere (onHeap f : Run σ α) (onHeap f) :=
  fun m hm => .of_eq rfl (hf m.heap hm) (.of_eq rfl rfl) nofun

theorem sameAnywhere_setPos (pos : Pos) :
    P.SameAnywhere (setPos pos : Run σ Unit) (setPos pos) :=
  fun m hm => .of_eq rfl hm (Run.quiet_setPos pos m).1 nofun

theorem sameAnywhere_currentPath : P.SameAnywhere (currentPath : Run σ Path) currentPath := by
  intro m hm
  refine .get_bind ?_
  cases m.running.stack with
  | nil => exact sameAt_pure hm _
  | cons a stack => exact sameAt_pure hm _

/-- Something is made that has no scope. -/
theorem sameAt_leave {made : Value × Heap} (hm : P.heap m.heap)
    (hmade : made.2.scopes = m.heap.scopes) :
    P.SameAt (modifyHeap (fun _ => made.2) >>= fun _ => pure made.1)
      (modifyHeap (fun _ => made.2) >>= fun _ => pure made.1) m :=
  (sameAt_modifyHeap (P.of_scopes hm hmade)).bind_pure _

section

variable (host : Host σ)

theorem same_fail (fault : RuntimeFault) : P.Same (fail host fault : Run σ α) (fail host fault) := by
  intro m hm hs
  refine .of_eq rfl hm (.refl m) ?_
  rintro _ ⟨⟩
  refine P.fault _ _ hs ?_
  simp only [Run.frames, List.map_map, Function.comp_def]

theorem same_failAt (pos : Pos) (fault : RuntimeFault) :
    P.Same (failAt host pos fault : Run σ α) (failAt host pos fault) :=
  (sameAnywhere_setPos pos).same.bind fun _ => same_fail host fault

end

/-! ## New scopes -/

/-- What is made last is not singled out. -/
theorem Same.newScope_bind {f g : ScopeRef → Run σ β} (parent : Option ScopeRef)
    (h : ∀ q, ¬ P.kept q → P.Same (f q) (g q)) :
    P.Same (onHeap (·.newScope parent) >>= f) (onHeap (·.newScope parent) >>= g) := by
  intro m hm hs
  have hnew : P.SameAt (onHeap (·.newScope parent) : Run σ ScopeRef) (onHeap (·.newScope parent)) m :=
    sameAnywhere_onHeap (fun _ => P.newScope parent) m hm
  refine hnew.bind fun q hq => ?_
  cases hq
  refine h _ (fun hkept => ?_) _ hnew.heap hs
  exact lt_irrefl _ (P.made hm hkept)

theorem heap_hoistAll {scope : ScopeRef} (hscope : ¬ P.kept scope) (path : Path) (stmts : List Stmt)
    {h : Heap} (hh : P.heap h) : P.heap (hoistAll stmts scope path h) := by
  unfold hoistAll
  induction stmts generalizing h with
  | nil => exact hh
  | cons s stmts ih =>
    rw [List.foldl_cons]
    refine ih ?_
    split
    · split
      · exact P.hoist _ _ _ hh hscope
      · exact hh
    · exact hh

/-- The functions of a block are declared in a new scope. -/
theorem same_declared {scope : ScopeRef} (hscope : ¬ P.kept scope) (stmts : List Stmt)
    (h : P.Same x y) :
    P.Same (currentPath >>= fun path => modifyHeap (hoistAll stmts scope path) >>= fun _ => x)
      (currentPath >>= fun path => modifyHeap (hoistAll stmts scope path) >>= fun _ => y) :=
  sameAnywhere_currentPath.same.bind fun path =>
    (sameAnywhere_modifyHeap fun _ => heap_hoistAll hscope path stmts).same.bind fun _ => h

theorem heap_arguments {scope : ScopeRef} (hscope : ¬ P.kept scope) (params : List (String × Nat))
    (args : List Value) {h : Heap} (hh : P.heap h) :
    P.heap (params.foldl (fun h (param, i) => h.define scope param (args.getD i .nil)) h) := by
  induction params generalizing h with
  | nil => exact hh
  | cons param params ih => exact ih (P.define _ _ hh hscope)

/-! ## Calls and bodies -/

theorem SameAt.within {running : Running} (h : P.SameAt x y { m with running }) :
    P.SameAt (Run.within running x) (Run.within running y) m :=
  h.of_run (fun n => { n with running := m.running }) (Run.run_within running x m)
    (Run.run_within running y m) (fun _ => rfl) fun _ hn => .of_eq hn.nesting rfl

theorem SameAt.inActivation {a : Activation}
    (h : P.SameAt x y { m with running := { m.running with stack := a :: m.running.stack } }) :
    P.SameAt (Run.inActivation a x) (Run.inActivation a y) m :=
  .get_bind (.within h)

theorem Same.inActivation (name : String) (path : Path) (pos : Pos) (h : P.Same x y) :
    P.Same (Run.inActivation ⟨some name, path, pos⟩ x) (Run.inActivation ⟨some name, path, pos⟩ y) :=
  fun _ hm hs => .inActivation (h _ hm (P.call name path pos hs))

/-- A module body that is asked for when as many calls are under way as there may be is not started. -/
theorem run_runBody_refused (host : Host σ) (path : Path) (x : Run σ Flow)
    (h : maxCalls ≤ m.nesting.calls) :
    (runBody host path x).run m =
      (Run.within ⟨m.nesting.calls, []⟩ (fail host .tooManyCalls)).run m := by
  have hbody : (if maxCalls ≤ m.nesting.calls then fail host .tooManyCalls
      else Run.inActivation ⟨none, path, ⟨0, 0⟩⟩ x >>= fun _ => pure () : Run σ Unit) =
        fail host .tooManyCalls := if_pos h
  rw [← hbody]
  rfl

theorem sameAnywhere_runBody (host : Host σ) (path : Path) {x y : Run σ Flow} (h : P.Same x y) :
    P.SameAnywhere (runBody host path x) (runBody host path y) := by
  intro m hm
  refine .get_bind (.within ?_)
  by_cases hcalls : maxCalls ≤ m.nesting.calls
  · rw [if_pos hcalls, if_pos hcalls]
    refine .of_eq rfl hm (.refl _) ?_
    rintro _ ⟨⟩
    exact P.refused
  · rw [if_neg hcalls, if_neg hcalls]
    have hbody : P.SameAt (Run.inActivation ⟨none, path, ⟨0, 0⟩⟩ x)
        (Run.inActivation ⟨none, path, ⟨0, 0⟩⟩ y) { m with running := ⟨m.nesting.calls, []⟩ } :=
      .inActivation (h _ hm (P.body path _))
    exact hbody.bind_pure ()

/-- The nesting on record is another one for as long as a computation runs. -/
theorem SameAt.recorded (nesting : Running → Nesting)
    (h : P.SameAt x y { m with nesting := nesting m.running }) :
    P.SameAt
      (do
        let outer := (← get).nesting
        modify fun m => { m with nesting := nesting m.running }
        let outcome ← Run.observe x
        modify fun m => { m with nesting := outer }
        Run.ofExcept outcome)
      (do
        let outer := (← get).nesting
        modify fun m => { m with nesting := nesting m.running }
        let outcome ← Run.observe y
        modify fun m => { m with nesting := outer }
        Run.ofExcept outcome) m := by
  have hrun (z : Run σ α) :
      (do
        let outer := (← get).nesting
        modify fun m => { m with nesting := nesting m.running }
        let outcome ← Run.observe z
        modify fun m => { m with nesting := outer }
        Run.ofExcept outcome : Run σ α).run m =
      (z.outcome { m with nesting := nesting m.running },
        { z.after { m with nesting := nesting m.running } with nesting := m.nesting }) := by
    change (Run.ofExcept (z.outcome { m with nesting := nesting m.running })).run _ = _
    cases z.outcome { m with nesting := nesting m.running } <;> rfl
  exact h.of_run (fun n => { n with nesting := m.nesting }) (hrun x) (hrun y) (fun _ => rfl)
    fun _ hn => ⟨rfl, hn.base, hn.stack⟩

end Promise

/-! ## Operations that leave the scopes alone -/

namespace Heap

variable {h h' : Heap} {v : Value} {made : Value × Heap}

theorem scopes_property? {name : String} (hread : h.property? v name = some made) :
    made.2.scopes = h.scopes := by
  cases v with
  | require r =>
    simp only [property?] at hread
    split at hread <;> cases hread <;> rfl
  | object | list | str | fn | native =>
    cases hread
    rfl
  | nil | bool | num => cases hread

theorem scopes_setItem? {r : ListRef} {n : Nat} (hset : h.setItem? r n v = some h') :
    h'.scopes = h.scopes := by
  unfold setItem? at hset
  split at hset <;> cases hset
  rfl

/-- If a native function gives a result, the scopes are as before. -/
def LeavesScopes (h : Heap) (o : Except ArgumentError (Value × Heap)) : Prop :=
  ∀ made, o = .ok made → made.2.scopes = h.scopes

theorem LeavesScopes.error (e : ArgumentError) : h.LeavesScopes (.error e) := nofun

theorem leavesScopes_only (h : Heap) (v : Value) : h.LeavesScopes (.ok (v, h)) := by
  rintro _ ⟨⟩
  rfl

theorem LeavesScopes.bind {α : Type} (x : Except ArgumentError α)
    {f : α → Except ArgumentError (Value × Heap)} (hf : ∀ a, h.LeavesScopes (f a)) :
    h.LeavesScopes (x >>= f) := by
  cases x with
  | ok a => exact hf a
  | error e => exact .error e

theorem leavesScopes_join (h : Heap) (args : List Value) :
    h.LeavesScopes (Native.join.apply args h) := by
  refine .bind (Native.listArg h args) fun items => ?_
  split
  · exact h.leavesScopes_only _
  · exact h.leavesScopes_only _
  · exact .bind (Native.stringArg args 1) fun sep => h.leavesScopes_only _

theorem leavesScopes_apply (h : Heap) (f : Native) (args : List Value) :
    h.LeavesScopes (f.apply args h) := by
  cases f with
  | join => exact h.leavesScopes_join args
  | importDefault =>
    simp only [Native.apply]
    split <;> exact h.leavesScopes_only _
  | split =>
    refine .bind _ fun text => .bind _ fun sep => ?_
    rintro _ ⟨⟩
    rfl
  | concat => exact h.leavesScopes_only _
  | repeat_ =>
    refine .bind _ fun text => .bind _ fun count => ?_
    split
    · split
      · exact .bind _ fun text => h.leavesScopes_only _
      · exact .error _
    · exact .error _
  | includes => exact .bind _ fun text => .bind _ fun part => h.leavesScopes_only _
  | pow => exact .bind _ fun base => .bind _ fun exponent => h.leavesScopes_only _
  | extname =>
    refine .bind _ fun text => ?_
    split <;> exact h.leavesScopes_only _
  | min | max | pathJoin | upper | lower | trim | basename | dirname | floor | ceil | round | abs
  | sqrt => exact .bind _ fun x => h.leavesScopes_only _

end Heap

namespace Promise

/-! ## Phrases -/

variable {P : Promise} {σ : Type} {host : Host σ} {M M' : Monitor}

/-- The evaluators do the same. -/
def Evaluates (P : Promise) (ev ev' : Evaluator σ) : Prop :=
  ev.used = ev'.used ∧ ∀ e scope, P.Same (ev.eval e scope) (ev'.eval e scope)

/-- The parts of a phrase do the same. -/
structure SameParts (P : Promise) (parts parts' : Parts σ) : Prop where
  evaluates : P.Evaluates parts.evaluator parts'.evaluator
  body : ∀ stmts scope, ¬ P.kept scope → P.Same (parts.body stmts scope) (parts'.body stmts scope)
  request : ∀ specifier dir, P.SameAnywhere (parts.request specifier dir) (parts'.request specifier dir)

section

variable {ev ev' : Evaluator σ} (h : P.Evaluates ev ev')

include h

theorem same_assignField (object : Expr) (name : String) (value : Value) (at_ : Pos) (scope : ScopeRef) :
    P.Same (assignTo host ev (.member at_ object name) value scope)
      (assignTo host ev' (.member at_ object name) value scope) := by
  refine (h.2 object scope).bind fun target => ?_
  cases target with
  | object r => exact (sameAnywhere_setField _ _ _).same
  | nil | bool | num | str | list | fn | native | require => exact same_fail host _

theorem same_assignIndex (object index : Expr) (value : Value) (at_ : Pos) (scope : ScopeRef) :
    P.Same (assignTo host ev (.index at_ object index) value scope)
      (assignTo host ev' (.index at_ object index) value scope) := by
  refine (h.2 object scope).bind fun target => (h.2 index scope).bind fun key => ?_
  have hrefuse : P.Same (fail host (.notIndexable target.typeName key.typeName) : Run σ Unit)
      (fail host (.notIndexable target.typeName key.typeName)) := same_fail host _
  cases target with
  | object r =>
    cases key with
    | str key => exact (sameAnywhere_setField _ _ _).same
    | nil | bool | num | list | object | fn | native | require => exact hrefuse
  | list r =>
    cases key with
    | num x =>
      dsimp only
      cases indexOf? x with
      | none => exact hrefuse
      | some n =>
        refine fun m hm hs => .heap_bind ?_
        cases hset : m.heap.setItem? r n value with
        | none => exact same_fail host _ m hm hs
        | some heap => exact sameAt_modifyHeap (P.of_scopes hm (Heap.scopes_setItem? hset))
    | nil | bool | str | list | object | fn | native | require => exact hrefuse
  | nil | bool | num | str | fn | native | require => exact hrefuse

/-- An assignment whose target is no name. -/
theorem same_assignPlace {target : Expr} (htarget : ∀ at_ name, target ≠ .ident at_ name) (value : Value)
    (scope : ScopeRef) :
    P.Same (assignTo host ev target value scope) (assignTo host ev' target value scope) := by
  cases target with
  | ident at_ name => exact absurd rfl (htarget at_ name)
  | member at_ object name => exact same_assignField h object name value at_ scope
  | index at_ object index => exact same_assignIndex h object index value at_ scope
  | nil | bool | num | str | list | object | fn | call | unary | binary => exact same_fail host _

theorem same_evalList (es : List Expr) (scope : ScopeRef) :
    P.Same (es.mapM (ev.eval · scope)) (es.mapM (ev'.eval · scope)) := by
  induction es with
  | nil => exact same_pure _
  | cons e es ih =>
    simp only [List.mapM_cons]
    exact (h.2 e scope).bind fun _ => ih.bind fun _ => same_pure _

theorem same_evalFields (fields : List (String × Expr)) (scope : ScopeRef) (r : ObjectRef) :
    P.Same (evalFields ev scope r fields) (evalFields ev' scope r fields) := by
  induction fields with
  | nil => exact same_pure _
  | cons field fields ih =>
    refine (h.2 field.2 scope).bind fun value => ?_
    exact (sameAnywhere_setField _ _ _).same.bind fun _ => ih

/-! ### Statements under monitors -/

end

theorem Allows.same_write (hM : P.Allows M M') {found : Option ScopeRef} {name : String}
    {x y : Run σ Unit} {m : Machine σ} (hm : P.heap m.heap)
    (hxy : (∀ q, found = some q → M'.stop? q name = none) → P.SameAt x y m) :
    P.SameAt (M.write found name x) (M'.write found name y) m := by
  unfold Monitor.write
  cases found with
  | none => exact hxy nofun
  | some q =>
    rw [Option.bind_some, Option.bind_some]
    cases hstop : M'.stop? q name with
    | some e =>
      rcases hM.stop q name with heq | ⟨e', he', hended⟩
      · rw [heq, hstop]
        exact sameAnywhere_throw (hM.stopped hstop) m hm
      · rw [hstop] at he'
        cases he'
        refine ⟨.inr ⟨e, hended, rfl⟩, hm, .refl m, ?_⟩
        rintro _ ⟨⟩
        exact hM.stopped hstop
    | none =>
      have hsame : M.stop? q name = none := by
        rcases hM.stop q name with heq | ⟨e, he, -⟩
        · rw [heq, hstop]
        · rw [hstop] at he
          cases he
      rw [hsame]
      refine hxy fun q' hq' => ?_
      cases hq'
      exact hstop

section

variable {ev ev' : Evaluator σ}

/-- An assignment to a name that is not stopped. -/
theorem Allows.sameAt_assignName (hM : P.Allows M M') {at_ : Pos} {name : String} {value : Value}
    {scope : ScopeRef} {m : Machine σ} (hm : P.heap m.heap) (hs : P.stack m.running.stack)
    (hstop : ∀ q, m.heap.holder? scope name = some q → M'.stop? q name = none) :
    P.SameAt (assignTo host ev (.ident at_ name) value scope)
      (assignTo host ev' (.ident at_ name) value scope) m := by
  refine .heap_bind ?_
  cases hassign : m.heap.assign scope name value with
  | none => exact same_fail host _ m hm hs
  | some heap =>
    obtain ⟨q, hq, -⟩ := Heap.exists_of_assign hassign
    exact sameAt_modifyHeap (hM.assign hm hq (hstop q hq) hassign)

theorem Allows.same_assign (hM : P.Allows M M') (h : P.Evaluates ev ev') (pos : Pos)
    (target value : Expr) (scope : ScopeRef) :
    P.Same (M.execStmt host ev (.assign pos target value) scope)
      (M'.execStmt host ev' (.assign pos target value) scope) := by
  cases target with
  | ident at_ name =>
    simp only [Monitor.execStmt]
    refine (sameAnywhere_setPos pos).same.bind fun _ => (h.2 value scope).bind fun v => ?_
    intro m hm hs
    exact .heap_bind (.bind_pure (hM.same_write hm fun hstop => hM.sameAt_assignName hm hs hstop) _)
  | nil | bool | num | str | list | object | fn | call | member | index | unary | binary =>
    simp only [Monitor.execStmt, execStmt]
    refine (sameAnywhere_setPos pos).same.bind fun _ => (h.2 value scope).bind fun v => ?_
    exact (same_assignPlace h (by simp) v scope).bind fun _ => same_pure _

mutual

/-- Statements do the same under both monitors. -/
theorem Allows.same_execStmt (hM : P.Allows M M') (h : P.Evaluates ev ev') :
    ∀ (s : Stmt) (scope : ScopeRef),
      P.Same (M.execStmt host ev s scope) (M'.execStmt host ev' s scope)
  | .declare pos name value, scope => by
    simp only [Monitor.execStmt]
    refine (sameAnywhere_setPos pos).same.bind fun _ => (h.2 value scope).bind fun v => ?_
    refine Same.bind (fun m hm _ => hM.same_write hm fun hstop => ?_) fun _ => same_pure _
    exact sameAt_modifyHeap (hM.define v hm (hstop scope rfl))
  | .assign pos target value, scope => hM.same_assign h pos target value scope
  | .if_ pos cond thenBody none, scope => by
    have hthen := hM.same_execList h thenBody
    simp only [Monitor.execStmt]
    refine (sameAnywhere_setPos pos).same.bind fun _ => (h.2 cond scope).bind fun v => ?_
    refine same_ite (fun _ => ?_) fun _ => same_pure _
    exact .newScope_bind _ fun q hq => same_declared hq thenBody (hthen q)
  | .if_ pos cond thenBody (some elseBody), scope => by
    have hthen := hM.same_execList h thenBody
    have helse := hM.same_execList h elseBody
    simp only [Monitor.execStmt]
    refine (sameAnywhere_setPos pos).same.bind fun _ => (h.2 cond scope).bind fun v => ?_
    refine same_ite (fun _ => ?_) fun _ => ?_
    · exact .newScope_bind _ fun q hq => same_declared hq thenBody (hthen q)
    · exact .newScope_bind _ fun q hq => same_declared hq elseBody (helse q)
  | .fn pos _, scope => by
    simp only [Monitor.execStmt, execStmt]
    exact (sameAnywhere_setPos pos).same.bind fun _ => same_pure _
  | .return_ pos none, scope => by
    simp only [Monitor.execStmt, execStmt]
    exact (sameAnywhere_setPos pos).same.bind fun _ => same_pure _
  | .return_ pos (some value), scope => by
    simp only [Monitor.execStmt, execStmt]
    exact (sameAnywhere_setPos pos).same.bind fun _ => (h.2 value scope).bind fun _ => same_pure _
  | .throw_ pos value, scope => by
    simp only [Monitor.execStmt, execStmt]
    refine (sameAnywhere_setPos pos).same.bind fun _ => (h.2 value scope).bind fun v => ?_
    exact fun m hm hs => .heap_bind (same_failAt host pos _ m hm hs)
  | .expr pos value, scope => by
    simp only [Monitor.execStmt, execStmt]
    exact (sameAnywhere_setPos pos).same.bind fun _ => (h.2 value scope).bind fun _ => same_pure _

theorem Allows.same_execList (hM : P.Allows M M') (h : P.Evaluates ev ev') :
    ∀ (stmts : List Stmt) (scope : ScopeRef),
      P.Same (M.execList host ev stmts scope) (M'.execList host ev' stmts scope)
  | [], _ => by
    simp only [Monitor.execList]
    exact same_pure _
  | s :: ss, scope => by
    simp only [Monitor.execList]
    refine (hM.same_execStmt h s scope).bind fun flow => ?_
    cases flow with
    | normal => exact hM.same_execList h ss scope
    | returned value => exact same_pure _

end

theorem Allows.same_execBlock (hM : P.Allows M M') (h : P.Evaluates ev ev') (stmts : List Stmt)
    {scope : ScopeRef} (hscope : ¬ P.kept scope) :
    P.Same (M.execBlock host ev stmts scope) (M'.execBlock host ev' stmts scope) :=
  same_declared hscope stmts (hM.same_execList h stmts scope)

theorem Allows.runners_runProgram (hM : P.Allows M M') (h : P.Evaluates ev ev') :
    P.Runners (M.runProgram host ev) (M'.runProgram host ev') := fun program _ path hscope =>
  sameAnywhere_runBody host path (hM.same_execBlock h program hscope)

end

/-! ### Calls -/

section

variable {parts parts' : Parts σ} (h : P.SameParts parts parts')

include h

theorem SameParts.runClosure (f : Closure) (args : List Value) :
    P.Same (runClosureBy parts f args) (runClosureBy parts' f args) := by
  refine .newScope_bind _ fun q hq => ?_
  refine (sameAnywhere_modifyHeap fun _ => heap_arguments hq _ args).same.bind fun _ => ?_
  refine ((h.body f.function.body q hq).inActivation _ _ _).bind fun flow => ?_
  cases flow <;> exact same_pure _

theorem SameParts.callClosure (f : Closure) (args : List Value) :
    P.Same (callClosureBy host parts f args) (callClosureBy host parts' f args) := by
  intro m hm hs
  refine .get_bind ?_
  exact same_ite (fun _ => same_fail host _) (fun _ => h.runClosure f args) m hm hs

variable (hh : P.Hosts host)

include hh

theorem SameParts.callRequire (r : Require) (specifier : String) :
    P.Same (callRequireBy host parts r specifier) (callRequireBy host parts' r specifier) := by
  refine same_ite (fun _ => ?_) fun _ m hm _ => ?_
  · exact (hh.find specifier r.dir).same.bind fun _ => same_pure _
  · have hused : parts.used = parts'.used := h.evaluates.1
    simp only [hused]
    exact .recorded (fun r => ⟨r.calls + 1, parts'.used⟩) (h.request specifier r.dir _ hm)

theorem SameParts.callValue (callee : Value) (args : List Value) :
    P.Same (callValueBy host parts callee args) (callValueBy host parts' callee args) := by
  cases callee with
  | fn f => exact h.callClosure f args
  | require r =>
    unfold callValueBy
    cases args.head? with
    | none => exact same_fail host _
    | some value =>
      cases value with
      | str specifier => exact h.callRequire hh r specifier
      | nil | bool | num | list | object | fn | native | require => exact same_fail host _
  | native f identity =>
    refine fun m hm hs => .heap_bind ?_
    cases happly : f.apply args m.heap with
    | ok made => exact sameAt_leave hm (m.heap.leavesScopes_apply f args made happly)
    | error e => exact same_fail host _ m hm hs
  | nil | bool | num | str | list | object => exact same_fail host _

end

/-! ### Expressions -/

theorem same_readProperty {v : Value} {name : String} {x y : Run σ Value} (hxy : P.Same x y) :
    P.Same
      (Run.heap >>= fun heap => match heap.property? v name with
        | some (value, h) => modifyHeap (fun _ => h) >>= fun _ => pure value
        | none => x)
      (Run.heap >>= fun heap => match heap.property? v name with
        | some (value, h) => modifyHeap (fun _ => h) >>= fun _ => pure value
        | none => y) := by
  refine fun m hm hs => .heap_bind ?_
  cases hread : m.heap.property? v name with
  | none => exact hxy m hm hs
  | some made => exact sameAt_leave hm (Heap.scopes_property? hread)

theorem same_readIndex (object index : Value) (pos : Pos) :
    P.Same (readIndex host object index pos) (readIndex host object index pos) := by
  have hrefuse : P.Same (failAt host pos (.notIndexable object.typeName index.typeName) : Run σ Value)
      (failAt host pos (.notIndexable object.typeName index.typeName)) := same_failAt host pos _
  unfold readIndex
  dsimp only
  split
  · split
    · exact fun m hm _ => .heap_bind (sameAt_pure hm _)
    · exact hrefuse
  · split
    · split <;> exact same_pure _
    · exact hrefuse
  · exact same_readProperty hrefuse
  · exact hrefuse

theorem same_readBinary (host : Host σ) (op : BinaryOp) (left right : Value) (pos : Pos) :
    P.Same
      (Run.heap >>= fun heap => match applyBinary heap op left right with
        | some value => pure value
        | none => failAt host pos (.unsupported op left.typeName right.typeName))
      (Run.heap >>= fun heap => match applyBinary heap op left right with
        | some value => pure value
        | none => failAt host pos (.unsupported op left.typeName right.typeName)) := by
  refine fun m hm hs => .heap_bind ?_
  cases applyBinary m.heap op left right with
  | some value => exact sameAt_pure hm _
  | none => exact same_failAt host pos _ m hm hs

theorem Allows.sameParts (hM : P.Allows M M') (hh : P.Hosts host) {ev ev' : Evaluator σ}
    (h : P.Evaluates ev ev') : P.SameParts (M.parts host ev) (M'.parts host ev') where
  evaluates := h
  body stmts _ hscope := hM.same_execBlock h stmts hscope
  request := hh.require (hM.runners_runProgram h)

theorem Allows.same_evalExpr (hM : P.Allows M M') (hh : P.Hosts host) {ev ev' : Evaluator σ}
    (h : P.Evaluates ev ev') (e : Expr) (scope : ScopeRef) :
    P.Same (M.evalExpr host ev e scope) (M'.evalExpr host ev' e scope) := by
  cases e with
  | nil | bool | num | str => exact same_pure _
  | ident pos name =>
    refine fun m hm hs => .heap_bind ?_
    rw [Monitor.lookup_congr (fun q => hM.ownValue q name hm)]
    cases M'.lookup m.heap scope name with
    | some value => exact sameAt_pure hm _
    | none => exact same_failAt host pos _ m hm hs
  | list pos items =>
    refine (same_evalList h items scope).bind fun values => ?_
    exact (sameAnywhere_onHeap fun _ hh => P.of_scopes hh rfl).same.bind fun _ => same_pure _
  | object pos fields =>
    refine (sameAnywhere_onHeap fun _ hh => P.of_scopes hh rfl).same.bind fun r => ?_
    exact (same_evalFields h fields scope r).bind fun _ => same_pure _
  | fn pos function => exact sameAnywhere_currentPath.same.bind fun _ => same_pure _
  | call pos callee args =>
    refine (h.2 callee scope).bind fun callee => (same_evalList h args scope).bind fun args => ?_
    exact (sameAnywhere_setPos pos).same.bind fun _ => (hM.sameParts hh h).callValue hh callee args
  | member pos object name =>
    exact (h.2 object scope).bind fun value => same_readProperty (same_failAt host pos _)
  | index pos object index =>
    refine (h.2 object scope).bind fun value => (h.2 index scope).bind fun key => ?_
    exact same_readIndex value key pos
  | unary pos op operand =>
    refine (h.2 operand scope).bind fun value => ?_
    cases op with
    | not => exact same_pure _
    | neg =>
      cases value with
      | num x => exact same_pure _
      | nil | bool | str | list | object | fn | native | require => exact same_failAt host pos _
  | binary pos op lhs rhs =>
    refine (h.2 lhs scope).bind fun left => ?_
    have hright := h.2 rhs scope
    have happly := hright.bind fun right => same_readBinary host op left right pos
    cases op with
    | and => exact same_ite (fun _ => hright) fun _ => same_pure _
    | or => exact same_ite (fun _ => same_pure _) fun _ => hright
    | eq | notEq | add | sub | mul | div | rem | lt | ltEq | gt | gtEq => exact happly

/-! ### Whole runs -/

/-- Evaluation does the same under both monitors, whatever is left of the budget. -/
theorem Allows.same_evaluator (hM : P.Allows M M') (hh : P.Hosts host) (budget used : Nat) :
    P.Evaluates (M.evaluator host budget used) (M'.evaluator host budget used) := by
  induction budget generalizing used with
  | zero => exact ⟨rfl, fun e _ => same_failAt host e.pos _⟩
  | succ budget ih => exact ⟨rfl, hM.same_evalExpr hh (ih (used + 1))⟩

/-- Module bodies do the same under both monitors. -/
theorem Allows.runners_runModule (hM : P.Allows M M') (hh : P.Hosts host) :
    P.Runners (M.runModule host) (M'.runModule host) := fun program scope path hscope m hm =>
  .get_bind (hM.runners_runProgram (hM.same_evaluator hh _ _) program scope path hscope m hm)

end Promise

end Hotload
