import Mathlib
import Hotload.Proofs.Evaluation.Placement

/-!
# What runs abide by

A discipline says which code belongs where and what errors may tell, as far as the heap and the host
have come. If all is where it belongs when a run starts, it is so when the run ends: code runs only in
scopes that it belongs to, new function values are made only there, and an error tells of calls that
are at positions of code of their modules.

* `Discipline`: what belongs where, and what holds of the host.
* `Discipline.Abides`: a computation keeps to a discipline, from a state on.
* `Discipline.Hosts`: what is left to show of a host.
* `Discipline.abides_evalExpr` and so on: one lemma for each function of the evaluator.
* `Discipline.runners_runModule`, `Discipline.abides_callFromOutside`: whole runs.
-/

namespace Hotload

open Syntax (Pos Expr Stmt Function BinaryOp)
open Run (modifyHeap onHeap setPos currentPath fail failAt)

/-- What a machine holds. The calls under way do not count. -/
abbrev Held (σ : Type) := Heap × World × σ

/-- What the machine holds. -/
def Machine.held {σ : Type} (m : Machine σ) : Held σ := (m.heap, m.world, m.host)

/-- What belongs where. The heap may grow, and code that belongs to a scope belongs to the scopes
within it. -/
structure Discipline (σ : Type) where
  place : Held σ → Placement
  /-- What holds of the host. -/
  inv : Held σ → Prop
  later : Held σ → Held σ → Prop
  /-- An error tells the truth. -/
  fault : Held σ → LoadError → Prop
  refl : ∀ s, later s s
  trans : ∀ {s t u}, later s t → later t u → later s u
  mono : ∀ {s t}, later s t → place s ≤ place t
  closed : ∀ {s r p f}, place s r p (.function f) → ∀ x ∈ f.fragments, place s r p x
  grow : ∀ {h h' e}, inv (h, e) → h.Shelters h' → later (h, e) (h', e) ∧ inv (h', e)
  inner : ∀ {h h' e r q p x}, place (h, e) r p x → h.Shelters h' → q.index < h'.scopes.size →
    (h'.scope q).parent = some r → place (h', e) q p x

namespace Discipline

variable {σ α β : Type} (D : Discipline σ)

/-- All is where it belongs. -/
structure Holds (s : Held σ) : Prop where
  inv : D.inv s
  heap : s.1.Placed (D.place s)

/-- A later state in which all is where it belongs. -/
structure Follows (m m' : Machine σ) : Prop where
  later : D.later m.held m'.held
  holds : D.Holds m'.held

/-- The code belongs to a scope and to the path of a module. -/
def Runs (m : Machine σ) (r : ScopeRef) (p : Path) (xs : List Fragment) : Prop :=
  ∀ x ∈ xs, D.place m.held r p x

/-- The value is a function only of code that belongs to its scope. -/
abbrev Valued (m : Machine σ) (v : Value) : Prop := v.Placed (D.place m.held)

/-- The call is at a position of code of its module. -/
def Stood (m : Machine σ) (a : Activation) : Prop := ∃ r, D.place m.held r a.path (.position a.pos)

/-- All calls under way are at positions of code of their modules. -/
def Stands (m : Machine σ) : Prop := ∀ a ∈ m.running.stack, D.Stood m a

/-- Code of a module is under way, and all calls around it stand. -/
def Called (p : Path) (m : Machine σ) : Prop :=
  ∃ a outer, m.running.stack = a :: outer ∧ a.path = p ∧ ∀ b ∈ outer, D.Stood m b

/-- Code of a module is under way at one of its positions. -/
def In (p : Path) (m : Machine σ) : Prop :=
  ∃ a outer, m.running.stack = a :: outer ∧ a.path = p ∧ D.Stands m

/-- From a state on, a computation keeps all where it belongs, and its error tells the truth. -/
structure Abides (Q : Machine σ → α → Prop) (x : Run σ α) (m : Machine σ) : Prop where
  follows : D.Follows m (x.after m)
  ok : ∀ a, x.outcome m = .ok a → Q (x.after m) a
  error : ∀ e, x.outcome m = .error e → D.fault (x.after m).held e

variable {D} {m m' m'' : Machine σ} {p : Path} {r : ScopeRef} {v w : Value} {xs ys : List Fragment}
  {Q : Machine σ → α → Prop} {Q' : Machine σ → β → Prop} {x : Run σ α} {f : α → Run σ β}

/-! ## Later states -/

theorem Holds.here (hm : D.Holds m.held) : D.Follows m m := ⟨D.refl _, hm⟩

theorem Follows.trans (h : D.Follows m m') (h' : D.Follows m' m'') : D.Follows m m'' :=
  ⟨D.trans h.later h'.later, h'.holds⟩

theorem Follows.runs (h : D.Follows m m') (hx : D.Runs m r p xs) : D.Runs m' r p xs :=
  fun x hmem => D.mono h.later _ _ _ (hx x hmem)

theorem Follows.value (h : D.Follows m m') (hv : D.Valued m v) : D.Valued m' v :=
  hv.mono (D.mono h.later)

theorem Follows.values {vs : List Value} (h : D.Follows m m') (hvs : ∀ v ∈ vs, D.Valued m v) :
    ∀ v ∈ vs, D.Valued m' v :=
  fun v hv => h.value (hvs v hv)

theorem Follows.stood {a : Activation} (h : D.Follows m m') (ha : D.Stood m a) : D.Stood m' a :=
  ha.imp fun _ hr => D.mono h.later _ _ _ hr

theorem Follows.stands (h : D.Follows m m') (hm : D.Stands m) (hrunning : m'.running = m.running) :
    D.Stands m' :=
  fun a ha => h.stood (hm a (hrunning ▸ ha))

theorem Follows.inside (h : D.Follows m m') (hm : D.In p m) (hrunning : m'.running = m.running) :
    D.In p m' :=
  have ⟨a, outer, hstack, hp, hstands⟩ := hm
  ⟨a, outer, by rw [hrunning, hstack], hp, h.stands hstands hrunning⟩

theorem Follows.called (h : D.Follows m m') (hm : D.Called p m) (hrunning : m'.running = m.running) :
    D.Called p m' :=
  have ⟨a, outer, hstack, hp, hstands⟩ := hm
  ⟨a, outer, by rw [hrunning, hstack], hp, fun b hb => h.stood (hstands b hb)⟩

theorem In.stands (h : D.In p m) : D.Stands m :=
  have ⟨_, _, _, _, hstands⟩ := h
  hstands

theorem In.called (h : D.In p m) : D.Called p m :=
  have ⟨a, outer, hstack, hp, hstands⟩ := h
  ⟨a, outer, hstack, hp, fun b hb => hstands b (by rw [hstack]; exact List.mem_cons_of_mem _ hb)⟩

theorem stands_of_nil (h : m.running.stack = []) : D.Stands m := fun a ha => by
  rw [h] at ha
  cases ha

theorem runs_append : D.Runs m r p (xs ++ ys) ↔ D.Runs m r p xs ∧ D.Runs m r p ys :=
  List.forall_mem_append

theorem Runs.tail {y : Fragment} (h : D.Runs m r p (y :: ys)) : D.Runs m r p ys :=
  (List.forall_mem_cons.1 h).2

theorem Runs.head {y : Fragment} (h : D.Runs m r p (y :: ys)) : D.place m.held r p y :=
  (List.forall_mem_cons.1 h).1

/-- Only the heap changes, and what is on it stays where it belongs. -/
theorem Holds.follows_heap (hm : D.Holds m.held) {h : Heap} (hs : m.heap.Shelters h)
    (hh : h.Placed (D.place m.held)) : D.Follows m { m with heap := h } :=
  have ⟨hlater, hinv⟩ := D.grow hm.inv hs
  ⟨hlater, hinv, hh.mono (D.mono hlater)⟩

/-! ## Computations that abide -/

theorem Abides.pure {a : α} (hm : D.Holds m.held) (h : Q m a) : D.Abides Q (pure a) m :=
  ⟨hm.here, by rintro _ ⟨⟩; exact h, nofun⟩

theorem Abides.bind (h : D.Abides Q x m)
    (hf : ∀ m' a, D.Follows m m' → Q m' a → D.Abides Q' (f a) m') :
    D.Abides Q' (x >>= f) m := by
  cases hx : x.outcome m with
  | ok a =>
    obtain ⟨hfollows, hok, herror⟩ := hf _ a h.follows (h.ok a hx)
    refine ⟨?_, ?_, ?_⟩
    · rw [Run.after_bind_ok hx]
      exact h.follows.trans hfollows
    · rwa [Run.after_bind_ok hx, Run.outcome_bind_ok hx]
    · rwa [Run.after_bind_ok hx, Run.outcome_bind_ok hx]
  | error e =>
    refine ⟨?_, ?_, ?_⟩
    · rw [Run.after_bind_error hx]
      exact h.follows
    · rw [Run.outcome_bind_error hx]
      nofun
    · rw [Run.after_bind_error hx, Run.outcome_bind_error hx]
      rintro _ ⟨⟩
      exact h.error e hx

/-- What follows an outcome, whichever it is. -/
theorem Abides.observe_bind {g : Except LoadError α → Run σ β} (h : D.Abides Q x m)
    (hg : ∀ m' o, D.Follows m m' → (∀ a, o = .ok a → Q m' a) →
      (∀ e, o = .error e → D.fault m'.held e) → D.Abides Q' (g o) m') :
    D.Abides Q' (Run.observe x >>= g) m := by
  obtain ⟨hfollows, hok, herror⟩ := hg (x.after m) (x.outcome m) h.follows h.ok h.error
  exact ⟨h.follows.trans hfollows, hok, herror⟩

theorem Abides.mono {R : Machine σ → α → Prop} (h : D.Abides Q x m)
    (hQ : ∀ m' a, D.Follows m m' → Q m' a → R m' a) : D.Abides R x m :=
  ⟨h.follows, fun a ha => hQ _ a h.follows (h.ok a ha), h.error⟩

/-- A step that cannot fail. -/
theorem Abides.step {a : α} (hrun : x.run m = (.ok a, m')) (hfollows : D.Follows m m')
    (h : Q m' a) : D.Abides Q x m := by
  have hafter : x.after m = m' := congrArg Prod.snd hrun
  have houtcome : x.outcome m = .ok a := congrArg Prod.fst hrun
  refine ⟨hafter ▸ hfollows, ?_, ?_⟩
  · rw [houtcome, hafter]
    rintro _ ⟨⟩
    exact h
  · rw [houtcome]
    nofun

/-- A computation that does what another one does, but for the calls under way. -/
theorem Abides.of_run {R : Machine σ → β → Prop} {y : Run σ β} {n : Machine σ}
    (h : D.Abides Q' y n) (hn : n.held = m.held) {z : Run σ β}
    (hrun : z.run m = (y.outcome n, m')) (hheld : m'.held = (y.after n).held)
    (hR : ∀ b, Q' (y.after n) b → R m' b) : D.Abides R z m := by
  have hafter : z.after m = m' := by rw [Run.after, hrun]
  have houtcome : z.outcome m = y.outcome n := by rw [Run.outcome, hrun]
  refine ⟨?_, fun b hb => ?_, fun e he => ?_⟩
  · rw [hafter]
    exact ⟨by rw [hheld, ← hn]; exact h.follows.later, by rw [hheld]; exact h.follows.holds⟩
  · rw [hafter]
    exact hR b (h.ok b (houtcome ▸ hb))
  · rw [hafter, hheld]
    exact h.error e (houtcome ▸ he)

/-- A look at the state. -/
theorem Abides.get_bind {g : Machine σ → Run σ β} (h : D.Abides Q' (g m) m) :
    D.Abides Q' (get >>= g) m :=
  ⟨h.follows, h.ok, h.error⟩

/-- A look at the heap. -/
theorem Abides.heap_bind {g : Heap → Run σ β} (h : D.Abides Q' (g m.heap) m) :
    D.Abides Q' (Run.heap >>= g) m :=
  ⟨h.follows, h.ok, h.error⟩

/-- A look at the path of the innermost call. -/
theorem run_currentPath (m : Machine σ) :
    (currentPath : Run σ Path).run m = (match m.running.stack with
      | [] => Pure.pure ⟨""⟩
      | activation :: _ => Pure.pure activation.path : Run σ Path).run m := rfl

theorem stack_setPos (pos : Pos) (m : Machine σ) :
    ((setPos pos : Run σ Unit).after m).running.stack = match m.running.stack with
      | [] => []
      | activation :: stack => { activation with pos } :: stack := rfl

theorem Abides.currentPath_bind {g : Path → Run σ β} (hm : D.Called p m) (h : D.Abides Q' (g p) m) :
    D.Abides Q' (currentPath >>= g) m := by
  obtain ⟨a, outer, hstack, rfl, -⟩ := hm
  have hpath : (currentPath : Run σ Path).run m = (.ok a.path, m) := by
    rw [run_currentPath, hstack]
    rfl
  have hrun : (currentPath >>= g).run m = (g a.path).run m := Run.run_bind_ok
    (congrArg Prod.fst hpath) (congrArg Prod.snd hpath)
  exact h.of_run rfl hrun rfl fun _ hb => hb

theorem abides_modifyHeap (hm : D.Holds m.held) {g : Heap → Heap} (hs : m.heap.Shelters (g m.heap))
    (hh : (g m.heap).Placed (D.place m.held)) :
    D.Abides (fun m' _ => m'.running = m.running) (modifyHeap g) m :=
  .step rfl (hm.follows_heap hs hh) rfl

/-- A step that makes something on the heap. -/
theorem abides_onHeap (hm : D.Holds m.held) {g : Heap → α × Heap}
    (hs : m.heap.Shelters (g m.heap).2) (hh : (g m.heap).2.Placed (D.place m.held))
    (h : Q { m with heap := (g m.heap).2 } (g m.heap).1) : D.Abides Q (onHeap g) m :=
  .step rfl (hm.follows_heap hs hh) h

/-- A scope within another one. -/
theorem abides_newScope (hm : D.Holds m.held) (r : ScopeRef) :
    D.Abides (fun m' q => m'.running = m.running ∧
        ∀ p xs, D.Runs m r p xs → D.Runs m' q p xs) (onHeap (·.newScope (some r))) m := by
  have hs := (Heap.extends_newScope m.heap (some r)).shelters
  refine abides_onHeap hm hs (hm.heap.newScope _) ⟨rfl, fun p xs hx x hmem => ?_⟩
  refine D.inner (hx x hmem) hs (by simp [Heap.newScope]) ?_
  exact congrArg Scope.parent
    (Heap.getD_push_size m.heap.scopes ⟨[], [], some r⟩ ⟨[], [], none⟩)

/-- What an operation on the heap gives. -/
theorem Abides.leave {result : Value × Heap} (hm : D.Holds m.held)
    (h : m.heap.Yields (D.place m.held) result) :
    D.Abides (fun m' v => m'.running = m.running ∧ D.Valued m' v)
      (modifyHeap (fun _ => result.2) >>= fun _ => Pure.pure result.1) m :=
  have hfollows := hm.follows_heap h.shelters h.heap
  .step rfl hfollows ⟨rfl, hfollows.value h.value⟩

theorem abides_setPos (hm : D.Holds m.held) (hp : D.Called p m) {pos : Pos}
    (hpos : D.place m.held r p (.position pos)) :
    D.Abides (fun m' _ => D.In p m') (setPos pos) m := by
  obtain ⟨a, outer, hstack, rfl, houter⟩ := hp
  have hset : ((setPos pos : Run σ Unit).after m).running.stack = { a with pos } :: outer := by
    rw [stack_setPos, hstack]
  refine .step rfl ⟨D.refl _, hm⟩ ⟨{ a with pos }, outer, hset, rfl, fun b hb => ?_⟩
  replace hb : b ∈ { a with pos } :: outer := hset ▸ hb
  rcases List.mem_cons.1 hb with rfl | hb
  · exact ⟨r, hpos⟩
  · exact houter b hb

/-- A computation as part of another program under way. -/
theorem Abides.within {running : Running} {Q : Held σ → α → Prop}
    (h : D.Abides (fun m' a => Q m'.held a) x { m with running }) :
    D.Abides (fun m' a => m'.running = m.running ∧ Q m'.held a) (Run.within running x) m := by
  have hrun : (Run.within running x).run m =
      (x.outcome { m with running }, { x.after { m with running } with running := m.running }) :=
    Prod.ext (Run.outcome_ofExcept (x.outcome { m with running }) _)
      (Run.after_ofExcept (x.outcome { m with running }) _)
  exact Abides.of_run (m := m) (y := x) (z := Run.within running x)
    (R := fun m' a => m'.running = m.running ∧ Q m'.held a) h rfl hrun rfl fun _ hb => ⟨rfl, hb⟩

/-- A computation inside a further call. -/
theorem Abides.inActivation {a : Activation} {Q : Held σ → α → Prop}
    (h : D.Abides (fun m' b => Q m'.held b) x
      { m with running := { m.running with stack := a :: m.running.stack } }) :
    D.Abides (fun m' b => m'.running = m.running ∧ Q m'.held b) (Run.inActivation a x) m :=
  .get_bind h.within

/-! ## Hosts -/

variable (D)

/-- A runner of module bodies keeps to the discipline, if the bodies are run where they belong. -/
def Runners (run : Runner σ) : Prop :=
  ∀ {m : Machine σ} (program : List Stmt) {r : ScopeRef} {p : Path}, D.Holds m.held →
    D.Runs m r p (Stmt.fragmentsList program) →
    D.Abides (fun m' _ => m'.running = m.running) (run program r p) m

/-- The host keeps to the discipline. -/
structure Hosts (host : Host σ) : Prop where
  fault : ∀ {m}, D.Holds m.held → D.Stands m → ∀ fault,
    D.fault m.held (.runtime ⟨fault, Run.frames host m⟩)
  require : ∀ {run}, D.Runners run → ∀ {m} specifier dir, D.Holds m.held →
    D.Abides (fun m' v => m'.running = m.running ∧ D.Valued m' v)
      (host.require run specifier dir) m
  find : ∀ {m} specifier dir, D.Holds m.held →
    D.Abides (fun m' _ => m'.running = m.running) (host.find specifier dir) m

/-- Code of a module is under way, and a value was given. -/
def Gives (p : Path) (m : Machine σ) (v : Value) : Prop := D.In p m ∧ D.Valued m v

/-- The evaluator keeps to the discipline. -/
structure Evaluates (ev : Evaluator σ) : Prop where
  eval : ∀ {m r p} (e : Expr), D.Holds m.held → D.In p m → D.Runs m r p e.fragments →
    D.Abides (D.Gives p) (ev.eval e r) m

/-- What a statement returns is where it belongs. -/
def Flows (s : Held σ) : Flow → Prop
  | .normal => True
  | .returned v => v.Placed (D.place s)

/-- A statement has come to its end. -/
def Ends (p : Path) (m : Machine σ) (flow : Flow) : Prop := D.In p m ∧ D.Flows m.held flow

/-- Statements have come to their end. There may be none, so that the position is still the one that
the call began with. -/
def EndsList (p : Path) (m : Machine σ) (flow : Flow) : Prop := D.Called p m ∧ D.Flows m.held flow

variable {D} {host : Host σ} {ev : Evaluator σ}

theorem abides_fail (hh : D.Hosts host) (hm : D.Holds m.held) (hstands : D.Stands m)
    (fault : RuntimeFault) : D.Abides Q (fail host fault) m :=
  ⟨hm.here, nofun, by rintro _ ⟨⟩; exact hh.fault hm hstands fault⟩

theorem abides_failAt (hh : D.Hosts host) (hm : D.Holds m.held) (hp : D.Called p m) {pos : Pos}
    (hpos : D.place m.held r p (.position pos)) (fault : RuntimeFault) :
    D.Abides Q (failAt host pos fault) m :=
  (abides_setPos hm hp hpos).bind fun _ _ hf hin => abides_fail hh hf.holds hin.stands fault

/-! ## Statements -/

theorem hoistAll_fn (pos : Pos) (function : Function) (stmts : List Stmt) (r : ScopeRef) (p : Path)
    (h : Heap) : hoistAll (.fn pos function :: stmts) r p h =
      hoistAll stmts r p (match function.name with
        | some name => h.hoist r name function p
        | none => h) := rfl

theorem placed_hoistAll {K : Placement} {stmts : List Stmt} {h : Heap}
    (hx : ∀ x ∈ Stmt.fragmentsList stmts, K r p x) (hh : h.Placed K) :
    h.Shelters (hoistAll stmts r p h) ∧ (hoistAll stmts r p h).Placed K := by
  induction stmts generalizing h with
  | nil => exact ⟨.refl h, hh⟩
  | cons s stmts ih =>
    obtain ⟨hs, hrest⟩ := List.forall_mem_append.1 hx
    have hkept : ∀ {h' : Heap}, h.Shelters h' → h'.Placed K →
        h.Shelters (hoistAll stmts r p h') ∧ (hoistAll stmts r p h').Placed K := fun hsh hp =>
      (ih hrest hp).imp_left hsh.trans
    cases s with
    | fn pos function =>
      have hfunction : K r p (.function function) := by
        refine hs _ ?_
        rw [Stmt.fragments, Function.fragments_eq]
        simp
      rw [hoistAll_fn]
      cases function.name with
      | none => exact hkept (.refl h) hh
      | some name => exact hkept (h.shelters_hoist r name function p) (hh.hoist hfunction name)
    | declare | return_ | throw_ | if_ | assign | expr => exact hkept (.refl h) hh

theorem abides_hoistAll (hm : D.Holds m.held) {stmts : List Stmt}
    (hx : D.Runs m r p (Stmt.fragmentsList stmts)) :
    D.Abides (fun m' _ => m'.running = m.running) (modifyHeap (hoistAll stmts r p)) m :=
  have ⟨hs, hh⟩ := placed_hoistAll hx hm.heap
  abides_modifyHeap hm hs hh

theorem abides_assignTo (hh : D.Hosts host) (he : D.Evaluates ev) {target : Expr}
    (hm : D.Holds m.held) (hp : D.In p m) (hx : D.Runs m r p target.fragments)
    (hv : D.Valued m v) :
    D.Abides (fun m' _ => D.In p m') (assignTo host ev target v r) m := by
  cases target with
  | ident pos name =>
    refine .heap_bind ?_
    cases hassign : m.heap.assign r name v with
    | none => exact abides_fail hh hm hp.stands _
    | some h =>
      obtain ⟨hs, hplaced⟩ := hm.heap.assign hv hassign
      exact (abides_modifyHeap (g := fun _ => h) hm hs hplaced).mono fun m' _ hf hr => hf.inside hp hr
  | member pos object name =>
    refine (he.eval object hm hp hx.tail).bind fun m₁ w hf₁ hw => ?_
    cases w with
    | object o =>
      refine (abides_modifyHeap hf₁.holds (Heap.shelters_of_eq rfl)
        (hf₁.holds.heap.setField (hf₁.value hv) o name)).mono fun m' _ hf hr => hf.inside hw.1 hr
    | nil | bool | num | str | list | fn | native | require =>
      exact abides_fail hh hf₁.holds hw.1.stands _
  | index pos object index =>
    obtain ⟨hobject, hindex⟩ := runs_append.1 hx
    refine (he.eval object hm hp hobject.tail).bind fun m₁ w hf₁ hw => ?_
    refine (he.eval index hf₁.holds hw.1 (hf₁.runs hindex)).bind fun m₂ i hf₂ hi => ?_
    have hv₂ := hf₂.value (hf₁.value hv)
    have hrefuse : ∀ {Q : Machine σ → Unit → Prop} (fault : RuntimeFault),
        D.Abides Q (fail host fault) m₂ := abides_fail hh hf₂.holds hi.1.stands
    split
    · exact (abides_modifyHeap hf₂.holds (Heap.shelters_of_eq rfl)
        (hf₂.holds.heap.setField hv₂ _ _)).mono fun m' _ hf hr => hf.inside hi.1 hr
    · split
      · refine .heap_bind ?_
        split
        next h hset =>
          obtain ⟨hs, hplaced⟩ := hf₂.holds.heap.setItem hv₂ hset
          exact (abides_modifyHeap (g := fun _ => h) hf₂.holds hs hplaced).mono
            fun m' _ hf hr => hf.inside hi.1 hr
        next => exact hrefuse _
      · exact hrefuse _
    · exact hrefuse _
  | nil | bool | num | str | list | object | fn | call | unary | binary =>
    exact abides_fail hh hm hp.stands _

/-- A block whose functions are declared first. -/
theorem abides_declared (hm : D.Holds m.held) (hp : D.Called p m) {stmts : List Stmt}
    (hx : D.Runs m r p (Stmt.fragmentsList stmts)) {y : Run σ β}
    (hy : ∀ m', D.Follows m m' → D.Called p m' → D.Abides Q' y m') :
    D.Abides Q'
      (currentPath >>= fun path => modifyHeap (hoistAll stmts r path) >>= fun _ => y) m :=
  .currentPath_bind hp <| (abides_hoistAll hm hx).bind fun m₁ _ hf hr => hy m₁ hf (hf.called hp hr)

/-- A block in a scope of its own. -/
theorem abides_inner (hm : D.Holds m.held) (hp : D.In p m) {stmts : List Stmt}
    (hx : D.Runs m r p (Stmt.fragmentsList stmts))
    (hlist : ∀ {m' : Machine σ} {q : ScopeRef}, D.Holds m'.held → D.In p m' →
      D.Runs m' q p (Stmt.fragmentsList stmts) →
      D.Abides (D.Ends p) (execList host ev stmts q) m') :
    D.Abides (D.Ends p)
      (do
        let inner ← onHeap (·.newScope (some r))
        let path ← currentPath
        modifyHeap (hoistAll stmts inner path)
        execList host ev stmts inner) m := by
  refine (abides_newScope hm r).bind fun m₁ q hf₁ ⟨hr₁, hinner⟩ => ?_
  have hp₁ := hf₁.inside hp hr₁
  have hx₁ := hinner p _ hx
  refine .currentPath_bind hp₁.called ((abides_hoistAll hf₁.holds hx₁).bind fun m₂ _ hf₂ hr₂ => ?_)
  exact hlist hf₂.holds (hf₂.inside hp₁ hr₂) (hf₂.runs hx₁)

mutual

theorem abides_execStmt (hh : D.Hosts host) (he : D.Evaluates ev) :
    ∀ (s : Stmt) {m : Machine σ} {r : ScopeRef}, D.Holds m.held → D.Called p m →
      D.Runs m r p s.fragments → D.Abides (D.Ends p) (execStmt host ev s r) m
  | .declare pos name value, m, r, hm, hp, hx => by
    refine (abides_setPos hm hp hx.head).bind fun m₁ _ hf₁ hin => ?_
    refine (he.eval value hf₁.holds hin (hf₁.runs hx.tail)).bind fun m₂ v hf₂ hv => ?_
    refine (abides_modifyHeap hf₂.holds (Heap.shelters_define _ r name v)
      (hf₂.holds.heap.define hv.2 r name)).bind fun m₃ _ hf₃ hr => ?_
    exact .pure hf₃.holds ⟨hf₃.inside hv.1 hr, trivial⟩
  | .fn pos function, m, r, hm, hp, hx =>
    (abides_setPos hm hp hx.head).bind fun _ _ hf hin => .pure hf.holds ⟨hin, trivial⟩
  | .return_ pos none, m, r, hm, hp, hx =>
    (abides_setPos hm hp hx.head).bind fun _ _ hf hin => .pure hf.holds ⟨hin, trivial⟩
  | .return_ pos (some value), m, r, hm, hp, hx => by
    refine (abides_setPos hm hp hx.head).bind fun m₁ _ hf₁ hin => ?_
    exact (he.eval value hf₁.holds hin (hf₁.runs hx.tail)).bind fun m₂ v hf₂ hv =>
      .pure hf₂.holds hv
  | .throw_ pos value, m, r, hm, hp, hx => by
    refine (abides_setPos hm hp hx.head).bind fun m₁ _ hf₁ hin => ?_
    have hx₁ := hf₁.runs hx
    refine (he.eval value hf₁.holds hin hx₁.tail).bind fun m₂ v hf₂ hv => .heap_bind ?_
    exact abides_failAt hh hf₂.holds hv.1.called (hf₂.runs hx₁).head _
  | .if_ pos cond thenBody none, m, r, hm, hp, hx => by
    obtain ⟨hcond, hthen⟩ := runs_append.1 hx
    refine (abides_setPos hm hp hcond.head).bind fun m₁ _ hf₁ hin => ?_
    refine (he.eval cond hf₁.holds hin (hf₁.runs hcond.tail)).bind fun m₂ v hf₂ hv => ?_
    split
    · exact abides_inner hf₂.holds hv.1 ((hf₁.trans hf₂).runs hthen) fun hm hp hx =>
        abides_execList_in hh he thenBody hm hp hx
    · exact .pure hf₂.holds ⟨hv.1, trivial⟩
  | .if_ pos cond thenBody (some elseBody), m, r, hm, hp, hx => by
    obtain ⟨hx, helse⟩ := runs_append.1 hx
    obtain ⟨hcond, hthen⟩ := runs_append.1 hx
    refine (abides_setPos hm hp hcond.head).bind fun m₁ _ hf₁ hin => ?_
    refine (he.eval cond hf₁.holds hin (hf₁.runs hcond.tail)).bind fun m₂ v hf₂ hv => ?_
    split
    · exact abides_inner hf₂.holds hv.1 ((hf₁.trans hf₂).runs hthen) fun hm hp hx =>
        abides_execList_in hh he thenBody hm hp hx
    · exact abides_inner hf₂.holds hv.1 ((hf₁.trans hf₂).runs helse) fun hm hp hx =>
        abides_execList_in hh he elseBody hm hp hx
  | .assign pos target value, m, r, hm, hp, hx => by
    obtain ⟨htarget, hvalue⟩ := runs_append.1 hx
    refine (abides_setPos hm hp htarget.head).bind fun m₁ _ hf₁ hin => ?_
    refine (he.eval value hf₁.holds hin (hf₁.runs hvalue)).bind fun m₂ v hf₂ hv => ?_
    refine (abides_assignTo hh he hf₂.holds hv.1 ((hf₁.trans hf₂).runs htarget.tail) hv.2).bind
      fun m₃ _ hf₃ hin => .pure hf₃.holds ⟨hin, trivial⟩
  | .expr pos value, m, r, hm, hp, hx => by
    refine (abides_setPos hm hp hx.head).bind fun m₁ _ hf₁ hin => ?_
    exact (he.eval value hf₁.holds hin (hf₁.runs hx.tail)).bind fun m₂ v hf₂ hv =>
      .pure hf₂.holds ⟨hv.1, trivial⟩

/-- Statements that start at a position of their module end at one. -/
theorem abides_execList_in (hh : D.Hosts host) (he : D.Evaluates ev) :
    ∀ (stmts : List Stmt) {m : Machine σ} {r : ScopeRef}, D.Holds m.held → D.In p m →
      D.Runs m r p (Stmt.fragmentsList stmts) → D.Abides (D.Ends p) (execList host ev stmts r) m
  | [], _, _, hm, hp, _ => .pure hm ⟨hp, trivial⟩
  | s :: stmts, m, r, hm, hp, hx => by
    obtain ⟨hs, hrest⟩ := runs_append.1 hx
    refine (abides_execStmt hh he s hm hp.called hs).bind fun m₁ flow hf₁ hflow => ?_
    cases flow with
    | normal => exact abides_execList_in hh he stmts hf₁.holds hflow.1 (hf₁.runs hrest)
    | returned v => exact .pure hf₁.holds hflow

end

theorem abides_execList (hh : D.Hosts host) (he : D.Evaluates ev) (stmts : List Stmt)
    (hm : D.Holds m.held) (hp : D.Called p m) (hx : D.Runs m r p (Stmt.fragmentsList stmts)) :
    D.Abides (D.EndsList p) (execList host ev stmts r) m := by
  cases stmts with
  | nil => exact .pure hm ⟨hp, trivial⟩
  | cons s stmts =>
    obtain ⟨hs, hrest⟩ := runs_append.1 hx
    refine (abides_execStmt hh he s hm hp hs).bind fun m₁ flow hf₁ hflow => ?_
    cases flow with
    | normal =>
      exact (abides_execList_in hh he stmts hf₁.holds hflow.1 (hf₁.runs hrest)).mono
        fun _ _ _ h => ⟨h.1.called, h.2⟩
    | returned v => exact .pure hf₁.holds ⟨hflow.1.called, hflow.2⟩

theorem abides_execBlock (hh : D.Hosts host) (he : D.Evaluates ev) (stmts : List Stmt)
    (hm : D.Holds m.held) (hp : D.Called p m) (hx : D.Runs m r p (Stmt.fragmentsList stmts)) :
    D.Abides (D.EndsList p) (execBlock host ev stmts r) m :=
  abides_declared hm hp hx fun _ hf hp => abides_execList hh he stmts hf.holds hp (hf.runs hx)

theorem runners_runProgram (hh : D.Hosts host) (he : D.Evaluates ev) :
    D.Runners (runProgram host ev) := by
  intro m program r p hm hx
  have hbody : D.Abides (fun _ _ => True)
      (if maxCalls ≤ m.nesting.calls then fail host .tooManyCalls
        else Run.inActivation ⟨none, p, ⟨0, 0⟩⟩ (execBlock host ev program r) >>= fun _ =>
          Pure.pure ()) { m with running := ⟨m.nesting.calls, []⟩ } := by
    split
    · exact abides_fail hh (m := { m with running := ⟨m.nesting.calls, []⟩ }) hm
        (stands_of_nil rfl) _
    · have hrun : D.Abides (D.EndsList p) (execBlock host ev program r)
          { m with running := ⟨m.nesting.calls, [⟨none, p, ⟨0, 0⟩⟩]⟩ } :=
        abides_execBlock hh he program hm ⟨_, [], rfl, rfl, fun _ ha => absurd ha List.not_mem_nil⟩ hx
      refine Abides.bind (Abides.inActivation (Q := fun _ _ => True) ?_) fun _ _ hf _ =>
        .pure hf.holds trivial
      exact hrun.mono fun _ _ _ _ => trivial
  exact .get_bind ((Abides.within (Q := fun _ _ => True) hbody).mono fun _ _ _ h => h.1)

/-! ## Calls -/

theorem placed_params {K : Placement} {vs : List Value} (hvs : ∀ v ∈ vs, v.Placed K)
    (params : List (String × Nat)) {h : Heap} (hh : h.Placed K) :
    h.Shelters (params.foldl (fun h (param, i) => h.define r param (vs.getD i .nil)) h) ∧
      (params.foldl (fun h (param, i) => h.define r param (vs.getD i .nil)) h).Placed K := by
  induction params generalizing h with
  | nil => exact ⟨.refl h, hh⟩
  | cons param params ih =>
    exact (ih (hh.define (Heap.Placed.getD hvs param.2) r param.1)).imp_left
      (h.shelters_define r param.1 _).trans

/-- A call is over, and a value was given. -/
def Returns (running : Running) (m : Machine σ) (v : Value) : Prop :=
  m.running = running ∧ D.Valued m v

theorem abides_callClosure (hh : D.Hosts host) (he : D.Evaluates ev) {f : Closure} {vs : List Value}
    (hm : D.Holds m.held) (hstands : D.Stands m) (hf : D.Valued m (.fn f))
    (hvs : ∀ v ∈ vs, D.Valued m v) :
    D.Abides (D.Returns m.running) (callClosure host ev f vs) m := by
  refine .get_bind ?_
  split
  · exact abides_fail hh hm hstands _
  have hcode : D.Runs m f.scope f.path f.function.fragments := D.closed hf
  rw [Function.fragments_eq] at hcode
  refine (abides_newScope hm f.scope).bind fun m₁ q hf₁ ⟨hr₁, hinner⟩ => ?_
  have hbody := hinner f.path _ hcode.tail
  obtain ⟨hs, hp⟩ := placed_params (r := q) (hf₁.values hvs) f.function.params.zipIdx
    hf₁.holds.heap
  refine Abides.bind (abides_modifyHeap hf₁.holds ?_ ?_) fun m₂ _ hf₂ hr₂ => ?_
  · exact hs
  · exact hp
  have hrunning : m₂.running = m.running := hr₂.trans hr₁
  have hbody₂ := hf₂.runs hbody.tail
  let activation : Activation := ⟨some (f.function.name.getD anonymous), f.path, f.function.pos⟩
  have hrun : D.Abides (fun m' flow => D.Flows m'.held flow)
      (execBlock host ev f.function.body q)
      { m₂ with running := { m₂.running with stack := activation :: m₂.running.stack } } := by
    have hcalled : D.Called f.path
        { m₂ with running := { m₂.running with stack := activation :: m₂.running.stack } } :=
      ⟨activation, m₂.running.stack, rfl, rfl, (hf₁.trans hf₂).stands hstands hrunning⟩
    have hblock : D.Abides (D.EndsList f.path) (execBlock host ev f.function.body q)
        { m₂ with running := { m₂.running with stack := activation :: m₂.running.stack } } :=
      abides_execBlock hh he f.function.body hf₂.holds hcalled hbody₂
    exact hblock.mono fun _ _ _ h => h.2
  refine hrun.inActivation.bind fun m₃ flow hf₃ ⟨hr₃, hflow⟩ => ?_
  have hrunning' : m₃.running = m.running := hr₃.trans hrunning
  cases flow with
  | returned v => exact .pure hf₃.holds ⟨hrunning', hflow⟩
  | normal => exact .pure hf₃.holds ⟨hrunning', trivial⟩

theorem abides_callRequire (hh : D.Hosts host) (he : D.Evaluates ev) (hm : D.Holds m.held)
    (q : Require) (specifier : String) :
    D.Abides (D.Returns m.running) (callRequire host ev q specifier) m := by
  unfold callRequire
  by_cases hresolve : q.resolveOnly = true
  · rw [if_pos hresolve]
    exact (hh.find specifier q.dir hm).bind fun m₁ _ hf hr => .pure hf.holds ⟨hr, trivial⟩
  rw [if_neg hresolve]
  -- the nesting on record is another one for as long as the host is at work
  let start : Machine σ := { m with nesting := ⟨m.running.calls + 1, ev.used⟩ }
  let request := host.require (runProgram host ev) specifier q.dir
  have hrequest : D.Abides (D.Returns m.running) request start :=
    hh.require (runners_runProgram hh he) (m := start) specifier q.dir hm
  let done : Machine σ := { request.after start with nesting := m.nesting }
  have hrun : (Run.ofExcept (request.outcome start)).run done = (request.outcome start, done) :=
    Prod.ext (Run.outcome_ofExcept _ done) (Run.after_ofExcept _ done)
  exact Abides.of_run (m := m) (R := D.Returns m.running) hrequest rfl hrun rfl fun _ hv => hv

theorem abides_callValue (hh : D.Hosts host) (he : D.Evaluates ev) {vs : List Value}
    (hm : D.Holds m.held) (hstands : D.Stands m) (hv : D.Valued m v)
    (hvs : ∀ v ∈ vs, D.Valued m v) :
    D.Abides (D.Returns m.running) (callValue host ev v vs) m := by
  cases v with
  | fn f => exact abides_callClosure hh he hm hstands hv hvs
  | native f i =>
    refine .heap_bind ?_
    cases happly : f.apply vs m.heap with
    | error e => exact abides_fail hh hm hstands _
    | ok result => exact .leave hm (hm.heap.native f hvs result happly)
  | require q =>
    simp only [callValue]
    split
    · exact abides_callRequire hh he hm q _
    · exact abides_fail hh hm hstands _
  | nil | bool | num | str | list | object => exact abides_fail hh hm hstands _

/-! ## Expressions -/

theorem Abides.gives (hp : D.In p m) {y : Run σ Value} (h : D.Abides (D.Returns m.running) y m) :
    D.Abides (D.Gives p) y m :=
  h.mono fun _ _ hf hr => ⟨hf.inside hp hr.1, hr.2⟩

theorem abides_readProperty (hm : D.Holds m.held) (hp : D.In p m) (name : String)
    {y : Run σ Value} (hy : D.Abides (D.Gives p) y m) :
    D.Abides (D.Gives p)
      (Run.heap >>= fun heap => match heap.property? v name with
        | some (value, h) => modifyHeap (fun _ => h) >>= fun _ => Pure.pure value
        | none => y) m := by
  refine .heap_bind ?_
  cases hread : m.heap.property? v name with
  | none => exact hy
  | some result => exact Abides.gives hp (.leave hm (hm.heap.property hread))

theorem abides_readBinary (hh : D.Hosts host) (hm : D.Holds m.held) (hp : D.In p m) {pos : Pos}
    (hpos : D.place m.held r p (.position pos)) (op : BinaryOp) (v w : Value) :
    D.Abides (D.Gives p)
      (Run.heap >>= fun heap => match applyBinary heap op v w with
        | some value => Pure.pure value
        | none => failAt host pos (.unsupported op v.typeName w.typeName)) m := by
  refine .heap_bind ?_
  cases hbinary : applyBinary m.heap op v w with
  | none => exact abides_failAt hh hm hp.called hpos _
  | some u => exact .pure hm ⟨hp, Heap.placed_applyBinary hbinary⟩

theorem abides_readIndex (hh : D.Hosts host) (hm : D.Holds m.held) (hp : D.In p m) {pos : Pos}
    (hpos : D.place m.held r p (.position pos)) (v w : Value) :
    D.Abides (D.Gives p) (readIndex host v w pos) m := by
  have hrefuse : ∀ fault, D.Abides (D.Gives p) (failAt host pos fault) m :=
    abides_failAt hh hm hp.called hpos
  have hgives : ∀ {u : Value}, D.Valued m u → D.Abides (D.Gives p) (Pure.pure u) m :=
    fun hu => .pure hm ⟨hp, hu⟩
  unfold readIndex
  split
  · split
    · refine .heap_bind (hgives ?_)
      rw [Array.getD_eq_getD_getElem?, ← Array.getElem?_toList, ← List.getD_eq_getElem?_getD]
      exact Heap.Placed.getD (hm.heap.items _) _
    · exact hrefuse _
  · split
    · split
      · exact hgives trivial
      · exact hgives trivial
    · exact hrefuse _
  · exact abides_readProperty hm hp _ (hrefuse _)
  · exact hrefuse _

/-- Expressions evaluated one after the other. -/
theorem abides_evalList (he : D.Evaluates ev) (es : List Expr) (hm : D.Holds m.held)
    (hp : D.In p m) (hx : D.Runs m r p (Expr.fragmentsList es)) :
    D.Abides (fun m' vs => D.In p m' ∧ ∀ v ∈ vs, D.Valued m' v) (es.mapM (ev.eval · r)) m := by
  induction es generalizing m with
  | nil => exact .pure hm ⟨hp, nofun⟩
  | cons e es ih =>
    obtain ⟨hhead, htail⟩ := runs_append.1 hx
    simp only [List.mapM_cons]
    refine (he.eval e hm hp hhead).bind fun m₁ v hf₁ hv => ?_
    refine (ih hf₁.holds hv.1 (hf₁.runs htail)).bind fun m₂ vs hf₂ hvs => ?_
    exact .pure hf₂.holds ⟨hvs.1, List.forall_mem_cons.2 ⟨hf₂.value hv.2, hvs.2⟩⟩

theorem abides_evalFields (he : D.Evaluates ev) (o : ObjectRef) (fields : List (String × Expr))
    (hm : D.Holds m.held) (hp : D.In p m) (hx : D.Runs m r p (Expr.fragmentsFields fields)) :
    D.Abides (fun m' _ => D.In p m') (evalFields ev r o fields) m := by
  induction fields generalizing m with
  | nil => exact .pure hm hp
  | cons field fields ih =>
    obtain ⟨hhead, htail⟩ := runs_append.1 hx
    refine (he.eval field.2 hm hp hhead).bind fun m₁ v hf₁ hv => ?_
    refine (abides_modifyHeap hf₁.holds (Heap.shelters_of_eq rfl)
      (hf₁.holds.heap.setField hv.2 o field.1)).bind fun m₂ _ hf₂ hr => ?_
    exact ih hf₂.holds (hf₂.inside hv.1 hr) ((hf₁.trans hf₂).runs htail)

theorem abides_evalExpr (hh : D.Hosts host) (he : D.Evaluates ev) (e : Expr) (hm : D.Holds m.held)
    (hp : D.In p m) (hx : D.Runs m r p e.fragments) :
    D.Abides (D.Gives p) (evalExpr host ev e r) m := by
  cases e with
  | nil | bool | num | str => exact .pure hm ⟨hp, trivial⟩
  | ident pos name =>
    refine .heap_bind ?_
    cases hlookup : m.heap.lookup r name with
    | none => exact abides_failAt hh hm hp.called hx.head _
    | some v => exact .pure hm ⟨hp, hm.heap.lookup hlookup⟩
  | list pos items =>
    refine (abides_evalList he items hm hp hx.tail).bind fun m₁ vs hf₁ hvs => ?_
    refine (abides_onHeap (Q := fun m' _ => m'.running = m₁.running) hf₁.holds
      (Heap.extends_newList _ _).shelters (hf₁.holds.heap.newList hvs.2) rfl).bind
      fun m₂ _ hf₂ hr => .pure hf₂.holds ⟨hf₂.inside hvs.1 hr, trivial⟩
  | object pos fields =>
    refine (abides_onHeap (Q := fun m' _ => m'.running = m.running) hm
      (Heap.extends_newObject _ _).shelters (hm.heap.newObject fun _ h => absurd h List.not_mem_nil) rfl).bind
      fun m₁ o hf₁ hr => ?_
    refine (abides_evalFields he o fields hf₁.holds (hf₁.inside hp hr) (hf₁.runs hx.tail)).bind
      fun m₂ _ hf₂ hin => .pure hf₂.holds ⟨hin, trivial⟩
  | fn pos function =>
    refine .currentPath_bind hp.called (.pure hm ⟨hp, ?_⟩)
    exact hx.tail _ (by rw [Function.fragments_eq]; exact List.mem_cons_self)
  | call pos callee args =>
    obtain ⟨hcallee, hargs⟩ := runs_append.1 hx
    refine (he.eval callee hm hp hcallee.tail).bind fun m₁ v hf₁ hv => ?_
    refine (abides_evalList he args hf₁.holds hv.1 (hf₁.runs hargs)).bind fun m₂ vs hf₂ hvs => ?_
    have hcallee₂ := (hf₁.trans hf₂).runs hcallee
    refine (abides_setPos hf₂.holds hvs.1.called hcallee₂.head).bind fun m₃ _ hf₃ hin => ?_
    exact Abides.gives hin (abides_callValue hh he hf₃.holds hin.stands
      ((hf₂.trans hf₃).value hv.2) (hf₃.values hvs.2))
  | member pos object name =>
    refine (he.eval object hm hp hx.tail).bind fun m₁ v hf₁ hv => ?_
    exact abides_readProperty hf₁.holds hv.1 name
      (abides_failAt hh hf₁.holds hv.1.called (hf₁.runs hx).head _)
  | index pos object index =>
    obtain ⟨hobject, hindex⟩ := runs_append.1 hx
    refine (he.eval object hm hp hobject.tail).bind fun m₁ v hf₁ hv => ?_
    refine (he.eval index hf₁.holds hv.1 (hf₁.runs hindex)).bind fun m₂ w hf₂ hw => ?_
    exact abides_readIndex hh hf₂.holds hw.1 ((hf₁.trans hf₂).runs hobject).head v w
  | unary pos op operand =>
    refine (he.eval operand hm hp hx.tail).bind fun m₁ v hf₁ hv => ?_
    have hrefuse : ∀ fault, D.Abides (D.Gives p) (failAt host pos fault) m₁ :=
      abides_failAt hh hf₁.holds hv.1.called (hf₁.runs hx).head
    cases op with
    | not => exact .pure hf₁.holds ⟨hv.1, trivial⟩
    | neg =>
      cases v with
      | num x => exact .pure hf₁.holds ⟨hv.1, trivial⟩
      | nil | bool | str | list | object | fn | native | require => exact hrefuse _
  | binary pos op lhs rhs =>
    obtain ⟨hlhs, hrhs⟩ := runs_append.1 hx
    refine (he.eval lhs hm hp hlhs.tail).bind fun m₁ v hf₁ hv => ?_
    have hright := he.eval rhs hf₁.holds hv.1 (hf₁.runs hrhs)
    have hleft : D.Abides (D.Gives p) (Pure.pure v) m₁ := .pure hf₁.holds hv
    have happly := hright.bind fun m₂ w hf₂ hw =>
      abides_readBinary hh hf₂.holds hw.1 ((hf₁.trans hf₂).runs hlhs).head op v w
    cases op with
    | and =>
      dsimp only
      split
      · exact hright
      · exact hleft
    | or =>
      dsimp only
      split
      · exact hleft
      · exact hright
    | eq | notEq | add | sub | mul | div | rem | lt | ltEq | gt | gtEq => exact happly

/-! ## Whole runs -/

/-- Evaluation keeps to the discipline, whatever is left of the budget. -/
theorem evaluates_withBudget (hh : D.Hosts host) (budget used : Nat) :
    D.Evaluates (.withBudget host budget used) := by
  induction budget generalizing used with
  | zero => exact ⟨fun e hm hp hx => abides_failAt hh hm hp.called (hx _ e.position_mem) _⟩
  | succ budget ih => exact ⟨fun e hm hp hx => abides_evalExpr hh (ih (used + 1)) e hm hp hx⟩

theorem runners_runModule (hh : D.Hosts host) : D.Runners (runModule host) :=
  fun program _ _ hm hx =>
    .get_bind (runners_runProgram hh (evaluates_withBudget hh _ _) program hm hx)

theorem abides_callFromOutside (hh : D.Hosts host) {vs : List Value} (hm : D.Holds m.held)
    (hv : D.Valued m v) (hvs : ∀ v ∈ vs, D.Valued m v) :
    D.Abides (D.Returns m.running) (callFromOutside host v vs) m := by
  have hcall : D.Abides (fun m' w => w.Placed (D.place m'.held))
      (callValue host (.after host m.nesting.exprs) v vs)
      { m with running := ⟨m.nesting.calls, []⟩ } :=
    (abides_callValue hh (evaluates_withBudget hh _ _) (m := { m with running := ⟨m.nesting.calls, []⟩ })
      hm (stands_of_nil rfl) hv hvs).mono fun _ _ _ h => h.2
  have hwithin : D.Abides (D.Returns m.running) (Run.within ⟨m.nesting.calls, []⟩
      (callValue host (.after host m.nesting.exprs) v vs)) m :=
    Abides.within (Q := fun s (w : Value) => w.Placed (D.place s)) hcall
  exact .get_bind hwithin

end Discipline

end Hotload
