import Mathlib
import Hotload.Proofs.Evaluation.Operations

/-!
# Programs keep states alike

Evaluation on two machines agrees if what the hosts do agrees. The proof follows the evaluator: one
lemma for each of its functions, an induction on statements for blocks, and one on the budget for
expressions.

* `Likeness.Hosts`: the hosts agree.
* `Likeness.agree_evalExpr`: expressions agree.
* `Likeness.runners_runModule`, `Likeness.agree_callFromOutside`: module bodies and calls do.
-/

namespace Hotload

open Syntax (Pos Expr Stmt Function UnaryOp BinaryOp)
open Run (onHeap setPos currentPath fail failAt)

namespace Likeness

variable {σ₁ σ₂ α β : Type} {L : Likeness σ₁ σ₂} {i j : L.Stage} {Q : L.Stage → α → β → Prop}
  {m₁ : Machine σ₁} {m₂ : Machine σ₂}

/-- Results about which nothing is said. -/
abbrev Anything (L : Likeness σ₁ σ₂) : L.Stage → α → β → Prop := fun _ _ _ => True

/-! ## Steps of a machine -/

theorem Meets.withHeap (hm : L.Meets i m₁ m₂) (hij : i ≤ j) {g₁ g₂ : Heap}
    (ha : L.alike j g₁ g₂ (m₁.world, m₁.host) (m₂.world, m₂.host)) :
    L.Meets j { m₁ with heap := g₁ } { m₂ with heap := g₂ } :=
  ⟨ha, hm.running, hm.nesting, fun a h => path_mono hij (hm.paths a h)⟩

/-- A new heap takes the place of the present one. -/
theorem AgreeAt.modifyHeap {f g : Heap → Heap} {Q : L.Stage → Unit → Unit → Prop}
    (hm : L.Meets i m₁ m₂) (hij : i ≤ j)
    (ha : L.alike j (f m₁.heap) (g m₂.heap) (m₁.world, m₁.host) (m₂.world, m₂.host))
    (hQ : Q j () ()) : L.AgreeAt i Q (Run.modifyHeap f) (Run.modifyHeap g) m₁ m₂ :=
  .of_ok rfl rfl hij hQ (hm.withHeap hij ha) (.of_eq rfl rfl)

theorem agree_modifyHeap {f g : Heap → Heap}
    (h : ∀ j, i ≤ j → ∀ h₁ h₂ e₁ e₂, L.alike j h₁ h₂ e₁ e₂ → L.alike j (f h₁) (g h₂) e₁ e₂) :
    L.Agree i L.Anything (Run.modifyHeap f : Run σ₁ Unit) (Run.modifyHeap g : Run σ₂ Unit) :=
  fun j hij _ _ hm => .modifyHeap hm le_rfl (h j hij _ _ _ _ hm.alike) trivial

theorem agree_onHeap {f : Heap → α × Heap} {g : Heap → β × Heap}
    (h : ∀ j, i ≤ j → ∀ h₁ h₂ e₁ e₂, L.alike j h₁ h₂ e₁ e₂ →
      ∃ k, j ≤ k ∧ Q k (f h₁).1 (g h₂).1 ∧ L.alike k (f h₁).2 (g h₂).2 e₁ e₂) :
    L.Agree i Q (onHeap f) (onHeap g) := by
  intro j hij m₁ m₂ hm
  obtain ⟨k, hjk, hQ, ha⟩ := h j hij _ _ _ _ hm.alike
  exact .of_ok rfl rfl hjk hQ (hm.withHeap hjk ha) (.of_eq rfl rfl)

/-- A value that was made on the present heap, and the heap that it was left on. -/
theorem AgreeAt.leave {a b : Value × Heap} (hm : L.Meets i m₁ m₂)
    (h : L.Leaves i (m₁.world, m₁.host) (m₂.world, m₂.host) a b) :
    L.AgreeAt i L.Values (Run.modifyHeap (fun _ => a.2) >>= fun _ => Pure.pure a.1)
      (Run.modifyHeap (fun _ => b.2) >>= fun _ => Pure.pure b.1) m₁ m₂ := by
  obtain ⟨j, hij, hv, ha⟩ := h
  exact .of_ok rfl rfl hij hv (hm.withHeap hij ha) (.of_eq rfl rfl)

theorem agree_setPos (pos : Pos) :
    L.Agree i L.Anything (setPos pos : Run σ₁ Unit) (setPos pos : Run σ₂ Unit) := by
  intro j _ m₁ m₂ hm
  obtain ⟨heap₁, world₁, ⟨base, stack⟩, nesting, host₁⟩ := m₁
  obtain ⟨heap₂, world₂, running₂, nesting₂, host₂⟩ := m₂
  obtain ⟨ha, rfl, rfl, hpaths⟩ := hm
  cases stack with
  | nil => exact .of_ok rfl rfl le_rfl trivial ⟨ha, rfl, rfl, hpaths⟩ ⟨rfl, rfl, rfl⟩
  | cons a stack =>
    refine .of_ok rfl rfl le_rfl trivial ⟨ha, rfl, rfl, fun b hb => ?_⟩ ⟨rfl, rfl, rfl⟩
    rcases List.mem_cons.1 hb with rfl | hb
    · exact hpaths a List.mem_cons_self
    · exact hpaths b (List.mem_cons_of_mem _ hb)

theorem agree_currentPath :
    L.Agree i (fun j p q => p = q ∧ (L.pairing j).path p) (currentPath : Run σ₁ Path)
      (currentPath : Run σ₂ Path) := by
  refine .get_bind fun j _ m₁ m₂ hm => ?_
  rw [← hm.running]
  cases hstack : m₁.running.stack with
  | nil => exact .pure hm ⟨rfl, L.blank j⟩
  | cons a stack => exact .pure hm ⟨rfl, hm.paths a (by rw [hstack]; exact List.mem_cons_self)⟩

/-- A computation that runs as part of another program. -/
theorem Agree.within {running : Running} {x : Run σ₁ α} {y : Run σ₂ β} (h : L.Agree i Q x y)
    (hpaths : ∀ a ∈ running.stack, (L.pairing i).path a.path) :
    L.Agree i Q (Run.within running x) (Run.within running y) := by
  intro j hij m₁ m₂ hm
  have hinner := h j hij { m₁ with running } { m₂ with running }
    ⟨hm.alike, rfl, hm.nesting, fun a ha => path_mono hij (hpaths a ha)⟩
  obtain ⟨⟨k, hjk, hout, hmeets⟩, hcalls⟩ := hinner
  have hx : (Run.within running x).outcome m₁ = x.outcome { m₁ with running } := by
    change (Run.ofExcept (x.outcome { m₁ with running })).outcome _ = _
    cases x.outcome { m₁ with running } <;> rfl
  have hy : (Run.within running y).outcome m₂ = y.outcome { m₂ with running } := by
    change (Run.ofExcept (y.outcome { m₂ with running })).outcome _ = _
    cases y.outcome { m₂ with running } <;> rfl
  have hx' : (Run.within running x).after m₁ =
      { x.after { m₁ with running } with running := m₁.running } := by
    change (Run.ofExcept (x.outcome { m₁ with running })).after _ = _
    cases x.outcome { m₁ with running } <;> rfl
  have hy' : (Run.within running y).after m₂ =
      { y.after { m₂ with running } with running := m₂.running } := by
    change (Run.ofExcept (y.outcome { m₂ with running })).after _ = _
    cases y.outcome { m₂ with running } <;> rfl
  refine ⟨⟨k, hjk, by rwa [hx, hy], ?_⟩, ?_⟩
  · rw [hx', hy']
    exact ⟨hmeets.alike, hm.running, hmeets.nesting, fun a ha => path_mono hjk (hm.paths a ha)⟩
  · rw [hx']
    exact .of_eq hcalls.nesting rfl

theorem Agree.inActivation {a : Activation} {x : Run σ₁ α} {y : Run σ₂ β} (h : L.Agree i Q x y)
    (ha : (L.pairing i).path a.path) :
    L.Agree i Q (Run.inActivation a x) (Run.inActivation a y) := by
  refine .get_bind fun j hij m₁ m₂ hm => ?_
  rw [← hm.running]
  refine ((h.later hij).within fun b hb => ?_).at hm
  rcases List.mem_cons.1 hb with rfl | hb
  · exact path_mono hij ha
  · exact hm.paths b hb

/-! ## Hosts -/

/-- The runners run module bodies alike. -/
def Runners (L : Likeness σ₁ σ₂) (run₁ : Runner σ₁) (run₂ : Runner σ₂) : Prop :=
  ∀ i program r s p, (L.pairing i).scope r s → (L.pairing i).path p →
    L.Agree i L.Anything (run₁ program r p) (run₂ program s p)

/-- The hosts agree: they load the same modules, find the same files, and know the same places of
the code that may run. -/
structure Hosts (L : Likeness σ₁ σ₂) (host₁ : Host σ₁) (host₂ : Host σ₂) : Prop where
  require : ∀ {run₁ run₂}, L.Runners run₁ run₂ → ∀ i specifier dir,
    L.Agree i L.Values (host₁.require run₁ specifier dir) (host₂.require run₂ specifier dir)
  find : ∀ i specifier dir,
    L.Agree i (fun _ => Eq) (host₁.find specifier dir) (host₂.find specifier dir)
  sourcePosition : ∀ {i h₁ h₂ e₁ e₂ p}, L.alike i h₁ h₂ e₁ e₂ → (L.pairing i).path p → ∀ pos,
    host₁.sourcePosition e₁.2 p pos = host₂.sourcePosition e₂.2 p pos

/-- Evaluation agrees. -/
structure Evaluators (L : Likeness σ₁ σ₂) (ev₁ : Evaluator σ₁) (ev₂ : Evaluator σ₂) : Prop where
  used : ev₁.used = ev₂.used
  eval : ∀ {i r s}, (L.pairing i).scope r s → ∀ e, L.Agree i L.Values (ev₁.eval e r) (ev₂.eval e s)

section

variable {host₁ : Host σ₁} {host₂ : Host σ₂} {ev₁ : Evaluator σ₁} {ev₂ : Evaluator σ₂}
  {r s : ScopeRef}

theorem agree_fail (hh : L.Hosts host₁ host₂) (fault : RuntimeFault) :
    L.Agree i Q (fail host₁ fault) (fail host₂ fault) := by
  refine .get_bind fun j _ m₁ m₂ hm => ?_
  have hframes : Run.frames host₁ m₁ = Run.frames host₂ m₂ := by
    rw [Run.frames, Run.frames, ← hm.running]
    refine List.map_congr_left fun a ha => ?_
    rw [hh.sourcePosition hm.alike (hm.paths a ha)]
  rw [hframes]
  exact .throw hm _

theorem agree_failAt (hh : L.Hosts host₁ host₂) (pos : Pos) (fault : RuntimeFault) :
    L.Agree i Q (failAt host₁ pos fault) (failAt host₂ pos fault) :=
  (agree_setPos pos).bind fun _ _ _ _ _ => agree_fail hh fault

/-! ## Statements -/

theorem alike_hoistAll {h₁ h₂ : Heap} {e₁ : World × σ₁} {e₂ : World × σ₂} {p : Path}
    (stmts : List Stmt) (hs : (L.pairing i).scope r s) (hp : (L.pairing i).path p)
    (ha : L.alike i h₁ h₂ e₁ e₂) :
    L.alike i (hoistAll stmts r p h₁) (hoistAll stmts s p h₂) e₁ e₂ := by
  induction stmts generalizing h₁ h₂ with
  | nil => exact ha
  | cons stmt stmts ih =>
    refine ih ?_
    cases stmt with
    | fn pos function =>
      cases hname : function.name with
      | none => simpa only [hname] using ha
      | some name => simpa only [hname] using L.hoist ha hs hp name function
    | declare | return_ | throw_ | if_ | assign | expr => exact ha

/-- The statements of a block are executed in a scope whose functions have been declared. -/
theorem agree_declared {stmts : List Stmt} {x : Run σ₁ α} {y : Run σ₂ β}
    (hs : (L.pairing i).scope r s) (h : L.Agree i Q x y) :
    L.Agree i Q (currentPath >>= fun p => Run.modifyHeap (hoistAll stmts r p) >>= fun _ => x)
      (currentPath >>= fun p => Run.modifyHeap (hoistAll stmts s p) >>= fun _ => y) := by
  refine agree_currentPath.bind fun j hij p q ⟨hpq, hp⟩ => ?_
  subst hpq
  refine (agree_modifyHeap fun k hjk _ _ _ _ ha => ?_).bind fun k hjk _ _ _ => ?_
  · exact alike_hoistAll stmts (scope_mono (hij.trans hjk) hs) (path_mono hjk hp) ha
  · exact h.later (hij.trans hjk)

/-- A scope inside another one. -/
theorem agree_newScope (hs : (L.pairing i).scope r s) :
    L.Agree i (fun j => (L.pairing j).scope) (onHeap (·.newScope (some r)) : Run σ₁ ScopeRef)
      (onHeap (·.newScope (some s)) : Run σ₂ ScopeRef) :=
  agree_onHeap fun _ hij _ _ _ _ ha => L.newScope ha (.some (scope_mono hij hs))

/-- The value that an assignment stores is stored alike. -/
theorem agree_assignTo (hh : L.Hosts host₁ host₂) (he : L.Evaluators ev₁ ev₂) (target : Expr)
    {v w : Value} (hv : L.Values i v w) (hs : (L.pairing i).scope r s) :
    L.Agree i L.Anything (assignTo host₁ ev₁ target v r) (assignTo host₂ ev₂ target w s) := by
  cases target with
  | ident pos name =>
    refine .heap_bind fun j hij m₁ m₂ hm => ?_
    have hassign := L.assign hm.alike (scope_mono hij hs) (hv.mono hij) name
    generalize m₁.heap.assign r name v = a at hassign ⊢
    generalize m₂.heap.assign s name w = b at hassign ⊢
    cases hassign with
    | none => exact (agree_fail hh _).at hm
    | some ha => exact .modifyHeap hm le_rfl ha trivial
  | member pos object name =>
    refine (he.eval hs object).bind fun j hij v' w' hobject => ?_
    cases hobject with
    | object hr =>
      exact agree_modifyHeap fun k hjk _ _ _ _ ha =>
        L.setField ha ((L.pairing_mono hjk).object hr) (hv.mono (hij.trans hjk)) name
    | nil | bool | num | str | list | fn | native | require => exact agree_fail hh _
  | index pos object index =>
    refine (he.eval hs object).bind fun j hij v' w' hobject => ?_
    refine (he.eval (scope_mono hij hs) index).bind fun k hjk v'' w'' hindex => ?_
    rw [hobject.typeName_eq, hindex.typeName_eq]
    cases hobject with
    | object hr =>
      cases hindex with
      | str key =>
        exact agree_modifyHeap fun l hkl _ _ _ _ ha =>
          L.setField ha ((L.pairing_mono (hjk.trans hkl)).object hr)
            (hv.mono (hij.trans (hjk.trans hkl))) key
      | nil | bool | num | list | object | fn | native | require => exact agree_fail hh _
    | list hr =>
      cases hindex with
      | num x =>
        cases hn : indexOf? x with
        | none =>
          simp only [hn]
          exact agree_fail hh _
        | some n =>
          simp only [hn]
          refine .heap_bind fun l hkl m₁ m₂ hm => ?_
          have hset := L.setItem hm.alike ((L.pairing_mono (hjk.trans hkl)).list hr)
            (hv.mono (hij.trans (hjk.trans hkl))) n
          generalize m₁.heap.setItem? _ n v = a at hset ⊢
          generalize m₂.heap.setItem? _ n w = b at hset ⊢
          cases hset with
          | none => exact (agree_fail hh _).at hm
          | some ha => exact .modifyHeap hm le_rfl ha trivial
      | nil | bool | str | list | object | fn | native | require => exact agree_fail hh _
    | nil | bool | num | str | fn | native | require => exact agree_fail hh _
  | nil | bool | num | str | list | object | fn | call | unary | binary => exact agree_fail hh _

/-- Statements end alike. -/
inductive SameFlow (K : Pairing) : Flow → Flow → Prop where
  | normal : SameFlow K .normal .normal
  | returned {v w : Value} (h : v.Paired K w) : SameFlow K (.returned v) (.returned w)

/-- Statements end alike at a stage. -/
abbrev Flows (L : Likeness σ₁ σ₂) (i : L.Stage) : Flow → Flow → Prop := SameFlow (L.pairing i)

/-- A block in a scope of its own. -/
theorem agree_inner {stmts : List Stmt} (hs : (L.pairing i).scope r s)
    (h : ∀ j, i ≤ j → ∀ r s, (L.pairing j).scope r s →
      L.Agree j L.Flows (execList host₁ ev₁ stmts r) (execList host₂ ev₂ stmts s)) :
    L.Agree i L.Flows
      (do
        let inner ← onHeap (·.newScope (some r))
        let path ← currentPath
        Run.modifyHeap (hoistAll stmts inner path)
        execList host₁ ev₁ stmts inner)
      (do
        let inner ← onHeap (·.newScope (some s))
        let path ← currentPath
        Run.modifyHeap (hoistAll stmts inner path)
        execList host₂ ev₂ stmts inner) :=
  (agree_newScope hs).bind fun j hij _ _ hinner => agree_declared hinner (h j hij _ _ hinner)

mutual

theorem agree_execStmt (hh : L.Hosts host₁ host₂) (he : L.Evaluators ev₁ ev₂) :
    ∀ (stmt : Stmt) {i : L.Stage} {r s : ScopeRef}, (L.pairing i).scope r s →
      L.Agree i L.Flows (execStmt host₁ ev₁ stmt r) (execStmt host₂ ev₂ stmt s)
  | .declare pos name value, i, r, s, hs => by
    refine (agree_setPos pos).bind fun j hij _ _ _ => ?_
    refine (he.eval (scope_mono hij hs) value).bind fun k hjk v w hv => ?_
    refine (agree_modifyHeap fun l hkl _ _ _ _ ha => ?_).bind fun _ _ _ _ _ =>
      .pure fun _ _ => .normal
    exact L.define ha (scope_mono (hij.trans (hjk.trans hkl)) hs) (hv.mono hkl) name
  | .fn pos function, i, r, s, hs =>
    (agree_setPos pos).bind fun _ _ _ _ _ => .pure fun _ _ => .normal
  | .return_ pos none, i, r, s, hs =>
    (agree_setPos pos).bind fun _ _ _ _ _ => .pure fun _ _ => .returned .nil
  | .return_ pos (some value), i, r, s, hs => by
    refine (agree_setPos pos).bind fun j hij _ _ _ => ?_
    refine (he.eval (scope_mono hij hs) value).bind fun k hjk v w hv => ?_
    exact .pure fun l hkl => .returned (hv.mono hkl)
  | .throw_ pos value, i, r, s, hs => by
    refine (agree_setPos pos).bind fun j hij _ _ _ => ?_
    refine (he.eval (scope_mono hij hs) value).bind fun k hjk v w hv => ?_
    refine .heap_bind fun l hkl m₁ m₂ hm => ?_
    rw [display_eq hm.alike (hv.mono hkl)]
    exact (agree_failAt hh pos _).at hm
  | .if_ pos cond thenBody none, i, r, s, hs => by
    refine (agree_setPos pos).bind fun j hij _ _ _ => ?_
    refine (he.eval (scope_mono hij hs) cond).bind fun k hjk v w hv => ?_
    have hs' := scope_mono (hij.trans hjk) hs
    refine .ite (by rw [hv.isTruthy_eq]) (fun _ => ?_) fun _ => .pure fun _ _ => .normal
    exact agree_inner hs' fun l hkl r s hs => agree_execList hh he thenBody hs
  | .if_ pos cond thenBody (some elseBody), i, r, s, hs => by
    refine (agree_setPos pos).bind fun j hij _ _ _ => ?_
    refine (he.eval (scope_mono hij hs) cond).bind fun k hjk v w hv => ?_
    have hs' := scope_mono (hij.trans hjk) hs
    refine .ite (by rw [hv.isTruthy_eq]) (fun _ => ?_) fun _ => ?_
    · exact agree_inner hs' fun l hkl r s hs => agree_execList hh he thenBody hs
    · exact agree_inner hs' fun l hkl r s hs => agree_execList hh he elseBody hs
  | .assign pos target value, i, r, s, hs => by
    refine (agree_setPos pos).bind fun j hij _ _ _ => ?_
    refine (he.eval (scope_mono hij hs) value).bind fun k hjk v w hv => ?_
    exact (agree_assignTo hh he target hv (scope_mono (hij.trans hjk) hs)).bind fun _ _ _ _ _ =>
      .pure fun _ _ => .normal
  | .expr pos value, i, r, s, hs => by
    refine (agree_setPos pos).bind fun j hij _ _ _ => ?_
    exact (he.eval (scope_mono hij hs) value).bind fun _ _ _ _ _ => .pure fun _ _ => .normal

theorem agree_execList (hh : L.Hosts host₁ host₂) (he : L.Evaluators ev₁ ev₂) :
    ∀ (stmts : List Stmt) {i : L.Stage} {r s : ScopeRef}, (L.pairing i).scope r s →
      L.Agree i L.Flows (execList host₁ ev₁ stmts r) (execList host₂ ev₂ stmts s)
  | [], _, _, _, _ => .pure fun _ _ => .normal
  | stmt :: stmts, i, r, s, hs => by
    refine (agree_execStmt hh he stmt hs).bind fun j hij flow flow' hflow => ?_
    cases hflow with
    | normal => exact agree_execList hh he stmts (scope_mono hij hs)
    | returned hv => exact .pure fun k hjk => .returned (hv.mono (L.pairing_mono hjk))

end

theorem agree_execBlock (hh : L.Hosts host₁ host₂) (he : L.Evaluators ev₁ ev₂)
    (stmts : List Stmt) (hs : (L.pairing i).scope r s) :
    L.Agree i L.Flows (execBlock host₁ ev₁ stmts r) (execBlock host₂ ev₂ stmts s) :=
  agree_declared hs (agree_execList hh he stmts hs)

theorem agree_runBody (hh : L.Hosts host₁ host₂) {p : Path} (hp : (L.pairing i).path p)
    {x : Run σ₁ Flow} {y : Run σ₂ Flow} (h : L.Agree i L.Flows x y) :
    L.Agree i L.Anything (runBody host₁ p x) (runBody host₂ p y) := by
  refine .get_bind fun j hij m₁ m₂ hm => ?_
  rw [hm.nesting]
  refine (Agree.within ?_ fun a ha => absurd ha List.not_mem_nil).at hm
  refine .ite Iff.rfl (fun _ => agree_fail hh _) fun _ => ?_
  exact ((h.later hij).inActivation (path_mono hij hp)).bind fun _ _ _ _ _ =>
    .pure fun _ _ => trivial

theorem runners_runProgram (hh : L.Hosts host₁ host₂) (he : L.Evaluators ev₁ ev₂) :
    L.Runners (runProgram host₁ ev₁) (runProgram host₂ ev₂) :=
  fun _ program _ _ _ hs hp => agree_runBody hh hp (agree_execBlock hh he program hs)

/-! ## Calls -/

theorem alike_params {h₁ h₂ : Heap} {e₁ : World × σ₁} {e₂ : World × σ₂} {vs ws : List Value}
    (params : List (String × Nat)) (hs : (L.pairing i).scope r s)
    (hv : Value.ListPaired (L.pairing i) vs ws) (ha : L.alike i h₁ h₂ e₁ e₂) :
    L.alike i
      (params.foldl (fun h (param, n) => h.define r param (vs.getD n .nil)) h₁)
      (params.foldl (fun h (param, n) => h.define s param (ws.getD n .nil)) h₂) e₁ e₂ := by
  induction params generalizing h₁ h₂ with
  | nil => exact ha
  | cons p params ih => exact ih (L.define ha hs (hv.getD p.2) p.1)

theorem agree_callClosure (hh : L.Hosts host₁ host₂) (he : L.Evaluators ev₁ ev₂)
    {function : Function} {p : Path} {vs ws : List Value} (hs : (L.pairing i).scope r s)
    (hp : (L.pairing i).path p) (hv : Value.ListPaired (L.pairing i) vs ws) :
    L.Agree i L.Values (callClosure host₁ ev₁ ⟨function, r, p⟩ vs)
      (callClosure host₂ ev₂ ⟨function, s, p⟩ ws) := by
  refine .get_bind fun j hij m₁ m₂ hm => ?_
  rw [← hm.running]
  refine Agree.at (.ite Iff.rfl (fun _ => agree_fail hh _) fun _ => ?_) hm
  refine (agree_newScope (scope_mono hij hs)).bind fun k hjk r' s' hs' => ?_
  refine (agree_modifyHeap fun l hkl _ _ _ _ ha => ?_).bind fun l hkl _ _ _ => ?_
  · exact alike_params _ (scope_mono hkl hs')
      (hv.mono (L.pairing_mono (hij.trans (hjk.trans hkl)))) ha
  · have hbody := (agree_execBlock hh he function.body (scope_mono hkl hs')).inActivation
      (a := ⟨some (function.name.getD anonymous), p, function.pos⟩)
      (path_mono (hij.trans (hjk.trans hkl)) hp)
    refine hbody.bind fun l' _ flow flow' hflow => ?_
    cases hflow with
    | normal => exact .pure fun _ _ => .nil
    | returned hv => exact .pure fun k hjk => hv.mono (L.pairing_mono hjk)

/-- The nesting on record is another one for as long as a computation runs. -/
theorem agree_recorded (nesting : Running → Nesting) {x : Run σ₁ α} {y : Run σ₂ β}
    (h : L.Agree i Q x y) :
    L.Agree i Q
      (do
        let outer := (← get).nesting
        modify fun m => { m with nesting := nesting m.running }
        let outcome ← Run.observe x
        modify fun m => { m with nesting := outer }
        Run.ofExcept outcome)
      (do
        let outer := (← get).nesting
        modify fun m => { m with nesting := nesting m.running }
        let outcome ← Run.observe y
        modify fun m => { m with nesting := outer }
        Run.ofExcept outcome) := by
  intro j hij m₁ m₂ hm
  let n₁ : Machine σ₁ := { m₁ with nesting := nesting m₁.running }
  let n₂ : Machine σ₂ := { m₂ with nesting := nesting m₂.running }
  obtain ⟨⟨k, hjk, hout, hmeets⟩, hcalls⟩ := h j hij n₁ n₂
    ⟨hm.alike, hm.running, by simp only [n₁, n₂, hm.running], hm.paths⟩
  refine ⟨⟨k, hjk, ?_, ?_⟩, ?_⟩
  · change SameOutcome (Q k)
      ((Run.ofExcept (x.outcome n₁)).outcome { x.after n₁ with nesting := m₁.nesting })
      ((Run.ofExcept (y.outcome n₂)).outcome { y.after n₂ with nesting := m₂.nesting })
    rwa [Run.outcome_ofExcept, Run.outcome_ofExcept]
  · change L.Meets k
      ((Run.ofExcept (x.outcome n₁)).after { x.after n₁ with nesting := m₁.nesting })
      ((Run.ofExcept (y.outcome n₂)).after { y.after n₂ with nesting := m₂.nesting })
    rw [Run.after_ofExcept, Run.after_ofExcept]
    exact ⟨hmeets.alike, hmeets.running, hm.nesting, hmeets.paths⟩
  · change m₁.SameCalls
      ((Run.ofExcept (x.outcome n₁)).after { x.after n₁ with nesting := m₁.nesting })
    rw [Run.after_ofExcept]
    exact ⟨rfl, hcalls.base, hcalls.stack⟩

theorem agree_callRequire (hh : L.Hosts host₁ host₂) (he : L.Evaluators ev₁ ev₂) (dir : Path)
    (resolveOnly : Bool) (a b : Identity) (specifier : String) :
    L.Agree i L.Values (callRequire host₁ ev₁ ⟨dir, resolveOnly, a⟩ specifier)
      (callRequire host₂ ev₂ ⟨dir, resolveOnly, b⟩ specifier) := by
  refine .ite Iff.rfl (fun _ => ?_) fun _ => ?_
  · refine (hh.find i specifier dir).bind fun j _ p q hpq => ?_
    subst hpq
    exact .pure fun _ _ => .str _
  · rw [he.used]
    exact agree_recorded (fun r => ⟨r.calls + 1, ev₂.used⟩)
      (hh.require (runners_runProgram hh he) i specifier dir)

theorem agree_callValue (hh : L.Hosts host₁ host₂) (he : L.Evaluators ev₁ ev₂) {v w : Value}
    {vs ws : List Value} (hv : L.Values i v w) (hvs : Value.ListPaired (L.pairing i) vs ws) :
    L.Agree i L.Values (callValue host₁ ev₁ v vs) (callValue host₂ ev₂ w ws) := by
  cases hv with
  | fn hs hp => exact agree_callClosure hh he hs hp hvs
  | native f _ =>
    refine .heap_bind fun j hij m₁ m₂ hm => ?_
    have hnative := native hm.alike f (hvs.mono (L.pairing_mono hij))
    generalize f.apply vs m₁.heap = a at hnative ⊢
    generalize f.apply ws m₂.heap = b at hnative ⊢
    cases hnative with
    | ok h => exact .leave hm h
    | error e => exact (agree_fail hh _).at hm
  | require dir resolveOnly _ =>
    cases hvs with
    | nil => exact agree_fail hh _
    | cons hv _ =>
      cases hv with
      | str specifier => exact agree_callRequire hh he dir resolveOnly _ _ specifier
      | nil | bool | num | list | object | fn | native | require => exact agree_fail hh _
  | nil | bool | num | str | list | object => exact agree_fail hh _

/-! ## Expressions -/

theorem agree_readProperty {v w : Value} (hv : L.Values i v w) (name : String)
    {x : Run σ₁ Value} {y : Run σ₂ Value} (h : L.Agree i L.Values x y) :
    L.Agree i L.Values
      (Run.heap >>= fun heap => match heap.property? v name with
        | some (value, h) => Run.modifyHeap (fun _ => h) >>= fun _ => Pure.pure value
        | none => x)
      (Run.heap >>= fun heap => match heap.property? w name with
        | some (value, h) => Run.modifyHeap (fun _ => h) >>= fun _ => Pure.pure value
        | none => y) := by
  refine .heap_bind fun j hij m₁ m₂ hm => ?_
  have hproperty := property hm.alike (hv.mono hij) name
  generalize m₁.heap.property? v name = a at hproperty ⊢
  generalize m₂.heap.property? w name = b at hproperty ⊢
  cases hproperty with
  | none => exact (h.later hij).at hm
  | some h => exact .leave hm h

theorem agree_readBinary (hh : L.Hosts host₁ host₂) {v w v' w' : Value} (hv : L.Values i v w)
    (hv' : L.Values i v' w') (op : BinaryOp) (pos : Pos) :
    L.Agree i L.Values
      (Run.heap >>= fun heap => match Hotload.applyBinary heap op v v' with
        | some value => Pure.pure value
        | none => failAt host₁ pos (.unsupported op v.typeName v'.typeName))
      (Run.heap >>= fun heap => match Hotload.applyBinary heap op w w' with
        | some value => Pure.pure value
        | none => failAt host₂ pos (.unsupported op w.typeName w'.typeName)) := by
  refine .heap_bind fun j hij m₁ m₂ hm => ?_
  have happly := applyBinary hm.alike op (hv.mono hij) (hv'.mono hij)
  rw [hv.typeName_eq, hv'.typeName_eq]
  generalize Hotload.applyBinary m₁.heap op v v' = a at happly ⊢
  generalize Hotload.applyBinary m₂.heap op w w' = b at happly ⊢
  cases happly with
  | none => exact (agree_failAt hh pos _).at hm
  | some hv => exact .pure hm hv

theorem agree_readIndex (hh : L.Hosts host₁ host₂) {v w v' w' : Value} (hv : L.Values i v w)
    (hindex : L.Values i v' w') (pos : Pos) :
    L.Agree i L.Values (readIndex host₁ v v' pos) (readIndex host₂ w w' pos) := by
  have hrefuse : L.Agree i L.Values
      (failAt host₁ pos (.notIndexable v.typeName v'.typeName))
      (failAt host₂ pos (.notIndexable w.typeName w'.typeName)) := by
    rw [hv.typeName_eq, hindex.typeName_eq]
    exact agree_failAt hh pos _
  cases hindex with
  | str key =>
    have hread := agree_readProperty hv key hrefuse
    cases hv <;> exact hread
  | num x =>
    cases hv with
    | list hr =>
      simp only [readIndex]
      cases indexOf? x with
      | none => exact hrefuse
      | some n =>
        refine .heap_bind fun j hij m₁ m₂ hm => .pure hm ?_
        have hitem := (L.items hm.alike ((L.pairing_mono hij).list hr)).getD n
        simpa only [Array.getD_eq_getD_getElem?, List.getD_eq_getElem?_getD,
          Array.getElem?_toList] using hitem
    | str s =>
      simp only [readIndex]
      cases indexOf? x with
      | none => exact hrefuse
      | some n =>
        cases hn : s.toList[n]? with
        | none =>
          simp only [hn]
          exact .pure fun _ _ => .nil
        | some c =>
          simp only [hn]
          exact .pure fun _ _ => .str _
    | nil | bool | num | object | fn | native | require => exact hrefuse
  | nil | bool | list | object | fn | native | require => cases hv <;> exact hrefuse

/-- Expressions evaluated one after the other. -/
theorem agree_evalList (he : L.Evaluators ev₁ ev₂) (hs : (L.pairing i).scope r s)
    (es : List Expr) :
    L.Agree i (fun j => Value.ListPaired (L.pairing j)) (es.mapM (ev₁.eval · r))
      (es.mapM (ev₂.eval · s)) := by
  induction es generalizing i with
  | nil => exact .pure fun _ _ => .nil
  | cons e es ih =>
    simp only [List.mapM_cons]
    refine (he.eval hs e).bind fun j hij v w hv => ?_
    refine (ih (scope_mono hij hs)).bind fun k hjk vs ws hvs => ?_
    exact .pure fun l hkl => .cons (hv.mono (hjk.trans hkl)) (hvs.mono (L.pairing_mono hkl))

theorem agree_evalFields (he : L.Evaluators ev₁ ev₂) (fields : List (String × Expr))
    {o o' : ObjectRef} (hs : (L.pairing i).scope r s) (ho : (L.pairing i).object o o') :
    L.Agree i L.Anything (evalFields ev₁ r o fields) (evalFields ev₂ s o' fields) := by
  induction fields generalizing i with
  | nil => exact .pure fun _ _ => trivial
  | cons field fields ih =>
    refine (he.eval hs field.2).bind fun j hij v w hv => ?_
    refine (agree_modifyHeap fun k hjk _ _ _ _ ha => ?_).bind fun k hjk _ _ _ => ?_
    · exact L.setField ha ((L.pairing_mono (hij.trans hjk)).object ho) (hv.mono hjk) field.1
    · exact ih (scope_mono (hij.trans hjk) hs) ((L.pairing_mono (hij.trans hjk)).object ho)

theorem agree_evalExpr (hh : L.Hosts host₁ host₂) (he : L.Evaluators ev₁ ev₂) (e : Expr)
    (hs : (L.pairing i).scope r s) :
    L.Agree i L.Values (evalExpr host₁ ev₁ e r) (evalExpr host₂ ev₂ e s) := by
  cases e with
  | nil pos => exact .pure fun _ _ => .nil
  | bool pos b => exact .pure fun _ _ => .bool b
  | num pos x => exact .pure fun _ _ => .num x
  | str pos text => exact .pure fun _ _ => .str text
  | ident pos name =>
    refine .heap_bind fun j hij m₁ m₂ hm => ?_
    have hlookup := L.lookup hm.alike (scope_mono hij hs) name
    generalize m₁.heap.lookup r name = a at hlookup ⊢
    generalize m₂.heap.lookup s name = b at hlookup ⊢
    cases hlookup with
    | none => exact (agree_failAt hh pos _).at hm
    | some hv => exact .pure hm hv
  | list pos items =>
    refine (agree_evalList he hs items).bind fun j hij vs ws hvs => ?_
    have hnew : L.Agree j (fun k => (L.pairing k).list)
        (onHeap (·.newList vs.toArray) : Run σ₁ ListRef) (onHeap (·.newList ws.toArray)) :=
      agree_onHeap fun k hjk _ _ _ _ ha => L.newList ha (hvs.mono (L.pairing_mono hjk))
    exact hnew.bind fun k _ _ _ hr => .pure fun l hkl => .list ((L.pairing_mono hkl).list hr)
  | object pos fields =>
    have hnew : L.Agree i (fun k => (L.pairing k).object)
        (onHeap (·.newObject []) : Run σ₁ ObjectRef) (onHeap (·.newObject [])) :=
      agree_onHeap fun k _ _ _ _ _ ha => L.newObject ha .nil
    refine hnew.bind fun j hij o o' ho => ?_
    refine (agree_evalFields he fields (scope_mono hij hs) ho).bind fun k hjk _ _ _ => ?_
    exact .pure fun l hkl => .object ((L.pairing_mono (hjk.trans hkl)).object ho)
  | fn pos function =>
    refine agree_currentPath.bind fun j hij p q hpq => ?_
    obtain ⟨rfl, hp⟩ := hpq
    exact .pure fun k hjk => .fn (scope_mono (hij.trans hjk) hs) (path_mono hjk hp)
  | call pos callee args =>
    refine (he.eval hs callee).bind fun j hij v w hv => ?_
    refine (agree_evalList he (scope_mono hij hs) args).bind fun k hjk vs ws hvs => ?_
    refine (agree_setPos pos).bind fun l hkl _ _ _ => ?_
    exact agree_callValue hh he (hv.mono (hjk.trans hkl)) (hvs.mono (L.pairing_mono hkl))
  | member pos object name =>
    refine (he.eval hs object).bind fun j hij v w hv => agree_readProperty hv name ?_
    rw [hv.typeName_eq]
    exact agree_failAt hh pos _
  | index pos object index =>
    refine (he.eval hs object).bind fun j hij v w hv => ?_
    refine (he.eval (scope_mono hij hs) index).bind fun k hjk v' w' hindex => ?_
    exact agree_readIndex hh (hv.mono hjk) hindex pos
  | unary pos op operand =>
    refine (he.eval hs operand).bind fun j hij v w hv => ?_
    cases op with
    | not =>
      simp only [hv.isTruthy_eq]
      exact .pure fun _ _ => .bool _
    | neg =>
      cases hv with
      | num x => exact .pure fun _ _ => .num _
      | nil | bool | str | list | object | fn | native | require => exact agree_failAt hh pos _
  | binary pos op lhs rhs =>
    refine (he.eval hs lhs).bind fun j hij v w hv => ?_
    have hright := he.eval (scope_mono hij hs) rhs
    have hleft : L.Agree j L.Values (Pure.pure v) (Pure.pure w) := .pure fun _ hjk => hv.mono hjk
    have happly := hright.bind fun k hjk v' w' hv' => agree_readBinary hh (hv.mono hjk) hv' op pos
    cases op with
    | and => exact .ite (by rw [hv.isTruthy_eq]) (fun _ => hright) fun _ => hleft
    | or => exact .ite (by rw [hv.isTruthy_eq]) (fun _ => hleft) fun _ => hright
    | eq | notEq | add | sub | mul | div | rem | lt | ltEq | gt | gtEq => exact happly

end

/-! ## Whole runs -/

section

variable {host₁ : Host σ₁} {host₂ : Host σ₂}

/-- Evaluation agrees, whatever is left of the budget. -/
theorem evaluators_withBudget (hh : L.Hosts host₁ host₂) (budget used : Nat) :
    L.Evaluators (.withBudget host₁ budget used) (.withBudget host₂ budget used) := by
  induction budget generalizing used with
  | zero => exact ⟨rfl, fun _ e => agree_failAt hh e.pos _⟩
  | succ budget ih => exact ⟨rfl, fun hs e => agree_evalExpr hh (ih (used + 1)) e hs⟩

theorem runners_runModule (hh : L.Hosts host₁ host₂) :
    L.Runners (runModule host₁) (runModule host₂) := by
  intro i program r s p hs hp
  refine .get_bind fun j hij m₁ m₂ hm => ?_
  rw [hm.nesting]
  exact (runners_runProgram hh (evaluators_withBudget hh _ _) j program r s p
    (scope_mono hij hs) (path_mono hij hp)).at hm

theorem agree_callFromOutside (hh : L.Hosts host₁ host₂) {v w : Value} {vs ws : List Value}
    (hv : L.Values i v w) (hvs : Value.ListPaired (L.pairing i) vs ws) :
    L.Agree i L.Values (callFromOutside host₁ v vs) (callFromOutside host₂ w ws) := by
  refine .get_bind fun j hij m₁ m₂ hm => ?_
  rw [hm.nesting]
  refine (Agree.within ?_ fun a ha => absurd ha List.not_mem_nil).at hm
  exact agree_callValue hh (evaluators_withBudget hh _ _) (hv.mono hij)
    (hvs.mono (L.pairing_mono hij))

end

end Likeness

end Hotload
