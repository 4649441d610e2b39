import Mathlib
import Hotload.Proofs.Module.Truth

/-!
# Generations of modules

A generation lasts from one invalidation to the next. What is shown holds after any requests to a new
module system, with a chronicle that the system is served alike with and without.

* `bodies_run_once`: within a generation a body starts again only after a failure; who asks for a
  module in between is given the exports object of the body under way, or what it left.
* `loads_leave_no_remains`: after a load only modules whose bodies have run to their ends are live.
* `answers_hold`: no module holds on to what a failed one left, unless it asked for it in a cycle.
* `survivor_holds_failed_exports`: a module can outlive the failed one in such a cycle.
-/

namespace Hotload

/-! ## Requests from outside -/

/-- What a module system starts with. The heap may hold values for its overrides. -/
structure Setting where
  heap : Heap
  world : World
  overrides : List (String × Value)
  options : Options
  compiler : Compiler
  store : Shelf
  watcher : Watcher

namespace Setting

/-- A module system that has loaded nothing. -/
def start (x : Setting) : Machine ModuleSystem :=
  ⟨x.heap, x.world, ⟨0, []⟩, .none, .new x.overrides x.options x.compiler x.store x.watcher⟩

/-- The state after some requests. -/
def reached (x : Setting) (history : List Request) : Machine ModuleSystem :=
  history.foldl ModuleSystem.serve x.start

/-- The state after the same requests with a chronicle. -/
def recorded (x : Setting) (history : List Request) : Machine Chronicle :=
  history.foldl Chronicle.serve (Chronicle.chronicled x.start ⟨x.start.host, []⟩)

/-- What has happened to the modules in the course of some requests. -/
def events (x : Setting) (history : List Request) : List ModuleEvent :=
  (x.recorded history).host.events

end Setting

namespace Chronicle

/-- No call is under way, and no body is. -/
structure Resting (m : Machine ModuleSystem) (c : Chronicle) : Prop where
  host : m.host = c.system
  sound : c.Sound
  nesting : m.nesting = .none
  stack : m.running.stack = []
  settled : ∀ p exports, Hotload.standing p c.events ≠ .running exports

variable {m : Machine ModuleSystem} {c c' : Chronicle}

theorem Resting.meets (h : Resting m c) : likeness.Meets c m (chronicled m c) :=
  meets_iff.2 ⟨h.host, rfl, h.sound⟩

/-- A computation that agrees with one that keeps the chronicle leaves all at rest. -/
theorem Resting.after {α β : Type} {x : Run ModuleSystem α} {y : Run Chronicle β}
    {Q : likeness.Stage → α → β → Prop} (h : Resting m c)
    (hagree : likeness.AgreeAt c Q x y m (chronicled m c)) :
    ∃ c', c ≤ c' ∧ y.after (chronicled m c) = chronicled (x.after m) c' ∧
      Resting (x.after m) c' := by
  obtain ⟨⟨c', hlater, -, hmeets⟩, hcalls⟩ := hagree
  obtain ⟨hhost, hafter, hsound⟩ := meets_iff.1 hmeets
  refine ⟨c', hlater, hafter, hhost, hsound, hcalls.nesting.trans h.nesting, ?_,
    fun p exports => ?_⟩
  · have hstack := hcalls.stack
    rw [h.stack] at hstack
    exact List.map_eq_nil_iff.1 hstack
  · rcases hlater.standing p with hp | ⟨-, v, hv⟩
    · rw [hp]
      exact h.settled p exports
    · rw [hv]
      nofun

theorem Resting.load (h : Resting m c) (p : Path) :
    ∃ c', c ≤ c' ∧ serve (chronicled m c) (.load p) = chronicled (ModuleSystem.serve m (.load p)) c' ∧
      Resting (ModuleSystem.serve m (.load p)) c' := by
  have hagree : likeness.AgreeAt c likeness.Values (ModuleSystem.load p) (Chronicle.load p) m
      (chronicled m c) :=
    (agree_requireModule (Likeness.runners_runModule hosts) p).at h.meets
  exact h.after hagree

theorem Resting.require (h : Resting m c) (specifier : String) (dir : Path) :
    ∃ c', c ≤ c' ∧ serve (chronicled m c) (.require specifier dir) =
        chronicled (ModuleSystem.serve m (.require specifier dir)) c' ∧
      Resting (ModuleSystem.serve m (.require specifier dir)) c' := by
  have hagree : likeness.AgreeAt c likeness.Values
      (ModuleSystem.require (runModule ModuleSystem.host) specifier dir)
      (Chronicle.require (runModule Chronicle.host) specifier dir) m (chronicled m c) :=
    (hosts.require (Likeness.runners_runModule hosts) c specifier dir).at h.meets
  exact h.after hagree

theorem Resting.call (h : Resting m c) (callee : Value) (args : List Value) :
    ∃ c', c ≤ c' ∧ serve (chronicled m c) (.call callee args) =
        chronicled (ModuleSystem.serve m (.call callee args)) c' ∧
      Resting (ModuleSystem.serve m (.call callee args)) c' := by
  have hagree : likeness.AgreeAt c likeness.Values (ModuleSystem.call callee args)
      (callFromOutside Chronicle.host callee args) m (chronicled m c) :=
    (Likeness.agree_callFromOutside hosts (Value.paired_same callee)
      (Value.listPaired_same_iff.2 rfl)).at h.meets
  exact h.after hagree

theorem Resting.release (h : Resting m c) :
    ∃ c', c ≤ c' ∧ serve (chronicled m c) .release = chronicled (ModuleSystem.serve m .release) c' ∧
      Resting (ModuleSystem.serve m .release) c' :=
  h.after (agreeAt_inSystem h.meets (ModuleSystem.keeps_release m))

/-- A change of a file ends a generation: no module has exports any more. -/
theorem Resting.invalidate (h : Resting m c) (p : Path) :
    ∃ c', serve (chronicled m c) (.invalidate p) =
        chronicled (ModuleSystem.serve m (.invalidate p)) c' ∧
      Resting (ModuleSystem.serve m (.invalidate p)) c' := by
  have hidle : ∀ q, Hotload.standing q (c.events ++ [.invalidated p]) = .idle := by
    intro q
    rw [standing_snoc]
    rfl
  refine ⟨⟨{ c.system with registry := c.system.registry.invalidate p },
    c.events ++ [.invalidated p]⟩, ?_, ?_, ?_, h.nesting, h.stack, fun q exports => ?_⟩
  · obtain ⟨heap, world, running, nesting, host⟩ := m
    cases h.host
    rfl
  · obtain ⟨heap, world, running, nesting, host⟩ := m
    cases h.host
    rfl
  · exact h.sound.snoc trivial nofun fun q => Registry.exports?_invalidate _ p q
  · rw [hidle q]
    nofun

/-- The module system is served alike with a chronicle and without it. -/
theorem Resting.serve (h : Resting m c) (request : Request) :
    ∃ c', Chronicle.serve (chronicled m c) request =
        chronicled (ModuleSystem.serve m request) c' ∧
      Resting (ModuleSystem.serve m request) c' := by
  cases request with
  | load p =>
    obtain ⟨c', -, hserved, hrest⟩ := h.load p
    exact ⟨c', hserved, hrest⟩
  | require specifier dir =>
    obtain ⟨c', -, hserved, hrest⟩ := h.require specifier dir
    exact ⟨c', hserved, hrest⟩
  | call callee args =>
    obtain ⟨c', -, hserved, hrest⟩ := h.call callee args
    exact ⟨c', hserved, hrest⟩
  | invalidate p => exact h.invalidate p
  | release =>
    obtain ⟨c', -, hserved, hrest⟩ := h.release
    exact ⟨c', hserved, hrest⟩
  | outside f => exact ⟨c, rfl, h.host, h.sound, h.nesting, h.stack, h.settled⟩

theorem resting_start (x : Setting) : Resting x.start ⟨x.start.host, []⟩ where
  host := rfl
  sound := ⟨fun _ => rfl, allFit_nil, prompt_nil⟩
  nesting := rfl
  stack := rfl
  settled _ _ := nofun

theorem Resting.served (h : Resting m c) (history : List Request) :
    ∃ c', history.foldl Chronicle.serve (chronicled m c) =
        chronicled (history.foldl ModuleSystem.serve m) c' ∧
      Resting (history.foldl ModuleSystem.serve m) c' := by
  induction history generalizing m c with
  | nil => exact ⟨c, rfl, h⟩
  | cons request history ih =>
    obtain ⟨c', hserved, hrest⟩ := h.serve request
    rw [List.foldl_cons, List.foldl_cons, hserved]
    exact ih hrest

end Chronicle

namespace Setting

variable (x : Setting) (history : List Request)

/-- The chronicle of some requests, with the module system that is served without it. -/
def chronicle : Chronicle := ⟨(x.reached history).host, x.events history⟩

theorem resting_reached : Chronicle.Resting (x.reached history) (x.chronicle history) := by
  obtain ⟨c, hserved, hrest⟩ := (Chronicle.resting_start x).served history
  have hc : x.chronicle history = c := by
    have hevents : x.events history = c.events :=
      congrArg (fun m : Machine Chronicle => m.host.events) hserved
    rw [chronicle, hevents, show (x.reached history).host = c.system from hrest.host]
  rw [hc]
  exact hrest

/-- To keep a chronicle changes nothing. -/
theorem recorded_eq :
    x.recorded history = Chronicle.chronicled (x.reached history) (x.chronicle history) := by
  obtain ⟨c, hserved, hrest⟩ := (Chronicle.resting_start x).served history
  have hevents : x.events history = c.events :=
    congrArg (fun m : Machine Chronicle => m.host.events) hserved
  rw [chronicle, hevents, show (x.reached history).host = c.system from hrest.host]
  exact hserved

end Setting

/-! ## Each body once in a generation -/

/-- What the events of a module system say of the starts of bodies and of those who ask for modules. -/
structure OncePerGeneration (events : List ModuleEvent) : Prop where
  /-- A body that starts again in one generation has failed in between. -/
  restarted : ∀ {a b c : List ModuleEvent} {p q : Path} {first second : ObjectRef},
    events = a ++ .started p first :: (c ++ .started q second :: b) → p.same q →
    (∀ e ∈ c, ¬ e.Invalidates) →
    ∃ middle r error rest, c = middle ++ .failed r error :: rest ∧ r.same p ∧
      ∀ e ∈ middle, ¬ e.Concerns p
  /-- Who asks for a module whose body is under way is given its exports object at once. -/
  circular : ∀ {a b c : List ModuleEvent} {p q asker : Path} {exports : ObjectRef},
    events = a ++ .started p exports :: (c ++ .asked asker q :: b) → p.same q →
    (∀ e ∈ c, ¬ e.Ends p) → ∃ rest, b = .answered asker q (.ok (.object exports)) :: rest
  /-- Who asks for a module whose body has run to its end is given what it left, at once. -/
  settled : ∀ {a b c : List ModuleEvent} {p q asker : Path} {value : Value},
    events = a ++ .finished p value :: (c ++ .asked asker q :: b) → p.same q →
    (∀ e ∈ c, ¬ e.Invalidates) → ∃ rest, b = .answered asker q (.ok value) :: rest

theorem oncePerGeneration {events : List ModuleEvent} (hfit : AllFit events)
    (hprompt : Prompt events) : OncePerGeneration events where
  restarted := by
    intro a b c p q first second hevents hpq hc
    have hsplit : events = (a ++ [.started p first] ++ c) ++ .started q second :: b := by
      simp [hevents]
    rw [hsplit] at hfit
    have hidle : standing p (a ++ [.started p first] ++ c) = .idle := by
      rw [standing_congr hpq]
      exact hfit.head
    have hstarted : standing p (a ++ [.started p first]) = .running first := by
      simp [Standing.next]
    exact failed_of_running hfit.left hstarted hidle hc
  circular := by
    intro a b c p q asker exports hevents hpq hc
    have hsplit : events = (a ++ [.started p exports] ++ c) ++ .asked asker q :: b := by
      simp [hevents]
    have hrunning : standing q (a ++ [.started p exports] ++ c) = .running exports := by
      rw [← standing_congr hpq]
      exact standing_running (hsplit ▸ hfit).left (by simp [Standing.next]) hc
    exact hprompt _ asker q b _ hsplit (by rw [hrunning]; rfl)
  settled := by
    intro a b c p q asker value hevents hpq hc
    have hsplit : events = (a ++ [.finished p value] ++ c) ++ .asked asker q :: b := by
      simp [hevents]
    have hdone : standing q (a ++ [.finished p value] ++ c) = .done value := by
      rw [← standing_congr hpq]
      exact standing_done (hsplit ▸ hfit).left (by simp [Standing.next]) hc
    exact hprompt _ asker q b _ hsplit (by rw [hdone]; rfl)

/-- Within a generation the body of a module runs once, however modules ask for each other and
however their paths are written, and it runs again only after it has failed. -/
theorem bodies_run_once (x : Setting) (history : List Request) :
    x.recorded history = Chronicle.chronicled (x.reached history) (x.chronicle history) ∧
      OncePerGeneration (x.events history) :=
  have hsound := (x.resting_reached history).sound
  ⟨x.recorded_eq history, oncePerGeneration hsound.fits hsound.prompt⟩

/-! ## What a load leaves behind -/

/-- The registry after a load, seen from the one before it and from all that has happened. -/
structure LeavesNoRemains (before after : Machine ModuleSystem) (events : List ModuleEvent) :
    Prop where
  /-- The body of a live module has run to its end, and nothing has concerned the module since. -/
  completed : ∀ (p : Path) (v : Value), after.host.registry.exports? p = some v →
    ∃ (a b : List ModuleEvent) (q : Path), events = a ++ .finished q v :: b ∧ q.same p ∧
      ∀ e ∈ b, ¬ e.Concerns p
  /-- A module whose body has not ended since it started is not live. -/
  unfinished : ∀ {a b : List ModuleEvent} {p : Path} {exports : ObjectRef},
    events = a ++ .started p exports :: b →
    (∀ q v, .finished q v ∈ b → ¬ q.same p) → after.host.registry.exports? p = none
  /-- A module whose body has failed and has not run to its end since is not live. -/
  failed : ∀ {a b : List ModuleEvent} {p : Path} {error : LoadError},
    events = a ++ .failed p error :: b →
    (∀ q v, .finished q v ∈ b → ¬ q.same p) → after.host.registry.exports? p = none
  /-- Exports that were live before stay live. -/
  exports : ∀ (p : Path) (v : Value), before.host.registry.exports? p = some v →
    after.host.registry.exports? p = some v
  /-- Bodies that were parsed before stay parsed. -/
  compiled : ∀ (p : Path) (body : List Syntax.Stmt),
    before.host.registry.compiled? p = some body → after.host.registry.compiled? p = some body
  nesting : after.nesting = .none

namespace Chronicle

variable {m : Machine ModuleSystem} {c : Chronicle} {p : Path} {v : Value}

/-- While no body is under way, a module is live exactly if its body has left something. -/
theorem Resting.live_iff (h : Resting m c) :
    m.host.registry.exports? p = some v ↔ Hotload.standing p c.events = .done v := by
  rw [h.host, h.sound.live p]
  cases hs : Hotload.standing p c.events with
  | idle => simp [Standing.exports?]
  | running exports => exact absurd hs (h.settled p exports)
  | done w => simp [Standing.exports?]

theorem Resting.not_live (h : Resting m c) (hs : ∀ v, Hotload.standing p c.events ≠ .done v) :
    m.host.registry.exports? p = none := by
  cases hlive : m.host.registry.exports? p with
  | none => rfl
  | some v => exact absurd (h.live_iff.1 hlive) (hs v)

end Chronicle

/-- The state and the chronicle after one more request. -/
theorem Setting.reached_snoc (x : Setting) (history : List Request) (request : Request) :
    x.reached (history ++ [request]) = ModuleSystem.serve (x.reached history) request := by
  simp [Setting.reached]

theorem Setting.chronicle_load_later (x : Setting) (history : List Request) (p : Path) :
    x.chronicle history ≤ x.chronicle (history ++ [.load p]) := by
  obtain ⟨c, hlater, hserved, hrest⟩ := (x.resting_reached history).load p
  have hevents : x.events (history ++ [.load p]) = c.events := by
    have hrecorded : x.recorded (history ++ [.load p]) =
        Chronicle.serve (x.recorded history) (.load p) := by
      simp [Setting.recorded]
    rw [x.recorded_eq history, hserved] at hrecorded
    exact congrArg (fun m : Machine Chronicle => m.host.events) hrecorded
  have hc : x.chronicle (history ++ [.load p]) = c := by
    rw [Setting.chronicle, hevents, x.reached_snoc, show (ModuleSystem.serve _ _).host = c.system from
      hrest.host]
  rw [hc]
  exact hlater

/-- After a load, failed or not, the live modules are those whose bodies have run to their ends. -/
theorem loads_leave_no_remains (x : Setting) (history : List Request) (p : Path) :
    let after := (ModuleSystem.load p).after (x.reached history)
    x.recorded (history ++ [.load p]) =
        Chronicle.chronicled after (x.chronicle (history ++ [.load p])) ∧
      LeavesNoRemains (x.reached history) after (x.events (history ++ [.load p])) := by
  have hrest := x.resting_reached (history ++ [.load p])
  have hbefore := x.resting_reached history
  have hlater := x.chronicle_load_later history p
  have hrecorded := x.recorded_eq (history ++ [.load p])
  have hafter : x.reached (history ++ [.load p]) =
      (ModuleSystem.load p).after (x.reached history) := x.reached_snoc history (.load p)
  rw [hafter] at hrest hrecorded
  refine ⟨hrecorded, fun q v hq => ?_, fun {a b q exports} hevents hb => ?_,
    fun {a b q error} hevents hb => ?_, fun q v hq => ?_, fun q body hq => ?_, hrest.nesting⟩
  · obtain ⟨a, r, b, hevents, hr, hb⟩ := exists_finished (hrest.live_iff.1 hq)
    exact ⟨a, b, r, hevents, hr, hb⟩
  · have hsplit : (x.chronicle (history ++ [.load p])).events = a ++ [.started q exports] ++ b :=
      hevents.trans (by simp)
    exact hrest.not_live fun v => hsplit ▸ standing_ne_done (by simp [Standing.next]) hb v
  · have hsplit : (x.chronicle (history ++ [.load p])).events = a ++ [.failed q error] ++ b :=
      hevents.trans (by simp)
    exact hrest.not_live fun v => hsplit ▸ standing_ne_done (by simp [Standing.next]) hb v
  · have hdone := hbefore.live_iff.1 hq
    rcases hlater.standing q with hsame | ⟨hidle, -⟩
    · exact hrest.live_iff.2 (hsame.trans hdone)
    · rw [hdone] at hidle
      cases hidle
  · rw [hrest.host]
    exact hlater.compiled q body (hbefore.host ▸ hq)

/-! ## What those who asked hold on to -/

/-- The value is the exports object of a module whose body is under way after these events. -/
def IsPartial (events : List ModuleEvent) (p : Path) (v : Value) : Prop :=
  ∃ (a b : List ModuleEvent) (q : Path) (exports : ObjectRef),
    events = a ++ .started q exports :: b ∧ q.same p ∧ (∀ e ∈ b, ¬ e.Concerns p) ∧
      v = .object exports

/-- Who has been answered in the present generation holds live exports, but for requests that closed
a cycle. -/
structure AnswersHold (m : Machine ModuleSystem) (events : List ModuleEvent) : Prop where
  /-- An answer is what the module still exports, or it was given while its body was under way. -/
  live : ∀ {a b : List ModuleEvent} {asker p : Path} {v : Value},
    events = a ++ .answered asker p (.ok v) :: b → (∀ e ∈ b, ¬ e.Invalidates) →
    m.host.registry.exports? p = some v ∨ IsPartial a p v
  /-- An answer is only given before its module fails while the body that fails is under way. -/
  failed : ∀ {a b c : List ModuleEvent} {asker p q : Path} {v : Value} {error : LoadError},
    events = a ++ .answered asker p (.ok v) :: (c ++ .failed q error :: b) → q.same p →
    (∀ e ∈ c, ¬ e.Invalidates) → IsPartial a p v

/-- What was given as an answer. -/
theorem Fits.answered {events : List ModuleEvent} {asker p : Path} {v : Value}
    (h : Fits events (.answered asker p (.ok v))) :
    IsPartial events p v ∨ standing p events = .done v := by
  rw [Fits] at h
  cases hs : standing p events with
  | idle =>
    rw [hs] at h
    cases h
  | running exports =>
    rw [hs] at h
    cases h
    obtain ⟨a, q, b, hevents, hq, hb⟩ := exists_started hs
    exact .inl ⟨a, b, q, exports, hevents, hq, hb, rfl⟩
  | done w =>
    rw [hs] at h
    cases h
    exact .inr rfl

/-- No module holds on to the exports of one that has failed, unless it asked for it in a cycle. -/
theorem answers_hold (x : Setting) (history : List Request) :
    AnswersHold (x.reached history) (x.events history) := by
  have hrest := x.resting_reached history
  have hfit : AllFit (x.events history) := hrest.sound.fits
  constructor
  · intro a b asker p v hevents hb
    have hsplit : x.events history = a ++ [.answered asker p (.ok v)] ++ b := hevents.trans (by simp)
    rcases (hevents ▸ hfit).head.answered with hpartial | hdone
    · exact .inr hpartial
    · refine .inl (hrest.live_iff.2 ?_)
      have hsnoc : standing p (a ++ [.answered asker p (.ok v)]) = .done v := by
        rw [standing_snoc, hdone]
        rfl
      change standing p (x.events history) = .done v
      rw [hsplit] at hfit ⊢
      exact standing_done hfit hsnoc hb
  · intro a b c asker p q v error hevents hq hc
    have hsplit : x.events history =
        a ++ [.answered asker p (.ok v)] ++ c ++ .failed q error :: b := hevents.trans (by simp)
    rcases (hevents ▸ hfit).head.answered with hpartial | hdone
    · exact hpartial
    · have hsnoc : standing p (a ++ [.answered asker p (.ok v)]) = .done v := by
        rw [standing_snoc, hdone]
        rfl
      rw [hsplit] at hfit
      obtain ⟨exports, hrunning⟩ := hfit.head
      rw [standing_congr hq, standing_done hfit.left hsnoc hc] at hrunning
      cases hrunning

/-- A module asks for another one, fails once, and works the second time; the other one asks for it
in turn. -/
def mutualModules : Setting where
  heap := .empty
  world := ⟨⟨.dir [("app", .dir [
      ("a.rl", .file "let b = require('./b'); if (!b.t) \x7b b.t = true; b(); \x7d".toUTF8),
      ("b.rl", .file "exports.a = require('./a');".toUTF8)])], []⟩, .empty false, []⟩
  overrides := []
  options := { Options.default with sourceMap := .off }
  compiler := transpile
  store := .none
  watcher := .disabled

namespace ModuleEvent

/-- The event starts a body with this exports object. -/
def isStart (p : Path) (r : ObjectRef) : ModuleEvent → Bool
  | .started q s => q = p && s = r
  | _ => false

/-- The event ends a body with a failure. -/
def isFailure (p : Path) : ModuleEvent → Bool
  | .failed q _ => q = p
  | _ => false

/-- The event answers a request with this object. -/
def isAnswer (asker p : Path) (r : ObjectRef) : ModuleEvent → Bool
  | .answered asker' q (.ok (.object s)) => asker' = asker && q = p && s = r
  | _ => false

variable {events : List ModuleEvent} {asker p : Path} {r : ObjectRef}

theorem mem_of_isStart (h : events.any (isStart p r)) : .started p r ∈ events := by
  obtain ⟨e, he, hstart⟩ := List.any_eq_true.1 h
  cases e with
  | started q s =>
    simp only [isStart, Bool.and_eq_true, decide_eq_true_eq] at hstart
    obtain ⟨rfl, rfl⟩ := hstart
    exact he
  | _ => cases hstart

theorem mem_of_isFailure (h : events.any (isFailure p)) : ∃ error, .failed p error ∈ events := by
  obtain ⟨e, he, hfailure⟩ := List.any_eq_true.1 h
  cases e with
  | failed q error =>
    simp only [isFailure, decide_eq_true_eq] at hfailure
    cases hfailure
    exact ⟨error, he⟩
  | _ => cases hfailure

theorem mem_of_isAnswer (h : events.any (isAnswer asker p r)) :
    .answered asker p (.ok (.object r)) ∈ events := by
  obtain ⟨e, he, hanswer⟩ := List.any_eq_true.1 h
  unfold isAnswer at hanswer
  split at hanswer
  · simp only [Bool.and_eq_true, decide_eq_true_eq] at hanswer
    obtain ⟨⟨rfl, rfl⟩, rfl⟩ := hanswer
    exact he
  · cases hanswer

end ModuleEvent

/-- The object that a load gives. -/
def loadedObject? : Except LoadError Value → Option ObjectRef
  | .ok (.object r) => some r
  | _ => none

theorem eq_of_loadedObject? {outcome : Except LoadError Value} {r : ObjectRef}
    (h : loadedObject? outcome = some r) : outcome = .ok (.object r) := by
  unfold loadedObject? at h
  split at h
  · cases h
    rfl
  · cases h

/-- A module survives that holds on to the exports object of one that has failed. The next load of
that one makes another object. -/
theorem survivor_holds_failed_exports :
    let a : Path := ⟨"/app/a.rl"⟩
    let b : Path := ⟨"/app/b.rl"⟩
    let m := mutualModules.reached [.load a]
    let events := mutualModules.events [.load a]
    ∃ r s : ObjectRef, r ≠ s ∧ .started a r ∈ events ∧ (∃ error, .failed a error ∈ events) ∧
      .answered b a (.ok (.object r)) ∈ events ∧ (m.host.registry.exports? b).isSome ∧
      (∃ error, (ModuleSystem.load a).outcome mutualModules.start = .error error) ∧
      (ModuleSystem.load a).outcome m = .ok (.object s) := by
  intro a b m events
  have hrun : (events.any (ModuleEvent.isStart a ⟨0⟩) && events.any (ModuleEvent.isFailure a) &&
      events.any (ModuleEvent.isAnswer b a ⟨0⟩) && (m.host.registry.exports? b).isSome &&
      ((ModuleSystem.load a).outcome mutualModules.start).toOption.isNone &&
      loadedObject? ((ModuleSystem.load a).outcome m) = some ⟨4⟩) = true := by
    decide +kernel
  simp only [Bool.and_eq_true, decide_eq_true_eq] at hrun
  obtain ⟨⟨⟨⟨⟨hstart, hfailure⟩, hanswer⟩, hlive⟩, herror⟩, hloaded⟩ := hrun
  refine ⟨⟨0⟩, ⟨4⟩, by decide, ModuleEvent.mem_of_isStart hstart,
    ModuleEvent.mem_of_isFailure hfailure, ModuleEvent.mem_of_isAnswer hanswer, hlive, ?_,
    eq_of_loadedObject? hloaded⟩
  cases hout : (ModuleSystem.load a).outcome mutualModules.start with
  | error e => exact ⟨e, rfl⟩
  | ok v =>
    rw [hout] at herror
    cases herror

end Hotload
