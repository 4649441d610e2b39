import Mathlib
import Hotload.Reload.Orchestrator

/-!
# What an orchestrator does to its target

An orchestrator invalidates its target, reloads it and writes to the log. What each of these keeps,
every step of its loop keeps. If one target stands for another one, the loop does the same with
both.

* `Target.Keeps`: what a target keeps, given the number of reloads so far.
* `Target.Keeps.step`, `Target.Keeps.run`: the loop keeps it.
* `Target.Simulates`: one target stands for another one.
* `Target.Simulates.step`, `Target.Simulates.run`: the loop does the same with both.
-/

namespace Hotload

variable {τ τ' : Type}

/-! ## Steps of the loop -/

namespace Waiting

variable {T : Target τ} {deadline : Option Nat} {s : Waiting τ} {event : Event}
  {events : List Event}

theorem step_late (h : deadline.any (· ≤ s.now) = true) :
    s.step T deadline = (some .elapsed, s) := if_pos h

theorem step_event (h : ¬ deadline.any (· ≤ s.now) = true) (he : s.inbox.events = event :: events) :
    s.step T deadline = { s with inbox := { s.inbox with events } }.receive T event := by
  rw [step, if_neg h]
  simp only [he]

theorem step_empty (h : ¬ deadline.any (· ≤ s.now) = true) (he : s.inbox.events = []) :
    s.step T deadline =
      if s.inbox.closed then (some .shutdown, s.shutDown T) else s.pass T deadline := by
  rw [step, if_neg h]
  simp only [he]

end Waiting

/-! ## What is kept -/

/-- What an orchestrator does to a target keeps what is said of it and of the number of reloads. -/
structure Target.Keeps (T : Target τ) (P : Nat → τ → Prop) : Prop where
  invalidate : ∀ {n t}, P n t → ∀ p, P n (T.invalidate p t)
  reload : ∀ {n t}, P n t → P (n + 1) (T.reload t)
  note : ∀ {n t}, P n t → ∀ part message, P n (T.onWorld (·.note part message) t)
  debug : ∀ {n t}, P n t → ∀ part message, P n (T.onWorld (·.debug part message) t)

/-- It holds of the target of an orchestrator that waits. -/
def Waiting.Holds (P : Nat → τ → Prop) (s : Waiting τ) : Prop := P s.orchestrator.reloads s.target

namespace Target.Keeps

variable {T : Target τ} {P : Nat → τ → Prop} (h : T.Keeps P)

include h

theorem change {o : Orchestrator} {t : τ} (hP : P o.reloads t) (p : Path) (done : Nat) :
    P (o.change T p done t).1.reloads (o.change T p done t).2 := by
  have hinvalidated := h.invalidate (h.note hP "watch" ("detected file change: " ++ p.text)) p
  unfold Orchestrator.change
  dsimp only
  split
  · exact h.reload hinvalidated
  · exact h.debug hinvalidated _ _

theorem elapse {o : Orchestrator} {t : τ} (hP : P o.reloads t) (done : Nat) :
    P (o.elapse T done t).1.reloads (o.elapse T done t).2 := by
  unfold Orchestrator.elapse
  split
  · exact h.reload (h.debug hP _ _)
  · exact hP

variable {s : Waiting τ}

theorem receive (hs : s.Holds P) (event : Event) : (s.receive T event).2.Holds P := by
  cases event with
  | changed p => exact h.change hs p s.now
  | trouble e => exact h.note hs _ _
  | shutdown => exact h.debug hs _ _

theorem pass (hs : s.Holds P) (deadline : Option Nat) : (s.pass T deadline).2.Holds P := by
  unfold Waiting.pass
  split
  · exact hs
  · exact h.elapse hs _
  · exact hs

theorem step (hs : s.Holds P) (deadline : Option Nat) : (s.step T deadline).2.Holds P := by
  by_cases hlate : deadline.any (· ≤ s.now) = true
  · rwa [Waiting.step_late hlate]
  · cases hevents : s.inbox.events with
    | cons event events =>
      rw [Waiting.step_event hlate hevents]
      exact h.receive (s := { s with inbox := { s.inbox with events } }) hs event
    | nil =>
      rw [Waiting.step_empty hlate hevents]
      split
      · exact h.debug hs _ _
      · exact h.pass hs deadline

theorem run (hs : s.Holds P) (deadline : Option Nat) : (s.run T deadline).2.Holds P := by
  induction s using Waiting.run.induct T deadline with
  | case1 s exit s' hstep =>
    have hkept := h.step hs deadline
    rw [Waiting.run, hstep]
    rwa [hstep] at hkept
  | case2 s s' hstep ih =>
    have hkept := h.step hs deadline
    rw [hstep] at hkept
    rw [Waiting.run, hstep]
    exact ih hkept

end Target.Keeps

/-! ## Targets that stand for each other -/

/-- The first target stands for the second one. -/
structure Target.Simulates (T' : Target τ') (T : Target τ) (f : τ' → τ) : Prop where
  invalidate : ∀ p t, f (T'.invalidate p t) = T.invalidate p (f t)
  reload : ∀ t, f (T'.reload t) = T.reload (f t)
  onWorld : ∀ g t, f (T'.onWorld g t) = T.onWorld g (f t)

/-- The same orchestrator with another target. -/
def Waiting.map (f : τ' → τ) (s : Waiting τ') : Waiting τ :=
  ⟨s.inbox, s.now, s.orchestrator, f s.target⟩

namespace Target.Simulates

variable {T' : Target τ'} {T : Target τ} {f : τ' → τ} (h : T'.Simulates T f)

include h

theorem change (o : Orchestrator) (p : Path) (done : Nat) (t : τ') :
    o.change T p done (f t) = ((o.change T' p done t).1, f (o.change T' p done t).2) := by
  simp only [Orchestrator.change, ← h.onWorld, ← h.invalidate]
  rcases o.clock.invalidate with ⟨_ | _, clock⟩
  · rfl
  · simp only [Orchestrator.reload, ← h.reload]

theorem elapse (o : Orchestrator) (done : Nat) (t : τ') :
    o.elapse T done (f t) = ((o.elapse T' done t).1, f (o.elapse T' done t).2) := by
  simp only [Orchestrator.elapse, ← h.onWorld]
  rcases o.clock.elapse with ⟨_ | _, clock⟩
  · rfl
  · simp only [Orchestrator.reload, ← h.reload]

theorem receive (s : Waiting τ') (event : Event) :
    (s.map f).receive T event = ((s.receive T' event).1, (s.receive T' event).2.map f) := by
  cases event with
  | changed p => simp only [Waiting.receive, Waiting.map, Waiting.after, h.change]
  | trouble e => simp only [Waiting.receive, Waiting.map, h.onWorld]
  | shutdown => simp only [Waiting.receive, Waiting.map, Waiting.shutDown, h.onWorld]

theorem pass (s : Waiting τ') (deadline : Option Nat) :
    (s.map f).pass T deadline = ((s.pass T' deadline).1, (s.pass T' deadline).2.map f) := by
  simp only [Waiting.pass, Waiting.map]
  split
  · rfl
  · simp only [Waiting.after, h.elapse]
  · rfl

theorem step (s : Waiting τ') (deadline : Option Nat) :
    (s.map f).step T deadline = ((s.step T' deadline).1, (s.step T' deadline).2.map f) := by
  by_cases hlate : deadline.any (· ≤ s.now) = true
  · rw [Waiting.step_late hlate, Waiting.step_late (s := s.map f) hlate]
  · cases hevents : s.inbox.events with
    | cons event events =>
      rw [Waiting.step_event hlate hevents, Waiting.step_event (s := s.map f) hlate hevents]
      exact h.receive { s with inbox := { s.inbox with events } } event
    | nil =>
      rw [Waiting.step_empty hlate hevents, Waiting.step_empty (s := s.map f) hlate hevents]
      by_cases hclosed : s.inbox.closed = true
      · rw [if_pos hclosed, if_pos (show (s.map f).inbox.closed = true from hclosed)]
        simp only [Waiting.shutDown, Waiting.map, h.onWorld]
      · rw [if_neg hclosed, if_neg (show ¬ (s.map f).inbox.closed = true from hclosed)]
        exact h.pass s deadline

theorem run (s : Waiting τ') (deadline : Option Nat) :
    (s.map f).run T deadline = ((s.run T' deadline).1, (s.run T' deadline).2.map f) := by
  have hstep := h.step s deadline
  induction s using Waiting.run.induct T' deadline with
  | case1 s exit s' hs =>
    rw [hs] at hstep
    rw [Waiting.run, hstep, Waiting.run, hs]
  | case2 s s' hs ih =>
    rw [hs] at hstep
    rw [Waiting.run, hstep, Waiting.run, hs]
    exact ih (h.step s' deadline)

end Target.Simulates

end Hotload
