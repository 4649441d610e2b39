import Hotload.Reload.Clock
import Hotload.Watch.Event
import Hotload.World

/-!
# The orchestrator

Turns events into reloads, one after the other and not too often. Every change is passed on at once;
the reload that it asks for waits until the clock allows it.

* `Orchestrator.change`, `Orchestrator.elapse`: what a change and the end of a quiet period do.
* `Waiting.step`: the next thing that happens. Messages that have arrived come before the end of a
  quiet period, and a deadline that has passed before all.
* `Waiting.run`: steps up to an exit.
-/

namespace Hotload

/-- What an orchestrator drives. -/
structure Target (τ : Type) where
  /-- Takes note of a changed file. -/
  invalidate : Path → τ → τ
  reload : τ → τ
  onWorld : (World → World) → τ → τ

/-- The clock, the least time between two reloads, and the number of reloads so far. -/
structure Orchestrator where
  clock : ReloadClock
  quietPeriod : Nat
  reloads : Nat

namespace Orchestrator

variable {τ : Type}

/-- No reloads yet. -/
def new (quietPeriod : Nat) : Orchestrator := ⟨.idle, quietPeriod, 0⟩

/-- A reload, which ends at the given time. -/
def reload (target : Target τ) (o : Orchestrator) (done : Nat) (t : τ) : Orchestrator × τ :=
  ({ o with clock := o.clock.finish done o.quietPeriod, reloads := o.reloads + 1 }, target.reload t)

/-- A file has changed. A reload that starts now ends at the given time. -/
def change (target : Target τ) (o : Orchestrator) (p : Path) (done : Nat) (t : τ) :
    Orchestrator × τ :=
  let t := target.onWorld (·.note "watch" ("detected file change: " ++ p.text)) t
  let t := target.invalidate p t
  match o.clock.invalidate with
  | (true, clock) => { o with clock }.reload target done t
  | (false, clock) =>
    ({ o with clock },
      target.onWorld (·.debug "reload" ("reload in progress, queued " ++ p.text)) t)

/-- A quiet period is over. A reload that starts now ends at the given time. -/
def elapse (target : Target τ) (o : Orchestrator) (done : Nat) (t : τ) : Orchestrator × τ :=
  match o.clock.elapse with
  | (true, clock) =>
    { o with clock }.reload target done
      (target.onWorld (·.debug "reload" "quiet period over, reloading coalesced changes") t)
  | (false, clock) => ({ o with clock }, t)

end Orchestrator

/-- Messages that have arrived, the earliest first. -/
structure Inbox where
  events : List Event
  /-- Nobody is left to send more. -/
  closed : Bool

/-- No messages yet. -/
def Inbox.empty : Inbox := ⟨[], false⟩

/-- The inbox after messages have arrived. -/
def Inbox.send (inbox : Inbox) (events : List Event) : Inbox :=
  { inbox with events := inbox.events ++ events }

/-- Why an orchestrator stops waiting. -/
inductive Exit where
  | shutdown
  | elapsed
  /-- Nothing is left that could happen. -/
  | stalled
deriving DecidableEq, Repr

/-- An orchestrator that waits: the time, and what it waits for and drives. -/
structure Waiting (τ : Type) where
  inbox : Inbox
  now : Nat
  orchestrator : Orchestrator
  target : τ

namespace Waiting

variable {τ : Type}

/-- The orchestrator and its target after something has happened at a time. -/
def after (s : Waiting τ) (now : Nat) (next : Orchestrator × τ) : Waiting τ :=
  { s with now, orchestrator := next.1, target := next.2 }

/-- The world has been told that the end has come. -/
def shutDown (target : Target τ) (s : Waiting τ) : Waiting τ :=
  { s with target := target.onWorld (·.debug "reload" "shutting down") s.target }

/-- A message is taken in. -/
def receive (target : Target τ) (s : Waiting τ) : Event → Option Exit × Waiting τ
  | .changed p => (none, s.after s.now (s.orchestrator.change target p s.now s.target))
  | .trouble e => (none, { s with target := target.onWorld (·.note "watch" e.message) s.target })
  | .shutdown => (some .shutdown, s.shutDown target)

/-- Nothing has arrived: the next thing to happen is the end of the quiet period or the deadline,
whichever comes first. -/
def pass (target : Target τ) (deadline : Option Nat) (s : Waiting τ) : Option Exit × Waiting τ :=
  match deadline.filter fun limit => s.orchestrator.clock.quietUntil.all (limit ≤ ·),
    s.orchestrator.clock.quietUntil with
  | some limit, _ => (some .elapsed, { s with now := limit })
  | none, some quiet =>
    (none, s.after (max s.now quiet)
      (s.orchestrator.elapse target (max s.now quiet) s.target))
  | none, none => (some .stalled, s)

/-- The next thing that happens, and the exit that it leads to. -/
def step (target : Target τ) (deadline : Option Nat) (s : Waiting τ) : Option Exit × Waiting τ :=
  if deadline.any (· ≤ s.now) then (some .elapsed, s)
  else
    match s.inbox.events with
    | event :: events => { s with inbox := { s.inbox with events } }.receive target event
    | [] =>
      if s.inbox.closed then (some .shutdown, s.shutDown target) else s.pass target deadline

/-- How much can still happen if nobody sends more: a message can put off a reload, and a reload that
was put off is followed by one more quiet period. -/
def load (s : Waiting τ) : Nat :=
  3 * s.inbox.events.length + 2 * s.orchestrator.clock.pending.toNat
    + s.orchestrator.clock.quietUntil.isSome.toNat

theorem load_receive_lt (target : Target τ) (s : Waiting τ) (event : Event) :
    (s.receive target event).2.load < s.load + 3 := by
  cases event with
  | changed p =>
    simp only [receive, after, load, Orchestrator.change, Orchestrator.reload, ReloadClock.invalidate]
    cases s.orchestrator.clock.inProgress <;> cases s.orchestrator.clock.pending <;>
      cases s.orchestrator.clock.quietUntil <;> simp [ReloadClock.finish]
  | trouble e => simp [receive, load]
  | shutdown => simp [receive, shutDown, load]

theorem load_pass_lt (target : Target τ) (deadline : Option Nat) (s : Waiting τ)
    (h : (s.pass target deadline).1 = none) : (s.pass target deadline).2.load < s.load := by
  unfold pass at h ⊢
  split at h
  · simp at h
  · rename_i quiet _ hq
    simp only [after, load, Orchestrator.elapse, Orchestrator.reload, ReloadClock.elapse, hq]
    cases s.orchestrator.clock.pending <;> simp [ReloadClock.finish]
  · simp at h

theorem load_step_lt (target : Target τ) (deadline : Option Nat) (s : Waiting τ)
    (h : (s.step target deadline).1 = none) : (s.step target deadline).2.load < s.load := by
  unfold step at h ⊢
  split at h
  · simp at h
  · rename_i hd
    rw [if_neg hd]
    split at h
    · rename_i event events he
      refine Nat.lt_of_lt_of_le (load_receive_lt target _ event) ?_
      simp only [load, he, List.length_cons]
      omega
    · split at h
      · simp at h
      · rename_i hc
        rw [if_neg hc]
        exact load_pass_lt target deadline s h

/-- Steps up to an exit. -/
def run (target : Target τ) (deadline : Option Nat) (s : Waiting τ) : Exit × Waiting τ :=
  match _h : s.step target deadline with
  | (some exit, s') => (exit, s')
  | (none, s') => run target deadline s'
termination_by s.load
decreasing_by
  have := load_step_lt target deadline s (by rw [_h])
  rwa [_h] at this

end Waiting

end Hotload
