/-!
# The reload clock

When a reload may start. A reload and the quiet period after it count as one stretch of progress; a
change that falls into it is put off to its end, and any number of such changes are one. Times are
in milliseconds.

* `ReloadClock.invalidate`, `ReloadClock.finish`, `ReloadClock.elapse`: what happens to the clock.
-/

namespace Hotload

/-- The state of the clock. -/
structure ReloadClock where
  /-- A reload is under way, or the quiet period after it. -/
  inProgress : Bool
  /-- A change has been put off. -/
  pending : Bool
  /-- The end of the quiet period. -/
  quietUntil : Option Nat
deriving DecidableEq, Repr

namespace ReloadClock

/-- Nothing is under way. -/
def idle : ReloadClock := ⟨false, false, none⟩

/-- A file has changed. Says whether a reload starts now. -/
def invalidate (c : ReloadClock) : Bool × ReloadClock :=
  if c.inProgress then (false, { c with pending := true }) else (true, { c with inProgress := true })

/-- A reload has ended, and a quiet period begins. -/
def finish (c : ReloadClock) (now quiet : Nat) : ReloadClock :=
  { c with quietUntil := some (now + quiet) }

/-- The quiet period is over. Says whether a reload starts now. -/
def elapse (c : ReloadClock) : Bool × ReloadClock :=
  if c.pending then (true, { c with pending := false, quietUntil := none })
  else (false, { c with inProgress := false, quietUntil := none })

/-- What is left of the quiet period. -/
def remaining? (c : ReloadClock) (now : Nat) : Option Nat := c.quietUntil.map (· - now)

end ReloadClock

end Hotload
