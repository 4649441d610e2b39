import Hotload.Machine

/-!
# Outcomes of loads

Where the values and failures of loads go: to those who wait for them, to the log, or to a fallback
module.

* `Handler.deliver`, `Handler.report`: one outcome.
* `Handler.handle`: a failure, with a fallback in place of the module that failed.
-/

namespace Hotload

/-- The module to deliver after a failure, and whether somebody waits for failures. -/
structure Handler where
  fallback : Option Path
  hasListener : Bool

namespace Handler

variable {σ : Type}

/-- Hands out a value. -/
def deliver (value : Value) : Run σ Unit :=
  modify fun m => { m with world := m.world.deliver (.value value m.heap) }

/-- Hands out a failure, or logs it if nobody waits for failures. -/
def report (handler : Handler) (e : LoadError) : Run σ Unit :=
  Run.modifyWorld fun w =>
    if handler.hasListener then w.deliver (.report e)
    else w.mapLog (·.failure "load failed" e.report)

/-- Reports a failure and delivers the fallback in its place. Where there is neither a fallback nor
anybody who waits, the failure is given back as it is; so is one of the fallback. -/
def handle (handler : Handler) (e : LoadError) (load : Path → Run σ Value) :
    Run σ (Option Value) := do
  if handler.fallback.isNone && !handler.hasListener then throw e
  handler.report e
  match handler.fallback with
  | none => return none
  | some fallback =>
    Run.modifyWorld (·.note "reload" ("loading fallback " ++ fallback.text))
    let value ← load fallback
    deliver value
    return some value

end Handler

end Hotload
