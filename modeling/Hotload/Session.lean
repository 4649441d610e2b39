import Hotload.Handler
import Hotload.Module.System
import Hotload.Reload.Orchestrator

/-!
# Sessions

A session loads one entry module again and again and hands out what comes of it.

* `Session.loadEntry`: one load, with a fallback after a failure.
* `Session.target`: the session as what an orchestrator drives.
-/

namespace Hotload

/-- The entry module, and where its outcomes go. -/
structure Session where
  entry : Path
  handler : Handler

namespace Session

/-- Loads the entry. Retired scopes are emptied once something new has been delivered. -/
def loadEntry (session : Session) : Run ModuleSystem (Option Value) := do
  let delivered ← match ← Run.observe (ModuleSystem.load session.entry) with
    | .ok value => do
      Run.modifyWorld (·.mapLog (·.success ("loaded " ++ session.entry.text)))
      Handler.deliver value
      pure (some value)
    | .error e => session.handler.handle e ModuleSystem.load
  if delivered.isSome then
    let _ ← ModuleSystem.release
  return delivered

/-- Loads the entry once more. A failure that is given back is reported. -/
def reload (session : Session) : Run ModuleSystem Unit := do
  Run.modifyWorld (·.note "reload" ("reloading " ++ session.entry.text))
  match ← Run.observe session.loadEntry with
  | .ok _ => return ()
  | .error e => session.handler.report e

/-- The session and its module system under an orchestrator. -/
def target (session : Session) : Target (Machine ModuleSystem) where
  invalidate p m := (ModuleSystem.invalidate p m).2
  reload m := (session.reload m).2
  onWorld f m := { m with world := f m.world }

end Session

end Hotload
