import Mathlib
import Hotload.Session
import Hotload.Proofs.Module.Silence

/-!
# Rounds of loads

A session that loads its entry goes through a round: it loads the entry and, if that fails and
there is a fallback, the fallback. A tally writes down each load as it ends; the session does the
same with it and without it.

* `Attempt`, `Tally`: a load that was asked for, and a module system that writes them down.
* `Tally.forgets_loadEntry`: the tally changes nothing.
* `Attempt.tell`: what is told of a load.
* `Session.Round`: the loads of a round, and what the session gives back.
* `Session.surfaces_loadEntry`, `Session.surfaces_reload`: of each load of a round it is told once,
  unless its failure is given back.
-/

namespace Hotload

/-! ## Attempts -/

/-- A load that was asked for, how it has come out, and the heap that it left. -/
structure Attempt where
  path : Path
  outcome : Except LoadError Value
  heap : Heap

/-- What is told after an attempt: its value is delivered, or its failure is reported to the
listener and logged if there is none. -/
def Attempt.tell (hasListener : Bool) (told : List Delivery × List LogEntry) (a : Attempt) :
    List Delivery × List LogEntry :=
  match a.outcome with
  | .ok value => (.value value a.heap :: told.1, told.2)
  | .error e =>
    if hasListener then (.report e :: told.1, told.2)
    else (told.1, .failure "load failed" e.report :: told.2)

/-- A module system and the loads that it was asked for, the earliest first. -/
structure Tally where
  system : ModuleSystem
  attempts : List Attempt

namespace Tally

variable {α β : Type}

/-- Nothing has been asked for yet. -/
def start (m : Machine ModuleSystem) : Machine Tally :=
  ⟨m.heap, m.world, m.running, m.nesting, ⟨m.host, []⟩⟩

/-- The machine without the tally. -/
def forget (m : Machine Tally) : Machine ModuleSystem :=
  ⟨m.heap, m.world, m.running, m.nesting, m.host.system⟩

theorem forget_start (m : Machine ModuleSystem) : forget (start m) = m := rfl

/-- A step of the module system. -/
def inSystem (x : Run ModuleSystem α) : Run Tally α := fun m =>
  let (outcome, after) := x.run (forget m)
  (outcome, { after with host := { m.host with system := after.host } })

/-- A load of a file, which is written down. -/
def noted (p : Path) (x : Run ModuleSystem Value) : Run Tally Value := fun m =>
  let (outcome, after) := x.run (forget m)
  (outcome,
    { after with host := ⟨after.host, m.host.attempts ++ [⟨p, outcome, after.heap⟩]⟩ })

theorem attempts_noted (p : Path) (x : Run ModuleSystem Value) (m : Machine Tally) :
    ((noted p x).after m).host.attempts =
      m.host.attempts ++ [⟨p, (noted p x).outcome m, ((noted p x).after m).heap⟩] := rfl

theorem world_noted (p : Path) (x : Run ModuleSystem Value) (m : Machine Tally) :
    ((noted p x).after m).world = (x.after (forget m)).world := rfl

/-- The exports of a file. -/
def load (p : Path) : Run Tally Value := noted p (ModuleSystem.load p)

/-! ### The tally changes nothing -/

/-- The computations end alike, and leave the same behind but for the tally. -/
def Forgets (x : Run Tally α) (y : Run ModuleSystem α) : Prop :=
  ∀ m, x.outcome m = y.outcome (forget m) ∧ forget (x.after m) = y.after (forget m)

namespace Forgets

variable {x : Run Tally α} {y : Run ModuleSystem α}

theorem pure (a : α) : Forgets (Pure.pure a) (Pure.pure a) := fun _ => ⟨rfl, rfl⟩

theorem throw (e : LoadError) :
    Forgets (MonadExcept.throw e : Run Tally α) (MonadExcept.throw e) := fun _ => ⟨rfl, rfl⟩

theorem bind {f : α → Run Tally β} {g : α → Run ModuleSystem β} (h : Forgets x y)
    (hfg : ∀ a, Forgets (f a) (g a)) : Forgets (x >>= f) (y >>= g) := by
  intro m
  obtain ⟨hout, hafter⟩ := h m
  cases hx : x.outcome m with
  | ok a =>
    rw [Run.outcome_bind_ok hx, Run.after_bind_ok hx, Run.outcome_bind_ok (hout ▸ hx),
      Run.after_bind_ok (hout ▸ hx), ← hafter]
    exact hfg a _
  | error e =>
    rw [Run.outcome_bind_error hx, Run.after_bind_error hx, Run.outcome_bind_error (hout ▸ hx),
      Run.after_bind_error (hout ▸ hx)]
    exact ⟨rfl, hafter⟩

theorem observe (h : Forgets x y) : Forgets (Run.observe x) (Run.observe y) := fun m =>
  ⟨congrArg Except.ok (h m).1, (h m).2⟩

theorem inSystem (y : Run ModuleSystem α) : Forgets (Tally.inSystem y) y := fun _ => ⟨rfl, rfl⟩

theorem noted (p : Path) (y : Run ModuleSystem Value) : Forgets (Tally.noted p y) y :=
  fun _ => ⟨rfl, rfl⟩

theorem load (p : Path) : Forgets (Tally.load p) (ModuleSystem.load p) := noted p _

theorem modifyWorld (f : World → World) : Forgets (Run.modifyWorld f) (Run.modifyWorld f) :=
  fun _ => ⟨rfl, rfl⟩

theorem deliver (value : Value) : Forgets (Handler.deliver value) (Handler.deliver value) :=
  fun _ => ⟨rfl, rfl⟩

theorem report (handler : Handler) (e : LoadError) :
    Forgets (handler.report e) (handler.report e) := fun _ => ⟨rfl, rfl⟩

theorem handle (handler : Handler) (e : LoadError) :
    Forgets (handler.handle e Tally.load) (handler.handle e ModuleSystem.load) := by
  unfold Handler.handle
  dsimp only
  split
  · exact throw e
  · refine (report handler e).bind fun _ => ?_
    split
    · exact pure none
    · exact (modifyWorld _).bind fun _ => (load _).bind fun v => (deliver v).bind fun _ => pure _

end Forgets

end Tally

/-! ## Sessions with a tally -/

namespace Session

/-- `Session.loadEntry` with other ways to load a file and to release. -/
def loadEntryBy {σ : Type} (session : Session) (load : Path → Run σ Value) (release : Run σ Nat) :
    Run σ (Option Value) := do
  let delivered ← match ← Run.observe (load session.entry) with
    | .ok value => do
      Run.modifyWorld (·.mapLog (·.success ("loaded " ++ session.entry.text)))
      Handler.deliver value
      pure (some value)
    | .error e => session.handler.handle e load
  if delivered.isSome then
    let _ ← release
  return delivered

theorem loadEntryBy_system (session : Session) :
    session.loadEntryBy ModuleSystem.load ModuleSystem.release = session.loadEntry := rfl

/-- What follows the load of a reload: a failure that is given back is reported. -/
def concludeBy {σ : Type} (session : Session) : Except LoadError (Option Value) → Run σ Unit
  | .ok _ => return ()
  | .error e => session.handler.report e

/-- `Session.reload` with other ways to load a file and to release. -/
def reloadBy {σ : Type} (session : Session) (load : Path → Run σ Value) (release : Run σ Nat) :
    Run σ Unit := do
  Run.modifyWorld (·.note "reload" ("reloading " ++ session.entry.text))
  session.concludeBy (← Run.observe (session.loadEntryBy load release))

theorem reloadBy_system (session : Session) :
    session.reloadBy ModuleSystem.load ModuleSystem.release = session.reload := rfl

/-- What follows the load of the entry, given its outcome, up to the delivery. -/
def answerBy {σ : Type} (session : Session) (load : Path → Run σ Value) :
    Except LoadError Value → Run σ (Option Value)
  | .ok value => do
    Run.modifyWorld (·.mapLog (·.success ("loaded " ++ session.entry.text)))
    Handler.deliver value
    return some value
  | .error e => session.handler.handle e load

/-- What follows the delivery. -/
def finishBy {σ : Type} (release : Run σ Nat) (delivered : Option Value) :
    Run σ (Option Value) := do
  if delivered.isSome then
    let _ ← release
  return delivered

theorem loadEntryBy_eq {σ : Type} (session : Session) (load : Path → Run σ Value)
    (release : Run σ Nat) :
    session.loadEntryBy load release =
      Run.observe (load session.entry) >>= fun o =>
        session.answerBy load o >>= finishBy release := by
  unfold loadEntryBy
  refine bind_congr fun o => ?_
  cases o with
  | ok value => rfl
  | error e => rfl

/-- The session loads its entry, and each load is written down. -/
def tallied (session : Session) : Run Tally (Option Value) :=
  session.loadEntryBy Tally.load (Tally.inSystem ModuleSystem.release)

/-- The session loads its entry once more, and each load is written down. -/
def talliedReload (session : Session) : Run Tally Unit :=
  session.reloadBy Tally.load (Tally.inSystem ModuleSystem.release)

/-- The loads of a first round. -/
def attempts (session : Session) (m : Machine ModuleSystem) : List Attempt :=
  (session.tallied.after (Tally.start m)).host.attempts

/-- The loads of a reload. -/
def reloadAttempts (session : Session) (m : Machine ModuleSystem) : List Attempt :=
  (session.talliedReload.after (Tally.start m)).host.attempts

end Session

namespace Tally

theorem Forgets.finish (delivered : Option Value) :
    Forgets (Session.finishBy (Tally.inSystem ModuleSystem.release) delivered)
      (Session.finishBy ModuleSystem.release delivered) := by
  cases delivered with
  | none => exact pure none
  | some value => exact (inSystem ModuleSystem.release).bind fun _ => pure (some value)

theorem forgets_loadEntry (session : Session) : Forgets session.tallied session.loadEntry := by
  rw [← session.loadEntryBy_system, Session.tallied, Session.loadEntryBy_eq, Session.loadEntryBy_eq]
  refine (Forgets.load session.entry).observe.bind fun o => ?_
  cases o with
  | ok value =>
    exact ((Forgets.modifyWorld _).bind fun _ => (Forgets.deliver value).bind fun _ =>
      .pure (some value)).bind .finish
  | error e => exact (Forgets.handle session.handler e).bind .finish

theorem forgets_reload (session : Session) : Forgets session.talliedReload session.reload := by
  rw [← session.reloadBy_system]
  refine (Forgets.modifyWorld _).bind fun _ => (forgets_loadEntry session).observe.bind fun o => ?_
  cases o with
  | ok delivered => exact .pure ()
  | error e => exact .report session.handler e

end Tally

/-! ## Accounts -/

/-- The second state comes after the first one with these loads in between. The first ones have been
told of, and the last ones have not. -/
structure Accounts (hasListener : Bool) (m m' : Machine Tally) (told untold : List Attempt) :
    Prop where
  attempts : m'.host.attempts = m.host.attempts ++ (told ++ untold)
  outcomes : m'.world.outcomes = told.foldl (Attempt.tell hasListener) m.world.outcomes

namespace Accounts

variable {hasListener : Bool} {m m' : Machine Tally} {told untold : List Attempt} {a : Attempt}

theorem refl (hasListener : Bool) (m : Machine Tally) : Accounts hasListener m m [] [] :=
  ⟨by simp, rfl⟩

/-- A step that is silent and loads nothing. -/
theorem silent {m'' : Machine Tally} (h : Accounts hasListener m m' told untold)
    (hattempts : m''.host.attempts = m'.host.attempts)
    (houtcomes : m''.world.outcomes = m'.world.outcomes) :
    Accounts hasListener m m'' told untold :=
  ⟨hattempts.trans h.attempts, houtcomes.trans h.outcomes⟩

/-- A load is silent; it has to be told of. -/
theorem load (h : Accounts hasListener m m' told []) (p : Path) :
    Accounts hasListener m ((Tally.load p).after m') told
      [⟨p, (Tally.load p).outcome m', ((Tally.load p).after m').heap⟩] where
  attempts := by
    rw [Tally.load, Tally.attempts_noted, h.attempts, List.append_nil, List.append_assoc]
  outcomes := by
    rw [Tally.load, Tally.world_noted, ModuleSystem.outcomes_load]
    exact h.outcomes

theorem tell {m'' : Machine Tally} (h : Accounts hasListener m m' told [a])
    (hattempts : m''.host.attempts = m'.host.attempts)
    (houtcomes : m''.world.outcomes = a.tell hasListener m'.world.outcomes) :
    Accounts hasListener m m'' (told ++ [a]) [] where
  attempts := by rw [hattempts, h.attempts, List.append_nil]
  outcomes := by rw [houtcomes, h.outcomes, List.foldl_append]; rfl

/-- A value is delivered with the heap that its load has left. -/
theorem deliver {p : Path} {value : Value}
    (h : Accounts hasListener m m' told [⟨p, .ok value, m'.heap⟩]) :
    Accounts hasListener m ((Handler.deliver value).after m')
      (told ++ [⟨p, .ok value, m'.heap⟩]) [] :=
  h.tell rfl rfl

/-- A failure goes to the listener or to the log. -/
theorem report {handler : Handler} {p : Path} {e : LoadError} {heap : Heap}
    (h : Accounts handler.hasListener m m' told [⟨p, .error e, heap⟩]) :
    Accounts handler.hasListener m ((handler.report e).after m')
      (told ++ [⟨p, .error e, heap⟩]) [] := by
  refine h.tell rfl ?_
  change World.outcomes (if handler.hasListener then _ else _) = _
  unfold Attempt.tell
  dsimp only
  split
  · rfl
  · rfl

theorem release (h : Accounts hasListener m m' told untold) :
    Accounts hasListener m ((Tally.inSystem ModuleSystem.release).after m') told untold :=
  h.silent rfl (ModuleSystem.outcomes_release (Tally.forget m'))

end Accounts

/-! ## What a round is -/

namespace Session

/-- The loads of a round, and what the session gives back. -/
inductive Round (session : Session) : List Attempt → Except LoadError (Option Value) → Prop where
  /-- The entry is there. -/
  | loaded (value : Value) (heap : Heap) :
    Round session [⟨session.entry, .ok value, heap⟩] (.ok (some value))
  /-- The entry has failed, and the listener is told. -/
  | reported (e : LoadError) (heap : Heap) (hfallback : session.handler.fallback = none)
    (hlistener : session.handler.hasListener = true) :
    Round session [⟨session.entry, .error e, heap⟩] (.ok none)
  /-- The entry has failed, and there is nobody to tell. -/
  | givenBack (e : LoadError) (heap : Heap) (hfallback : session.handler.fallback = none)
    (hlistener : session.handler.hasListener = false) :
    Round session [⟨session.entry, .error e, heap⟩] (.error e)
  /-- The entry has failed, and the fallback is there. -/
  | replaced (e : LoadError) (value : Value) (heap heap' : Heap) {fallback : Path}
    (hfallback : session.handler.fallback = some fallback) :
    Round session [⟨session.entry, .error e, heap⟩, ⟨fallback, .ok value, heap'⟩] (.ok (some value))
  /-- Both have failed. -/
  | lost (e e' : LoadError) (heap heap' : Heap) {fallback : Path}
    (hfallback : session.handler.fallback = some fallback) :
    Round session [⟨session.entry, .error e, heap⟩, ⟨fallback, .error e', heap'⟩] (.error e')

/-- The failure that is given back. -/
def givenBack : Except LoadError (Option Value) → List (Except LoadError Value)
  | .ok _ => []
  | .error e => [.error e]

/-- The second state comes after the first one with a round in between. All its loads have been told
of, but for the one whose failure is given back. -/
def Surfaces (session : Session) (m m' : Machine Tally) (o : Except LoadError (Option Value)) :
    Prop :=
  ∃ told untold, Accounts session.handler.hasListener m m' told untold ∧
    session.Round (told ++ untold) o ∧ untold.map (·.outcome) = givenBack o

end Session

/-! ## Failures -/

namespace Handler

variable {σ : Type} {handler : Handler} {load : Path → Run σ Value} {m : Machine σ} {e : LoadError}

theorem run_handle_givenBack (hfallback : handler.fallback = none)
    (hlistener : handler.hasListener = false) : (handler.handle e load).run m = (.error e, m) := by
  simp only [handle, hfallback, hlistener]
  rfl

theorem run_handle_reported (hfallback : handler.fallback = none)
    (hlistener : handler.hasListener = true) :
    (handler.handle e load).run m = (.ok none, (handler.report e).after m) := by
  simp only [handle, hfallback, hlistener]
  rfl

theorem run_handle_fallback {fallback : Path} (hfallback : handler.fallback = some fallback) :
    (handler.handle e load).run m =
      (load fallback >>= fun v => deliver v >>= fun _ => pure (some v)).run
        ((Run.modifyWorld (·.note "reload" ("loading fallback " ++ fallback.text))).after
          ((handler.report e).after m)) := by
  simp only [handle, hfallback]
  rfl

theorem run_deliver_pure (value : Value) (m : Machine σ) :
    (deliver value >>= fun _ => pure (some value)).run m =
      (.ok (some value), (deliver value).after m) := rfl

end Handler

/-! ## Rounds -/

namespace Session

variable {session : Session} {m m' : Machine Tally}

/-- The release that follows a delivery never fails. -/
theorem run_finish_delivered (value : Value) (m : Machine Tally) :
    (finishBy (Tally.inSystem ModuleSystem.release) (some value)).run m =
      (.ok (some value), (Tally.inSystem ModuleSystem.release).after m) := by
  obtain ⟨world, -, hrun⟩ := ModuleSystem.run_release (Tally.forget m)
  have hout : (Tally.inSystem ModuleSystem.release).outcome m =
      .ok (Tally.forget m).host.registry.retired.length := congrArg Prod.fst hrun
  exact (Run.run_bind_ok hout rfl).trans rfl

/-- What follows the delivery is silent. -/
theorem Surfaces.finish {x : Run Tally (Option Value)}
    (h : session.Surfaces m (x.after m') (x.outcome m')) :
    session.Surfaces m
      ((x >>= finishBy (Tally.inSystem ModuleSystem.release)).after m')
      ((x >>= finishBy (Tally.inSystem ModuleSystem.release)).outcome m') := by
  cases hx : x.outcome m' with
  | error e =>
    rw [Run.after_bind_error hx, Run.outcome_bind_error hx]
    rwa [hx] at h
  | ok delivered =>
    rw [hx] at h
    rw [Run.after_bind_ok hx, Run.outcome_bind_ok hx]
    generalize x.after m' = m₁ at h
    cases delivered with
    | none => exact h
    | some value =>
      obtain ⟨told, untold, haccounts, hround⟩ := h
      rw [Run.after, Run.outcome, run_finish_delivered]
      exact ⟨told, untold, haccounts.release, hround⟩

/-- The entry is there, and its value is delivered. -/
theorem surfaces_ok {value : Value}
    (h : Accounts session.handler.hasListener m m' [] [⟨session.entry, .ok value, m'.heap⟩]) :
    session.Surfaces m ((session.answerBy Tally.load (.ok value)).after m')
      ((session.answerBy Tally.load (.ok value)).outcome m') := by
  let m₁ : Machine Tally :=
    { m' with world := m'.world.mapLog (·.success ("loaded " ++ session.entry.text)) }
  have hlogged : Accounts session.handler.hasListener m m₁ [] _ :=
    h.silent rfl (World.outcomes_success _ _)
  exact ⟨_, [], hlogged.deliver, .loaded value m'.heap, rfl⟩

/-- The entry has failed, and there is no fallback. -/
theorem surfaces_error_alone {e : LoadError} (hfallback : session.handler.fallback = none)
    (h : Accounts session.handler.hasListener m m' [] [⟨session.entry, .error e, m'.heap⟩]) :
    session.Surfaces m ((session.answerBy Tally.load (.error e)).after m')
      ((session.answerBy Tally.load (.error e)).outcome m') := by
  rw [answerBy, Run.after, Run.outcome]
  cases hlistener : session.handler.hasListener with
  | false =>
    rw [Handler.run_handle_givenBack hfallback hlistener]
    exact ⟨[], _, h, .givenBack e m'.heap hfallback hlistener, rfl⟩
  | true =>
    rw [Handler.run_handle_reported hfallback hlistener]
    exact ⟨_, [], h.report, .reported e m'.heap hfallback hlistener, rfl⟩

/-- The entry has failed, and the fallback is loaded in its place. -/
theorem surfaces_error_fallback {e : LoadError} {fallback : Path}
    (hfallback : session.handler.fallback = some fallback)
    (h : Accounts session.handler.hasListener m m' [] [⟨session.entry, .error e, m'.heap⟩]) :
    session.Surfaces m ((session.answerBy Tally.load (.error e)).after m')
      ((session.answerBy Tally.load (.error e)).outcome m') := by
  rw [answerBy, Run.after, Run.outcome, Handler.run_handle_fallback hfallback]
  have hreported : Accounts session.handler.hasListener m
      ((Run.modifyWorld (·.note "reload" ("loading fallback " ++ fallback.text))).after
        ((session.handler.report e).after m')) [⟨session.entry, .error e, m'.heap⟩] [] :=
    h.report.silent rfl rfl
  generalize (Run.modifyWorld (·.note "reload" ("loading fallback " ++ fallback.text))).after
    ((session.handler.report e).after m') = m₁ at hreported ⊢
  have hload := hreported.load fallback
  -- The failure of the entry has been told of by now, so just the fallback is left.
  cases hout : (Tally.load fallback).outcome m₁ with
  | error e' =>
    rw [hout] at hload
    rw [← Run.outcome, ← Run.after, Run.outcome_bind_error hout, Run.after_bind_error hout]
    exact ⟨_, _, hload, .lost e e' m'.heap _ hfallback, rfl⟩
  | ok value =>
    rw [hout] at hload
    rw [Run.run_bind_ok hout rfl, Handler.run_deliver_pure]
    exact ⟨_, [], hload.deliver, .replaced e value m'.heap _ hfallback, rfl⟩

theorem surfaces_tallied (session : Session) (m : Machine Tally) :
    session.Surfaces m (session.tallied.after m) (session.tallied.outcome m) := by
  have hentry := (Accounts.refl session.handler.hasListener m).load session.entry
  rw [tallied, loadEntryBy_eq, Run.after, Run.outcome, Run.run_observe_bind]
  generalize (Tally.load session.entry).after m = m₁ at hentry ⊢
  generalize (Tally.load session.entry).outcome m = o at hentry ⊢
  refine Surfaces.finish ?_
  cases o with
  | ok value => exact surfaces_ok hentry
  | error e =>
    cases hfallback : session.handler.fallback with
    | none => exact surfaces_error_alone hfallback hentry
    | some fallback => exact surfaces_error_fallback hfallback hentry

theorem surfaces_talliedReload (session : Session) (m : Machine Tally) :
    ∃ told o, session.Round told o ∧
      Accounts session.handler.hasListener m (session.talliedReload.after m) told [] := by
  let noted : Machine Tally :=
    { m with world := m.world.note "reload" ("reloading " ++ session.entry.text) }
  have hrun : session.talliedReload.run m =
      (session.concludeBy (session.tallied.outcome noted)).run (session.tallied.after noted) :=
    (Run.run_bind_ok rfl rfl).trans (Run.run_observe_bind _ _ _)
  obtain ⟨told, untold, haccounts, hround, hgiven⟩ := session.surfaces_tallied noted
  rw [Run.after, hrun]
  generalize session.tallied.outcome noted = o at *
  generalize session.tallied.after noted = m₁ at *
  have haccounts : Accounts session.handler.hasListener m m₁ told untold :=
    ⟨haccounts.attempts, haccounts.outcomes⟩
  cases o with
  | ok delivered =>
    obtain rfl := List.map_eq_nil_iff.1 hgiven
    exact ⟨told, _, List.append_nil told ▸ hround, haccounts⟩
  | error e =>
    -- What is given back is the failure of the one load that nobody was told of.
    obtain ⟨⟨p, o, heap⟩, rfl, rfl⟩ := List.map_eq_singleton_iff.1 hgiven
    exact ⟨_, _, hround, haccounts.report⟩

/-- The loads of a round are the entry and, after a failure, the fallback. Each of them is told of
once, but for the one whose failure is given back. -/
theorem surfaces_loadEntry (session : Session) (m : Machine ModuleSystem) :
    session.Round (session.attempts m) (session.loadEntry.outcome m) ∧
      ∃ told untold, session.attempts m = told ++ untold ∧
        untold.map (·.outcome) = givenBack (session.loadEntry.outcome m) ∧
        (session.loadEntry.after m).world.outcomes =
          told.foldl (Attempt.tell session.handler.hasListener) m.world.outcomes := by
  obtain ⟨told, untold, haccounts, hround, hgiven⟩ := session.surfaces_tallied (Tally.start m)
  obtain ⟨hout, hafter⟩ := Tally.forgets_loadEntry session (Tally.start m)
  rw [Tally.forget_start] at hout hafter
  have hattempts : session.attempts m = told ++ untold := haccounts.attempts
  rw [hattempts, ← hout, ← hafter]
  exact ⟨hround, told, untold, rfl, hgiven, haccounts.outcomes⟩

/-- All loads of a reload are told of. -/
theorem surfaces_reload (session : Session) (m : Machine ModuleSystem) :
    (∃ o, session.Round (session.reloadAttempts m) o) ∧
      (session.reload.after m).world.outcomes =
        (session.reloadAttempts m).foldl (Attempt.tell session.handler.hasListener)
          m.world.outcomes := by
  obtain ⟨told, o, hround, haccounts⟩ := session.surfaces_talliedReload (Tally.start m)
  have hafter := (Tally.forgets_reload session (Tally.start m)).2
  rw [Tally.forget_start] at hafter
  have hattempts : session.reloadAttempts m = told :=
    haccounts.attempts.trans (List.append_nil told)
  rw [hattempts, ← hafter]
  exact ⟨⟨o, hround⟩, haccounts.outcomes⟩

end Session

end Hotload
