import Mathlib
import Hotload.Proofs.Loader.Configuration
import Hotload.Proofs.Loader.Rounds
import Hotload.Proofs.Reload.Targets

/-!
# Every load surfaces once

A loader is configured once, and then files change, time passes, messages arrive, and it takes them
in. Every load of the entry or of the fallback comes to light once in such a run: its value is
delivered, or its failure is reported to the listener, logged, or given back by the configuration.

* `Happening`: what can happen to a loader after its configuration.
* `LiveLoader.firstRound`, `LiveLoader.laterRounds`: the loads of a run, round by round.
* `Happening.surfaces`: what one of them adds.
* `LiveLoader.every_load_surfaces_once`: what is told in a whole run.
-/

namespace Hotload

/-! ## Rounds under an orchestrator -/

/-- A session under an orchestrator, with the rounds of its reloads written down. -/
def Session.talliedTarget (session : Session) :
    Target (Machine ModuleSystem × List (List Attempt)) where
  invalidate p t := (session.target.invalidate p t.1, t.2)
  reload t := (session.target.reload t.1, t.2 ++ [session.reloadAttempts t.1])
  onWorld f t := (session.target.onWorld f t.1, t.2)

theorem Session.simulates_talliedTarget (session : Session) :
    session.talliedTarget.Simulates session.target Prod.fst :=
  ⟨fun _ _ => rfl, fun _ => rfl, fun _ _ => rfl⟩

/-- After this many reloads, these rounds have come since there were fewer and since this had been
told. -/
structure Session.Counts (session : Session) (fewer : Nat) (told : List Delivery × List LogEntry)
    (reloads : Nat) (t : Machine ModuleSystem × List (List Attempt)) : Prop where
  reloads : reloads = fewer + t.2.length
  rounds : ∀ attempts ∈ t.2, ∃ o, session.Round attempts o
  outcomes : t.1.world.outcomes =
    t.2.flatten.foldl (Attempt.tell session.handler.hasListener) told

namespace Session

variable {session : Session} {fewer n : Nat} {told : List Delivery × List LogEntry}
  {t : Machine ModuleSystem × List (List Attempt)}

/-- A change of the world that tells nothing. -/
theorem Counts.onWorld (h : session.Counts fewer told n t) {f : World → World}
    (hf : (f t.1.world).outcomes = t.1.world.outcomes) :
    session.Counts fewer told n (session.talliedTarget.onWorld f t) :=
  ⟨h.reloads, h.rounds, hf.trans h.outcomes⟩

theorem keeps_counts (session : Session) (fewer : Nat) (told : List Delivery × List LogEntry) :
    session.talliedTarget.Keeps (session.Counts fewer told) where
  invalidate h _ := ⟨h.reloads, h.rounds, h.outcomes⟩
  reload {n t} h := by
    obtain ⟨hround, houtcomes⟩ := session.surfaces_reload t.1
    refine ⟨?_, fun attempts hmem => ?_, ?_⟩
    · simp only [talliedTarget, List.length_append, List.length_singleton, h.reloads, Nat.add_assoc]
    · rcases List.mem_append.1 hmem with hmem | hmem
      · exact h.rounds attempts hmem
      · rwa [List.mem_singleton.1 hmem]
    · simp only [talliedTarget, List.flatten_append, List.flatten_singleton, List.foldl_append]
      rw [← h.outcomes]
      exact houtcomes
  note h part message := h.onWorld (World.outcomes_note _ part message)
  debug h part message := h.onWorld (World.outcomes_debug _ part message)

end Session

/-- The loads of the entry in place of what the session gives back. -/
def Session.attempted (session : Session) : Run ModuleSystem (List Attempt) := fun m =>
  (.ok (session.attempts m), session.loadEntry.after m)

/-! ## Happenings -/

/-- What can happen to a loader: its files change, time passes, messages arrive, and it takes them
in, by one step or up to an exit. -/
inductive Happening where
  | edit (f : FileTree → FileTree)
  | wait (time : Nat)
  | send (events : List Event)
  | step (deadline : Option Nat)
  | run (deadline : Option Nat)

namespace LiveLoader

/-- One step of `LiveLoader.run`. -/
def step (deadline : Option Nat) : Run LiveLoader (Option Exit) := do
  let active ← getActive
  let m ← get
  let start : Waiting (Machine ModuleSystem) :=
    ⟨m.host.inbox, m.host.now, active.orchestrator, { m with host := active.system }⟩
  let (exit, s) := start.step active.session.target deadline
  let active := { active with orchestrator := s.orchestrator, system := s.target.host }
  let host := { m.host with inbox := s.inbox, now := s.now, active := some active }
  set { s.target with host }
  return exit

end LiveLoader

namespace Happening

variable {τ τ' : Type}

/-- The loader after something has happened to it. -/
def after (m : Machine LiveLoader) : Happening → Machine LiveLoader
  | edit f => { m with world := { m.world with files := f m.world.files } }
  | wait time => { m with host := { m.host with now := m.host.now + time } }
  | send events => (LiveLoader.send events).after m
  | step deadline => (LiveLoader.step deadline).after m
  | run deadline => (LiveLoader.run deadline).after m

/-- What happens to the orchestrator of a loader. -/
def on (T : Target τ) (s : Waiting τ) : Happening → Waiting τ
  | edit f => { s with target := T.onWorld (fun w => { w with files := f w.files }) s.target }
  | wait time => { s with now := s.now + time }
  | send events => { s with inbox := s.inbox.send events }
  | step deadline => (s.step T deadline).2
  | run deadline => (s.run T deadline).2

theorem on_map {T' : Target τ'} {T : Target τ} {f : τ' → τ} (h : T'.Simulates T f) (s : Waiting τ')
    (x : Happening) : x.on T (s.map f) = (x.on T' s).map f := by
  cases x with
  | edit g => simp only [on, Waiting.map, h.onWorld]
  | wait time => rfl
  | send events => rfl
  | step deadline => exact congrArg Prod.snd (h.step s deadline)
  | run deadline => exact congrArg Prod.snd (h.run s deadline)

theorem counts_on {session : Session} {fewer : Nat} {told : List Delivery × List LogEntry}
    {s : Waiting (Machine ModuleSystem × List (List Attempt))}
    (h : s.Holds (session.Counts fewer told)) (x : Happening) :
    (x.on session.talliedTarget s).Holds (session.Counts fewer told) := by
  cases x with
  | edit f => exact h.onWorld (World.outcomes_withFiles _ _)
  | wait time => exact h
  | send events => exact h
  | step deadline => exact (session.keeps_counts fewer told).step h deadline
  | run deadline => exact (session.keeps_counts fewer told).run h deadline

end Happening

namespace Active

/-- The orchestrator of a loader with what it waits for and drives. -/
def waiting (active : Active) (m : Machine LiveLoader) : Waiting (Machine ModuleSystem) :=
  ⟨m.host.inbox, m.host.now, active.orchestrator, { m with host := active.system }⟩

/-- The loader whose orchestrator has come this far. -/
def resumed (active : Active) (m : Machine LiveLoader) (s : Waiting (Machine ModuleSystem)) :
    Machine LiveLoader :=
  { s.target with
    host := { m.host with
      inbox := s.inbox
      now := s.now
      active := some { active with orchestrator := s.orchestrator, system := s.target.host } } }

end Active

namespace Happening

variable {m : Machine LiveLoader} {active : Active}

/-- Whatever happens to a configured loader happens to its orchestrator. -/
theorem after_active (h : m.host.active = some active) (x : Happening) :
    x.after m = active.resumed m (x.on active.session.target (active.waiting m)) := by
  obtain ⟨heap, world, running, nesting, ⟨compiler, host, subscriber, store, polling, inbox, now, active'⟩⟩ := m
  cases h
  cases x with
  | edit f => rfl
  | wait time => rfl
  | send events => rfl
  | step deadline => rfl
  | run deadline => rfl

/-- Nothing is loaded by a loader that is not configured. -/
theorem after_idle (h : m.host.active = none) (x : Happening) :
    (x.after m).host.active = none ∧ (x.after m).world.outcomes = m.world.outcomes := by
  obtain ⟨heap, world, running, nesting, ⟨compiler, host, subscriber, store, polling, inbox, now, active'⟩⟩ := m
  cases h
  cases x with
  | edit f => exact ⟨rfl, rfl⟩
  | wait time => exact ⟨rfl, rfl⟩
  | send events => exact ⟨rfl, rfl⟩
  | step deadline => exact ⟨rfl, rfl⟩
  | run deadline => exact ⟨rfl, rfl⟩

/-- The rounds that come of something that happens. -/
def rounds (m : Machine LiveLoader) (x : Happening) : List (List Attempt) :=
  match m.host.active with
  | none => []
  | some active => (x.on active.session.talliedTarget ((active.waiting m).map (·, []))).target.2

/-- What comes of something that happens: so many reloads, each of them a round whose loads are all
told of. -/
theorem surfaces (h : m.host.active = some active) (x : Happening) :
    ∃ active', (x.after m).host.active = some active' ∧ active'.session = active.session ∧
      active'.orchestrator.reloads = active.orchestrator.reloads + (x.rounds m).length ∧
      (∀ attempts ∈ x.rounds m, ∃ o, active.session.Round attempts o) ∧
      (x.after m).world.outcomes = (x.rounds m).flatten.foldl
        (Attempt.tell active.session.handler.hasListener) m.world.outcomes := by
  let start := (active.waiting m).map fun t => (t, ([] : List (List Attempt)))
  have hstart : start.Holds (active.session.Counts active.orchestrator.reloads m.world.outcomes) :=
    ⟨rfl, fun _ hmem => (List.not_mem_nil hmem).elim, rfl⟩
  have hcounts := counts_on hstart x
  have hrounds : x.rounds m = (x.on active.session.talliedTarget start).target.2 := by
    rw [rounds, h]
  have hon := on_map active.session.simulates_talliedTarget start x
  -- The rounds are counted where they are written down; without them this is the loader itself.
  have hback : start.map Prod.fst = active.waiting m := rfl
  rw [hback] at hon
  rw [after_active h, hon, hrounds]
  exact ⟨_, rfl, rfl, hcounts.reloads, hcounts.rounds, hcounts.outcomes⟩

end Happening

namespace LiveLoader

/-! ## Whole runs -/

/-- The rounds that come of all that happens. -/
def laterRounds (m : Machine LiveLoader) : List Happening → List (List Attempt)
  | [] => []
  | x :: later => x.rounds m ++ laterRounds (x.after m) later

/-- Nothing is loaded or told by a loader that is not configured, whatever happens. -/
theorem idle_happenings {m : Machine LiveLoader} (h : m.host.active = none)
    (later : List Happening) :
    laterRounds m later = [] ∧
      (later.foldl Happening.after m).world.outcomes = m.world.outcomes := by
  induction later generalizing m with
  | nil => exact ⟨rfl, rfl⟩
  | cons x later ih =>
    obtain ⟨hactive, houtcomes⟩ := x.after_idle h
    obtain ⟨hrounds, htold⟩ := ih hactive
    refine ⟨?_, htold.trans houtcomes⟩
    rw [laterRounds, hrounds, Happening.rounds, h]
    rfl

/-- What comes of all that happens to a configured loader. -/
theorem surfaces_happenings {m : Machine LiveLoader} {active : Active}
    (h : m.host.active = some active) (later : List Happening) :
    reloads (later.foldl Happening.after m).host =
        active.orchestrator.reloads + (laterRounds m later).length ∧
      (∀ attempts ∈ laterRounds m later, ∃ o, active.session.Round attempts o) ∧
      (later.foldl Happening.after m).world.outcomes = (laterRounds m later).flatten.foldl
        (Attempt.tell active.session.handler.hasListener) m.world.outcomes := by
  induction later generalizing m active with
  | nil =>
    refine ⟨?_, fun _ hmem => (List.not_mem_nil hmem).elim, rfl⟩
    simp only [List.foldl_nil, reloads, h, Option.map_some, Option.getD_some, laterRounds,
      List.length_nil, Nat.add_zero]
  | cons x later ih =>
    obtain ⟨active', hactive, hsession, hreloads, hrounds, houtcomes⟩ := x.surfaces h
    obtain ⟨hcount, hlater, htold⟩ := ih hactive
    rw [hsession] at hlater htold
    refine ⟨?_, fun attempts hmem => ?_, ?_⟩
    · rw [List.foldl_cons, hcount, hreloads, laterRounds, List.length_append, Nat.add_assoc]
    · rcases List.mem_append.1 hmem with hmem | hmem
      · exact hrounds attempts hmem
      · exact hlater attempts hmem
    · rw [List.foldl_cons, htold, houtcomes, laterRounds, List.flatten_append, List.foldl_append]

/-! ## Configurations -/

/-- The end of `LiveLoader.configure`, once the store is open, with something else in place of the
load. -/
def setUpBy {α : Type} (request : LoadRequest) (hasListener : Bool)
    (load : Session → Run ModuleSystem α) (compiler : Compiler) (store : Shelf) :
    Run LiveLoader α := do
  let options := request.options
  let watcher ← takeWatcher options
  let .standard ← takeHost
  let files := (← get).world.files
  let entry := files.normalize request.entry
  let fallback := options.fallback.map files.normalize
  let shown := match fallback with
    | some p => "Some(" ++ String.ofList (Text.quotedAll p.chars) ++ ")"
    | none => "None"
  Run.modifyWorld
    (·.debug "reload" ("configured " ++ entry.text ++ " (fallback: " ++ shown ++ ")"))
  let session : Session := ⟨entry, ⟨fallback, hasListener⟩⟩
  let system := ModuleSystem.new request.overrides options compiler store watcher
  Run.modifyHost fun l =>
    { l with active := some ⟨session, .new options.watch.quietPeriod, system⟩ }
  inSystem (load session)

/-- `LiveLoader.configure` with something else in place of the load. -/
def configureBy {α : Type} (request : LoadRequest) (hasListener : Bool)
    (load : Session → Run ModuleSystem α) : Run LiveLoader α := do
  if (← get).host.active.isSome then throw (.config .alreadyConfigured)
  Run.ofExcept (request.options.validate.mapError .config)
  let compiler ← takeCompiler
  let store ← openStore request.options
  setUpBy request hasListener load compiler store

theorem configureBy_loadEntry (request : LoadRequest) (hasListener : Bool) :
    configureBy request hasListener Session.loadEntry = configure request hasListener := rfl

/-- The files of a configuration, with the directory of its cache among them. -/
def cachedFiles (options : Options) (files : FileTree) : FileTree :=
  match options.cacheDir with
  | some dir => (files.ensureDirs dir).2
  | none => files

/-- The session that a configuration sets up over some files. -/
def sessionOf (request : LoadRequest) (hasListener : Bool) (files : FileTree) : Session :=
  ⟨files.normalize request.entry, ⟨request.options.fallback.map files.normalize, hasListener⟩⟩

/-- Opening a store changes the files, if it succeeds and if it fails. -/
theorem openStore_cases (options : Options) (m : Machine LiveLoader) :
    let world := { m.world with files := cachedFiles options m.world.files }
    (∃ c, (openStore options).run m = (.error (.config c), { m with world })) ∨
      ∃ shelf store, (openStore options).run m =
        (.ok shelf, { m with world, host := { m.host with store } }) := by
  cases hdir : options.cacheDir with
  | none =>
    refine .inr ⟨m.host.store.getD .none, none, ?_⟩
    rw [cachedFiles, openStore, hdir]
    rfl
  | some dir =>
    cases hmade : (m.world.files.ensureDirs dir).1 with
    | error e =>
      refine .inl ⟨.unreadable dir (.file e), (run_openStore_error hdir hmade).trans ?_⟩
      rw [cachedFiles, hdir]
    | ok =>
      refine .inr ⟨.directory ⟨dir⟩, m.host.store, ?_⟩
      rw [cachedFiles, openStore, hdir]
      refine (Run.run_bind_ok rfl rfl).trans ?_
      simp only [hmade]
      rfl

/-- A watcher is set up in any case. The log may tell that it does not watch. -/
theorem run_takeWatcher (options : Options) (m : Machine LiveLoader) :
    ∃ watcher log subscriber,
      let world := { m.world with log }
      (takeWatcher options).run m = (.ok watcher, { m with world, host := { m.host with subscriber } }) ∧
        world.outcomes = m.world.outcomes := by
  obtain ⟨heap, world, running, nesting, ⟨compiler, host, subscriber, store, polling, inbox, now, active⟩⟩ := m
  cases henabled : options.watch.enabled with
  | false => exact ⟨.disabled, world.log, subscriber, by simp [takeWatcher, henabled]; rfl, rfl⟩
  | true =>
    cases subscriber with
    | some accepts => exact ⟨_, world.log, none, by simp [takeWatcher, henabled]; rfl, rfl⟩
    | none =>
      cases polling with
      | ok accepts => exact ⟨_, world.log, none, by simp [takeWatcher, henabled]; rfl, rfl⟩
      | error e =>
        let line := e.message ++ ", continuing without file watching"
        exact ⟨.disabled, world.log.note "watch" line, none, by simp [takeWatcher, henabled]; rfl,
          world.outcomes_note "watch" line⟩

/-- The session is set up, which tells nothing, and then it loads. -/
theorem run_setUpBy (request : LoadRequest) (hasListener : Bool) (compiler : Compiler)
    (store : Shelf) (m : Machine LiveLoader) :
    ∃ m' active, m'.host.active = some active ∧ m'.world.outcomes = m.world.outcomes ∧
      active.session = sessionOf request hasListener m.world.files ∧
      active.orchestrator.reloads = 0 ∧
      ∀ {α : Type} (load : Session → Run ModuleSystem α),
        (setUpBy request hasListener load compiler store).run m =
          (inSystem (load active.session)).run m' := by
  obtain ⟨watcher, log, subscriber, hwatcher, houtcomes⟩ := run_takeWatcher request.options m
  have hout : (takeWatcher request.options).outcome m = .ok watcher := congrArg Prod.fst hwatcher
  let session := sessionOf request hasListener m.world.files
  let shown := match session.handler.fallback with
    | some p => "Some(" ++ String.ofList (Text.quotedAll p.chars) ++ ")"
    | none => "None"
  let active : Active := ⟨session, .new request.options.watch.quietPeriod,
    .new request.overrides request.options compiler store watcher⟩
  let line := "configured " ++ session.entry.text ++ " (fallback: " ++ shown ++ ")"
  refine ⟨{ m with
    world := { m.world with log }.debug "reload" line
    host := { m.host with subscriber, host := none, active := some active } }, active, rfl,
    (World.outcomes_debug _ _ _).trans houtcomes, rfl, rfl, fun load => ?_⟩
  exact (Run.run_bind_ok hout (congrArg Prod.snd hwatcher)).trans rfl

/-- A configuration is rejected before it loads anything, or it sets up a session and loads. Neither
tells anything but what comes of the load. -/
theorem configureBy_cases {m : Machine LiveLoader} (hactive : m.host.active = none)
    (request : LoadRequest) (hasListener : Bool) :
    (∃ c m', m'.host.active = none ∧ m'.world.outcomes = m.world.outcomes ∧
      ∀ {α : Type} (load : Session → Run ModuleSystem α),
        (configureBy request hasListener load).run m = (.error (.config c), m')) ∨
      ∃ m' active, m'.host.active = some active ∧ m'.world.outcomes = m.world.outcomes ∧
        active.session =
          sessionOf request hasListener (cachedFiles request.options m.world.files) ∧
        active.orchestrator.reloads = 0 ∧
        ∀ {α : Type} (load : Session → Run ModuleSystem α),
          (configureBy request hasListener load).run m =
            (inSystem (load active.session)).run m' := by
  cases hvalid : request.options.validate with
  | error c =>
    refine .inl ⟨c, m, hactive, rfl, fun load => ?_⟩
    unfold configureBy
    refine (Run.run_bind_ok rfl rfl).trans ?_
    simp only [hactive, hvalid]
    rfl
  | ok _ =>
    let taken : Machine LiveLoader := { m with host := { m.host with compiler := none } }
    let compiler := m.host.compiler.getD transpile
    have hrun : ∀ {α : Type} (load : Session → Run ModuleSystem α),
        (configureBy request hasListener load).run m =
          (openStore request.options >>= setUpBy request hasListener load compiler).run taken := by
      intro α load
      unfold configureBy
      refine (Run.run_bind_ok rfl rfl).trans ?_
      simp only [hactive, hvalid]
      rfl
    rcases openStore_cases request.options taken with ⟨c, hopen⟩ | ⟨shelf, store, hopen⟩
    · refine .inl ⟨c, { taken with
        world := { m.world with files := cachedFiles request.options m.world.files } },
        hactive, World.outcomes_withFiles _ _, fun load => ?_⟩
      exact (hrun load).trans (Prod.ext (Run.outcome_bind_error (congrArg Prod.fst hopen))
        ((Run.after_bind_error (congrArg Prod.fst hopen)).trans (congrArg Prod.snd hopen)))
    · obtain ⟨m', active, hset, houtcomes, hsession, hreloads, hsetUp⟩ :=
        run_setUpBy request hasListener compiler shelf ((openStore request.options).after taken)
      have hafter : (openStore request.options).after taken = _ := congrArg Prod.snd hopen
      rw [hafter] at houtcomes hsession
      refine .inr ⟨m', active, hset, houtcomes, hsession, hreloads, fun load => ?_⟩
      exact (hrun load).trans ((Run.run_bind_ok (congrArg Prod.fst hopen) rfl).trans (hsetUp load))

/-- The round of a configuration, if it comes to one. -/
def firstRound (m : Machine LiveLoader) (request : LoadRequest) (hasListener : Bool) :
    List (List Attempt) :=
  ((configureBy request hasListener Session.attempted).outcome m).toOption.toList

theorem after_inSystem {α : Type} {m : Machine LiveLoader} {x : Run ModuleSystem α}
    {active : Active} (h : m.host.active = some active) :
    (inSystem x).after m =
      { x.after { m with host := active.system } with
        host := { m.host with
          active := some { active with
            system := (x.after { m with host := active.system }).host } } } := by
  obtain ⟨heap, world, running, nesting, ⟨compiler, host, subscriber, store, polling, inbox, now, active'⟩⟩ := m
  cases h
  exact Run.after_ofExcept _ _

/-- A run with one configuration. Its rounds are those of a session, the first one by the
configuration and one more by each reload. Every load is told of once and in their order; only the
failure that the configuration gives back is told to nobody else. -/
structure SurfacesOnce (session : Session) (given : Except LoadError (Option Value))
    (first : List Attempt) (rest : List (List Attempt)) (before after : Machine LiveLoader) :
    Prop where
  configuration : session.Round first given
  reloads : ∀ attempts ∈ rest, ∃ o, session.Round attempts o
  count : rest.length = LiveLoader.reloads after.host
  told : ∃ told untold, first = told ++ untold ∧
    untold.map (·.outcome) = Session.givenBack given ∧
    after.world.outcomes = (told ++ rest.flatten).foldl
      (Attempt.tell session.handler.hasListener) before.world.outcomes

/-- Whatever happens after a configuration: if it is rejected, nothing is ever loaded or told. If
not, every load surfaces once. The rounds are those of the run itself; a tally changes nothing. -/
theorem every_load_surfaces_once (m : Machine LiveLoader) (hactive : m.host.active = none)
    (request : LoadRequest) (hasListener : Bool) (later : List Happening) :
    let given := (configure request hasListener).outcome m
    let configured := (configure request hasListener).after m
    let first := firstRound m request hasListener
    let rest := laterRounds configured later
    let final := later.foldl Happening.after configured
    (∃ c, given = .error (.config c)) ∧ first = [] ∧ rest = [] ∧
        final.world.outcomes = m.world.outcomes ∨
      ∃ attempts, first = [attempts] ∧
        SurfacesOnce (sessionOf request hasListener (cachedFiles request.options m.world.files))
          given attempts rest m final := by
  intro given configured first rest final
  rcases configureBy_cases hactive request hasListener with
    ⟨c, m', hidle, houtcomes, hrun⟩ | ⟨m', active, hset, houtcomes, hsession, hreloads, hrun⟩
  · have hconfigure := hrun Session.loadEntry
    rw [configureBy_loadEntry] at hconfigure
    have hafter : configured = m' := congrArg Prod.snd hconfigure
    obtain ⟨hrounds, htold⟩ := idle_happenings hidle later
    refine .inl ⟨⟨c, congrArg Prod.fst hconfigure⟩, ?_, ?_, ?_⟩
    · have hout := congrArg Prod.fst (hrun Session.attempted)
      exact congrArg (fun o : Except LoadError (List Attempt) => o.toOption.toList) hout
    · exact (congrArg (laterRounds · later) hafter).trans hrounds
    · exact (congrArg (fun m => (later.foldl Happening.after m).world.outcomes) hafter).trans
        (htold.trans houtcomes)
  · let start : Machine ModuleSystem := { m' with host := active.system }
    have hconfigure := hrun Session.loadEntry
    rw [configureBy_loadEntry] at hconfigure
    have hgiven : given = active.session.loadEntry.outcome start :=
      (congrArg Prod.fst hconfigure).trans (outcome_inSystem hset)
    have hconfigured : configured = _ := (congrArg Prod.snd hconfigure).trans (after_inSystem hset)
    have hfirst : first = [active.session.attempts start] := by
      have hout := (congrArg Prod.fst (hrun Session.attempted)).trans (outcome_inSystem hset)
      exact congrArg (fun o : Except LoadError (List Attempt) => o.toOption.toList) hout
    obtain ⟨hround, told, untold, hattempts, huntold, htold⟩ :=
      active.session.surfaces_loadEntry start
    have hactive' := congrArg (·.host.active) hconfigured
    obtain ⟨hcount, hlater, hall⟩ := surfaces_happenings hactive' later
    refine .inr ⟨_, hfirst, ?_⟩
    rw [hgiven, ← hsession]
    refine ⟨hround, hlater, ?_, told, untold, hattempts, huntold, hall.trans ?_⟩
    · exact (hcount.trans ((congrArg (· + rest.length) hreloads).trans (Nat.zero_add _))).symm
    · have hworld : configured.world.outcomes =
          (active.session.loadEntry.after start).world.outcomes :=
        congrArg (·.world.outcomes) hconfigured
      rw [hworld, htold, List.foldl_append, show start.world.outcomes = _ from houtcomes]

/-- A loader over an empty directory. -/
def emptyLoader : Machine LiveLoader where
  heap := .empty
  world := ⟨⟨.dir [("app", .dir [])], []⟩, .empty false, []⟩
  running := ⟨0, []⟩
  nesting := .none
  host := .new

/-- An entry and a fallback in that directory. -/
def spareRequest : LoadRequest where
  entry := ⟨"/app/entry.rl"⟩
  overrides := []
  options := { Options.default with fallback := some ⟨"/app/spare.json"⟩ }

/-- The fallback is put there, and the loader takes note of it. -/
def spareArrives : List Happening :=
  [.edit fun _ => ⟨.dir [("app", .dir [("spare.json", .file "true".toUTF8)])], []⟩,
    .send [.changed ⟨"/app/spare.json"⟩], .step none]

/-- The configuration tries the entry and the fallback in vain; the second failure is given back.
The reload tries both again and delivers the fallback. -/
theorem spare_arrives_surfaces :
    let configured := (configure spareRequest false).after emptyLoader
    let rest := laterRounds configured spareArrives
    let final := spareArrives.foldl Happening.after configured
    emptyLoader.host.active = none ∧ rest.map List.length = [2] ∧
      final.world.deliveries.length = 1 ∧
      ∃ attempts, firstRound emptyLoader spareRequest false = [attempts] ∧ attempts.length = 2 ∧
        SurfacesOnce (sessionOf spareRequest false emptyLoader.world.files)
          ((configure spareRequest false).outcome emptyLoader) attempts rest emptyLoader final := by
  intro configured rest final
  have hfirst : (firstRound emptyLoader spareRequest false).map List.length = [2] := by
    decide +kernel
  have hcounts : rest.map List.length = [2] ∧ final.world.deliveries.length = 1 := by
    decide +kernel
  refine ⟨rfl, hcounts.1, hcounts.2, ?_⟩
  rcases every_load_surfaces_once emptyLoader rfl spareRequest false spareArrives with
    ⟨-, hnone, -⟩ | ⟨attempts, hsome, hsurfaces⟩
  · rw [hnone] at hfirst
    cases hfirst
  · rw [hsome] at hfirst
    exact ⟨attempts, hsome, List.singleton_inj.1 hfirst, hsurfaces⟩

end LiveLoader

end Hotload
