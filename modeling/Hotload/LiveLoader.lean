import Hotload.Session
import Hotload.Text.Quoted

/-!
# The live loader

Configured once, a loader loads its entry module and loads it again after every change.

* `LiveLoader.configure`: the first load, with the parts that wait in the loader.
* `LiveLoader.run`: takes events in.
* `LiveLoader.call`, `LiveLoader.find`: requests in between.
-/

namespace Hotload

/-- What a configured loader works with. -/
structure Active where
  session : Session
  orchestrator : Orchestrator
  system : ModuleSystem

/-- What supplies the modules that are not compiled: the core modules, and the files that are no
scripts. Module systems work with the standard one. -/
inductive HostLoader where
  | standard
deriving DecidableEq, Repr

/-- A loader. The compiler, the host, the subscriber and the store wait for the configuration that
takes them. -/
structure LiveLoader where
  compiler : Option Compiler
  host : Option HostLoader
  subscriber : Option (Path → Bool)
  store : Option Shelf
  /-- Whether files can be looked at again and again, where no subscriber waits, and which. -/
  polling : Except WatchError (Path → Bool)
  inbox : Inbox
  /-- The time in milliseconds. -/
  now : Nat
  active : Option Active

/-- A store in memory may wait as it is. -/
instance : Coe (Option MemoryStore) (Option Shelf) := ⟨Option.map .memory⟩

/-- What to load and how. -/
structure LoadRequest where
  entry : Path
  overrides : List (String × Value)
  options : Options

namespace LiveLoader

/-- A loader with nothing of its own. -/
def new : LiveLoader where
  compiler := none
  host := none
  subscriber := none
  store := none
  polling := .ok fun _ => true
  inbox := .empty
  now := 0
  active := none

/-- The session of a configured loader. -/
def getActive : Run LiveLoader Active := do
  match (← get).host.active with
  | some active => return active
  | none => throw (.config .notConfigured)

/-- A request to the module system. -/
def inSystem {α : Type} (x : Run ModuleSystem α) : Run LiveLoader α := do
  let active ← getActive
  let m ← get
  let (outcome, after) := x.run { m with host := active.system }
  let active := { active with system := after.host }
  set { after with host := { m.host with active := some active } }
  Run.ofExcept outcome

/-- Takes the compiler out of the loader. -/
def takeCompiler : Run LiveLoader Compiler :=
  modifyGet fun m =>
    (m.host.compiler.getD transpile, { m with host := { m.host with compiler := none } })

/-- The store of a configuration: the directory that the options name, which is made if it is
missing, or else the one that waits in the loader. -/
def openStore (options : Options) : Run LiveLoader Shelf := do
  let m ← get
  match options.cacheDir with
  | some dir =>
    let (outcome, files) := m.world.files.ensureDirs dir
    set { m with world := { m.world with files } }
    match outcome with
    | .error e => throw (.config (.unreadable dir (.file e)))
    | .ok () => return .directory ⟨dir⟩
  | none =>
    set { m with host := { m.host with store := none } }
    return m.host.store.getD .none

/-- The watcher of a configuration. It asks the subscriber that waits in the loader, or else polls;
if it cannot, files are not watched, and the log tells why. -/
def takeWatcher (options : Options) : Run LiveLoader Watcher :=
  modifyGet fun m =>
    if options.watch.enabled then
      match m.host.subscriber, m.host.polling with
      | some accepts, _ =>
        (.ofSubscriber accepts, { m with host := { m.host with subscriber := none } })
      | none, .ok accepts => (.ofSubscriber accepts, m)
      | none, .error e =>
        let line := e.message ++ ", continuing without file watching"
        (.disabled, { m with world := m.world.note "watch" line })
    else (.disabled, m)

/-- Takes the host out of the loader. -/
def takeHost : Run LiveLoader HostLoader :=
  modifyGet fun m => (m.host.host.getD .standard, { m with host := { m.host with host := none } })

/-- Sets a loader up and loads its entry. What it gives back is what was delivered. -/
def configure (request : LoadRequest) (hasListener : Bool) : Run LiveLoader (Option Value) := do
  if (← get).host.active.isSome then throw (.config .alreadyConfigured)
  let options := request.options
  Run.ofExcept (options.validate.mapError .config)
  let compiler ← takeCompiler
  let store ← openStore options
  let watcher ← takeWatcher options
  let .standard ← takeHost
  let files := (← get).world.files
  let entry := files.normalize request.entry
  let fallback := options.fallback.map files.normalize
  let shown := match fallback with
    | some p => "Some(" ++ String.ofList (Text.quotedAll p.chars) ++ ")"
    | none => "None"
  Run.modifyWorld
    (·.debug "reload" ("configured " ++ entry.text ++ " (fallback: " ++ shown ++ ")"))
  let session : Session := ⟨entry, ⟨fallback, hasListener⟩⟩
  let system := ModuleSystem.new request.overrides options compiler store watcher
  Run.modifyHost fun l =>
    { l with active := some ⟨session, .new options.watch.quietPeriod, system⟩ }
  inSystem session.loadEntry

/-- Takes events in up to a shutdown or a deadline. -/
def run (deadline : Option Nat) : Run LiveLoader Exit := do
  let active ← getActive
  let m ← get
  let start : Waiting (Machine ModuleSystem) :=
    ⟨m.host.inbox, m.host.now, active.orchestrator, { m with host := active.system }⟩
  let (exit, s) := start.run active.session.target deadline
  let active := { active with orchestrator := s.orchestrator, system := s.target.host }
  set { s.target with host := { m.host with inbox := s.inbox, now := s.now, active := some active } }
  return exit

/-- Messages arrive. -/
def send (events : List Event) : Run LiveLoader Unit :=
  Run.modifyHost fun l => { l with inbox := l.inbox.send events }

/-- The value of a call. -/
def call (callee : Value) (args : List Value) : Run LiveLoader Value :=
  inSystem (ModuleSystem.call callee args)

/-- The file that a specifier names for code in a directory. -/
def find (specifier : String) (dir : Path) : Run LiveLoader Path :=
  inSystem (ModuleSystem.find specifier dir)

/-- The number of reloads so far. -/
def reloads (l : LiveLoader) : Nat := (l.active.map (·.orchestrator.reloads)).getD 0

/-- Lets go of all modules. -/
def close : Run LiveLoader Unit := do
  if (← get).host.active.isSome then inSystem ModuleSystem.close

end LiveLoader

end Hotload
