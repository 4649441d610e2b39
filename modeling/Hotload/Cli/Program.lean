import Hotload.Cli.Arguments
import Hotload.LiveLoader

/-!
# The command line program

Loads a module, shows what it exports, and goes on after every change unless it is told to load
only once.

* `Cli.start`: the program up to its end or up to the first wait.
* `Cli.continue_`: what it does when events have arrived.
-/

namespace Hotload.Cli

/-- The configuration file that is read without being named. -/
def defaultConfig : Path := ⟨"relive.toml"⟩

/-- What the program says about itself. -/
def version : String := "relive 0.1.0"

/-- What the program says about its arguments. -/
def help : String := "Load a relive script module and reload it whenever its sources change

Usage: relive [OPTIONS] <ENTRY>

Arguments:
  <ENTRY>  Entry module to load

Options:
  -C, --config <CONFIG>        Config file path (default: relive.toml, if present)
      --cache-dir <CACHE_DIR>  Persist compile results in this directory
      --fallback <FALLBACK>    Module delivered while the entry fails to load
      --no-source-map          Disable source maps (runtime errors report compiled positions)
      --call <NAME>            Call this exported function after every load and print its result
      --once                   Load once and exit without watching
  -v, --verbose                Enable verbose output
      --color <COLOR>          Control colored output (auto, always, never) [default: auto]
  -h, --help                   Print help
  -V, --version                Print version"

/-- Why the program ends before it has something to show. -/
inductive Refusal where
  | config (error : ConfigError)
  /-- The entry is no script, given these script extensions. -/
  | notScript (entry : Path) (extensions : List String)
  | notLoaded (entry : Path)

/-- The wording of a refusal, with the cause behind it. -/
def Refusal.message : Refusal → String
  | config e =>
    match e with
    | .unreadable _ fault => e.message ++ "\n\nCaused by:\n    " ++ fault.message
    | .malformed => e.message ++ "\n\nCaused by:\n    malformed TOML"
    | _ => e.message
  | notScript entry extensions =>
    "`" ++ entry.text ++ "` is not a script module (extensions: " ++
      ", ".intercalate extensions ++ ")"
  | notLoaded entry => "failed to load `" ++ entry.text ++ "`"

/-- The options of the configuration file, if there is one. -/
def fileOptions (args : Arguments) (files : FileTree) : Except ConfigError Options :=
  match args.config with
  | some p => Options.load files p
  | none =>
    if files.isFile defaultConfig then Options.load files defaultConfig else .ok Options.default

/-- The options with those of the arguments in place of those of the file. -/
def override (args : Arguments) (options : Options) : Options :=
  { options with
    cacheDir := args.cacheDir.or options.cacheDir
    fallback := args.fallback.or options.fallback
    sourceMap := if args.noSourceMap then .off else options.sourceMap
    watch := if args.once then { options.watch with enabled := false } else options.watch }

/-- The options of a run, whose entry has to be a script. -/
def options (args : Arguments) (files : FileTree) : Except Refusal Options := do
  let options ← (fileOptions args files).mapError .config
  let options := override args options
  options.validate.mapError .config
  if options.isScript args.entry then return options
  else throw (.notScript args.entry options.scriptExtensions)

/-- The value that was delivered last. -/
def latest? (w : World) : Option Value :=
  w.deliveries.findSome? fun d => match d with
    | .value value _ => some value
    | .report _ => none

/-- Shows exports, or what the export to call gives back. -/
def showExports (call : Option String) (exports : Value) : Run LiveLoader Unit := do
  let print (value : Value) : Run LiveLoader Unit := do
    let heap ← Run.heap
    Run.modifyWorld (·.mapLog (·.print (heap.debug value)))
  match call with
  | none => print exports
  | some name =>
    let refuse : Run LiveLoader Unit :=
      Run.modifyWorld (·.note "error" ("export `" ++ name ++ "` is not a function"))
    match (← Run.heap).property? exports name with
    | none => refuse
    | some (callee, heap) =>
      Run.modifyHeap fun _ => heap
      if callee.isCallable then
        match ← Run.observe (LiveLoader.call callee []) with
        | .ok result => print result
        | .error e => Run.modifyWorld (·.mapLog (·.failure ("`" ++ name ++ "` failed") e.report))
      else refuse

/-- Shows what was delivered last, if it has not been shown yet. -/
def showLatest (call : Option String) : Run LiveLoader Unit := do
  match latest? (← get).world with
  | none => return ()
  | some exports =>
    Run.modifyWorld ({ · with deliveries := [] })
    showExports call exports

/-- The end of the program with a code, or the wait for events. -/
inductive Ending where
  | exited (code : Nat)
  | waiting
deriving DecidableEq, Repr

/-- The program after its first load. -/
def load (args : Arguments) (options : Options) : Run LiveLoader Ending := do
  match ← Run.observe (LiveLoader.configure ⟨args.entry, [], options⟩ false) with
  | .error e =>
    Run.modifyWorld (·.mapLog (·.failure "initial load failed" e.report))
    LiveLoader.close
    Run.modifyWorld (·.mapLog (·.refuse (Refusal.notLoaded args.entry).message))
    return .exited 1
  | .ok _ =>
    showLatest args.call
    if args.once then
      LiveLoader.close
      return .exited 0
    Run.modifyWorld (·.note "watch" "watching for changes, press Ctrl+C to stop")
    return .waiting

/-- The program with its arguments over files. -/
def start (args : Arguments) (files : FileTree) : Ending × Machine LiveLoader :=
  let w : World := ⟨files, .empty args.verbose, []⟩
  let m : Machine LiveLoader := ⟨.empty, w, ⟨0, []⟩, .none, .new⟩
  match options args files with
  | .error refusal =>
    (.exited 1, { m with world := w.mapLog (·.refuse refusal.message) })
  | .ok options =>
    let (ending, m) := load args options m
    ((ending.toOption).getD (.exited 1), m)

/-- The program goes on when events have arrived, up to a time. -/
def continue_ (args : Arguments) (events : List Event) (until_ : Nat) : Run LiveLoader Ending := do
  LiveLoader.send events
  let exit ← LiveLoader.run (some until_)
  showLatest args.call
  if exit = .shutdown then
    Run.modifyWorld (·.note "reload" "shutting down...")
    LiveLoader.close
    return .exited 0
  return .waiting

end Hotload.Cli
