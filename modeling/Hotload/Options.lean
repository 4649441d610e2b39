import Hotload.Error
import Hotload.Toml.Reader

/-!
# Options

What a configuration file says about compiling, resolving and watching, with a default for all
that it leaves out.

* `Options.parse`: the options that a text states.
* `Options.fault?`: the rule that options break.
* `Options.load`: the options of a file, with its relative paths seen from its directory.
-/

namespace Hotload

/-- Where compiled modules keep their source maps. -/
inductive SourceMapMode where
  /-- Registered, and in a comment behind the code. -/
  | inline
  /-- Registered only. -/
  | separate
  | off
deriving DecidableEq, Repr

/-- Source maps are kept somewhere. -/
def SourceMapMode.isEnabled (mode : SourceMapMode) : Bool := mode ≠ .off

/-- How specifiers are resolved. -/
structure ResolveOptions where
  /-- Extensions tried in order where a specifier names no file. -/
  extensions : List String
  /-- The name of the directories that hold dependencies. -/
  packageDir : String
deriving DecidableEq, Repr

/-- How files are watched; times are in milliseconds. -/
structure WatchOptions where
  enabled : Bool
  pollInterval : Nat
  /-- The least time between two reloads. -/
  quietPeriod : Nat
deriving DecidableEq, Repr

/-- The options of a loader. -/
structure Options where
  sourceMap : SourceMapMode
  /-- The directory that keeps compiled modules. -/
  cacheDir : Option Path
  /-- The module that is delivered when loading fails. -/
  fallback : Option Path
  /-- Extensions of the modules that are compiled. -/
  scriptExtensions : List String
  resolve : ResolveOptions
  watch : WatchOptions
deriving DecidableEq, Repr

/-- The resolve options of an empty file. -/
def ResolveOptions.default : ResolveOptions := ⟨["rl", "json"], "packages"⟩

/-- The watch options of an empty file. -/
def WatchOptions.default : WatchOptions := ⟨true, 100, 2000⟩

/-- The options of an empty file. -/
def Options.default : Options :=
  ⟨.inline, none, none, ["rl"], ResolveOptions.default, WatchOptions.default⟩

/-- A file below a dependency directory. -/
def ResolveOptions.isDependency (options : ResolveOptions) (p : Path) : Bool :=
  p.components.any (·.text = options.packageDir)

/-- A file that is compiled. -/
def Options.isScript (options : Options) (p : Path) : Bool :=
  match p.extension? with
  | some ext => options.scriptExtensions.contains ext
  | none => false

/-! ## Settings -/

namespace Toml

/-- How the settings of a section are looked up: by name in a table, by place in an array. A
moment is a section without settings. -/
def settings? : Toml → Option (Nat → String → Option Toml)
  | .table members => some fun _ name => members.lookup name
  | .array items => some fun place _ => items[place]?
  | .moment => some fun _ _ => none
  | _ => none

/-- A setting, or the default where there is none. -/
def settingOr {α : Type} (default : α) (read : Toml → Option α) : Option Toml → Option α
  | none => some default
  | some value => read value

def boolean? : Toml → Option Bool
  | .boolean value => some value
  | _ => none

def text? : Toml → Option String
  | .string value => some value
  | _ => none

def natural? : Toml → Option Nat
  | .integer (.ofNat n) => some n
  | _ => none

def texts? : Toml → Option (List String)
  | .array items => items.mapM text?
  | _ => none

def path? (value : Toml) : Option (Option Path) := (text? value).map fun text => some ⟨text⟩

/-- A mode: its name, or whether there are source maps at all. -/
def sourceMapMode? : Toml → Option SourceMapMode
  | .boolean true => some .inline
  | .boolean false => some .off
  | .string "inline" => some .inline
  | .string "separate" => some .separate
  | .string "off" => some .off
  | _ => none

end Toml

open Toml

/-- The resolve options of a section. -/
def ResolveOptions.ofToml? (value : Toml) : Option ResolveOptions := do
  let setting ← settings? value
  let default := ResolveOptions.default
  return {
    extensions := ← settingOr default.extensions texts? (setting 0 "extensions")
    packageDir := ← settingOr default.packageDir text? (setting 1 "package_dir") }

/-- The watch options of a section. -/
def WatchOptions.ofToml? (value : Toml) : Option WatchOptions := do
  let setting ← settings? value
  let default := WatchOptions.default
  return {
    enabled := ← settingOr default.enabled boolean? (setting 0 "enabled")
    pollInterval := ← settingOr default.pollInterval natural? (setting 1 "poll_interval_ms")
    quietPeriod := ← settingOr default.quietPeriod natural? (setting 2 "quiet_period_ms") }

namespace Options

/-- The options that the members of a table state. Unknown keys count for nothing. -/
def ofMembers? (members : List (String × Toml)) : Option Options := do
  let setting (key : String) : Option Toml := members.lookup key
  let default := Options.default
  return {
    sourceMap := ← settingOr default.sourceMap sourceMapMode? (setting "source_map")
    cacheDir := ← settingOr default.cacheDir path? (setting "cache_dir")
    fallback := ← settingOr default.fallback path? (setting "fallback")
    scriptExtensions :=
      ← settingOr default.scriptExtensions texts? (setting "script_extensions")
    resolve := ← settingOr default.resolve ResolveOptions.ofToml? (setting "resolve")
    watch := ← settingOr default.watch WatchOptions.ofToml? (setting "watch") }

/-- An extension that no file has. -/
def isBadExtension (ext : String) : Bool := ext = "" || ext.toList.head? = some '.'

/-- A name that no single directory has. -/
def isBadDirName (name : String) : Bool :=
  name = "" || name.toList.any fun c => c = '/' || c = '\\'

/-- The first rule that options break. -/
def fault? (options : Options) : Option OptionFault :=
  if options.scriptExtensions = [] then some .noScriptExtensions
  else
    match (options.scriptExtensions ++ options.resolve.extensions).find? isBadExtension with
    | some ext => some (.badExtension ext)
    | none =>
      if isBadDirName options.resolve.packageDir then
        some (.badPackageDir options.resolve.packageDir)
      else if options.watch.pollInterval = 0 then some .noPollInterval
      else none

/-- Refuses options that break a rule. -/
def validate (options : Options) : Except ConfigError Unit :=
  match options.fault? with
  | some fault => .error (.invalid fault)
  | none => .ok ()

/-- The options that a text states. -/
def parse (text : List Char) : Except ConfigError Options := do
  match (Toml.parse? text).bind ofMembers? with
  | some options =>
    options.validate
    return options
  | none => throw .malformed

/-- The options of a file. Its relative paths start at the directory that the file is in. -/
def load (files : FileTree) (p : Path) : Except ConfigError Options := do
  match files.read p with
  | .error e => throw (.unreadable p (.file e))
  | .ok text =>
    let options ← parse text.toList
    let base := p.parent?.getD ⟨""⟩
    return { options with
      cacheDir := options.cacheDir.map base.join
      fallback := options.fallback.map base.join }

end Options

end Hotload
