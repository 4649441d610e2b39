import Hotload.CodeFrame
import Hotload.FileTree
import Hotload.Natives

/-!
# Errors of loading

Everything that can go wrong between a specifier and a value, with what is said about it.

* `LoadError.message`: the error in one line.
* `LoadError.report`: the error with its code frame, stack or cause.
-/

namespace Hotload

open Syntax (Pos BinaryOp)

/-- Why a program cannot go on. -/
inductive RuntimeFault where
  /-- The program threw a value with this text. -/
  | thrown (text : String)
  | undefined (name : String)
  | undeclared (name : String)
  | unreadable (name typeName : String)
  | unsettable (name typeName : String)
  | notIndexable (typeName indexType : String)
  | outOfBounds (index : Float)
  | notNegatable (typeName : String)
  | unsupported (op : BinaryOp) (leftType rightType : String)
  | notCallable (typeName : String)
  | native (name : String) (error : ArgumentError)
  | noSpecifier
  | invalidTarget
  /-- A module declaration of the surface dialect. -/
  | uncompiled
  | tooManyCalls
  | tooManyExpressions

/-- The wording of a runtime fault. -/
def RuntimeFault.message : RuntimeFault → String
  | thrown text => text
  | undefined name => "`" ++ name ++ "` is not defined"
  | undeclared name => "assignment to undeclared variable `" ++ name ++ "`"
  | unreadable name typeName => "cannot read property `" ++ name ++ "` of " ++ typeName
  | unsettable name typeName => "cannot set property `" ++ name ++ "` on " ++ typeName
  | notIndexable typeName indexType => "cannot index " ++ typeName ++ " with " ++ indexType
  | outOfBounds index => "list index " ++ Number.text index ++ " out of bounds"
  | notNegatable typeName => "cannot negate " ++ typeName
  | unsupported op leftType rightType =>
    "unsupported operands for `" ++ op.spelling ++ "`: " ++ leftType ++ " and " ++ rightType
  | notCallable typeName => typeName ++ " is not a function"
  | native name error => name ++ ": " ++ error.message
  | noSpecifier => "require expects a string specifier"
  | invalidTarget => "invalid assignment target"
  | uncompiled => "module declarations must be compiled before execution"
  | tooManyCalls => "maximum call depth exceeded"
  | tooManyExpressions => "expression nesting too deep"

/-- Where a call or a module body was, in the source. -/
structure Frame where
  /-- The name of the function; a module body has none. -/
  function : Option String
  path : Path
  pos : Pos

/-- A frame as a line of a stack trace. -/
def Frame.text (f : Frame) : String :=
  let place := f.path.text ++ ":" ++ f.pos.text
  match f.function with
  | some name => "at " ++ name ++ " (" ++ place ++ ")"
  | none => "at " ++ place

/-- A fault of a running program and its stack, innermost frame first. -/
structure RuntimeError where
  fault : RuntimeFault
  frames : List Frame

/-- The fault and its stack. -/
def RuntimeError.trace (e : RuntimeError) : String :=
  "Error: " ++ e.fault.message ++ String.join (e.frames.map fun f => "\n    " ++ f.text)

/-- A module that cannot be compiled, and the source around the place. -/
structure CompileError where
  path : Path
  message : String
  pos : Option Pos
  frame : Option String

/-- The file, the message and the place. -/
def CompileError.text (e : CompileError) : String :=
  e.path.text ++ ": " ++ e.message ++
    match e.pos with
    | some pos => " (" ++ pos.text ++ ")"
    | none => ""

/-- The error with the source around its place, if it has one. -/
def CompileError.withFrame (e : CompileError) (source : String) : CompileError :=
  { e with frame := e.pos.map fun pos => String.ofList (codeFrame source.toList pos) }

/-- Why a file was not read. -/
inductive ReadFault where
  | file (error : FileError)
  /-- There is no loader for files with this extension. -/
  | noLoader (extension : String)
  | malformedJson
  /-- A reason in words. -/
  | stated (reason : String)

/-- The wording of a read fault. -/
def ReadFault.message : ReadFault → String
  | file error => error.message
  | noLoader extension => "no loader for `." ++ extension ++ "` files"
  | malformedJson => "malformed JSON"
  | stated reason => reason

/-- Which rule the options break. -/
inductive OptionFault where
  | noScriptExtensions
  | badExtension (extension : String)
  | badPackageDir (name : String)
  | noPollInterval
  /-- A reason in words. -/
  | stated (reason : String)

/-- The wording of an option fault. -/
def OptionFault.message : OptionFault → String
  | noScriptExtensions => "`script_extensions` must not be empty"
  | badExtension extension =>
    "invalid extension `" ++ extension ++ "`: expected a name without a leading dot"
  | badPackageDir name =>
    "`resolve.package_dir` must be a single directory name, got `" ++ name ++ "`"
  | noPollInterval => "`watch.poll_interval_ms` must be greater than zero"
  | stated reason => reason

/-- What is wrong with a configuration. -/
inductive ConfigError where
  | unreadable (path : Path) (fault : ReadFault)
  | malformed
  | invalid (fault : OptionFault)
  | alreadyConfigured
  | notConfigured

/-- The wording of a configuration error. -/
def ConfigError.message : ConfigError → String
  | unreadable path _ => "IO error when reading `" ++ path.text ++ "`"
  | malformed => "Config file parsing error"
  | invalid fault => "Config validation error: " ++ fault.message
  | alreadyConfigured => "loader is already configured"
  | notConfigured => "loader is not configured"

/-- Why a module was not loaded. -/
inductive LoadError where
  | resolution (specifier : String) (origin : Path)
  | compile (error : CompileError)
  | runtime (error : RuntimeError)
  | read (path : Path) (fault : ReadFault)
  | config (error : ConfigError)

namespace LoadError

/-- The error in one line. -/
def message : LoadError → String
  | resolution specifier origin =>
    "cannot resolve `" ++ specifier ++ "` from `" ++ origin.text ++ "`"
  | compile error => error.text
  | runtime error => error.fault.message
  | read path _ => "failed to read `" ++ path.text ++ "`"
  | config error => error.message

/-- The error for a reader: with the source around its place, its stack, or its cause. -/
def report : LoadError → String
  | compile error =>
    match error.frame with
    | some frame => if frame = "" then error.text else error.text ++ "\n" ++ frame
    | none => error.text
  | runtime error => error.trace
  | read path fault => "Error: " ++ (read path fault).message ++ ": " ++ fault.message
  | error => "Error: " ++ error.message

end LoadError

end Hotload
