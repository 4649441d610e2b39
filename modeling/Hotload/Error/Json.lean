import Hotload.Error
import Hotload.Json.Basic

/-!
# Errors as JSON

The form in which tools look at an error: its kind, its message, and what else its kind knows of.

* `LoadError.members`: the members of the object for an error.
-/

namespace Hotload

/-- The kind of a configuration error. -/
def ConfigError.kind : ConfigError → String
  | unreadable .. => "Config.Io"
  | malformed => "Config.Toml"
  | invalid _ => "Config.Validation"
  | alreadyConfigured => "Config.AlreadyConfigured"
  | notConfigured => "Config.NotConfigured"

/-- A frame of a stack as JSON. -/
def Frame.toJson (f : Frame) : Json :=
  .array [(f.function.map Json.string).getD .null, .string f.path.text, .string f.pos.text]

namespace LoadError

/-- The kind of an error. -/
def kind : LoadError → String
  | resolution .. => "Resolution"
  | compile _ => "Compile"
  | runtime _ => "Runtime"
  | read .. => "Read"
  | config error => error.kind

/-- What an error of a kind knows of beside its message. -/
def details (e : LoadError) : List (String × Json) :=
  let report := ("report", Json.string e.report)
  match e with
  | resolution .. => [report]
  | compile error =>
    [report, ("pos", (error.pos.map fun pos => Json.string pos.text).getD .null)]
  | runtime error => [report, ("frames", .array (error.frames.map Frame.toJson))]
  | read .. => [report, ("has_source", .bool true)]
  | config (.unreadable _ fault) => [("source", .string fault.message)]
  | config _ => []

/-- The members of the object for an error. -/
def members (e : LoadError) : List (String × Json) :=
  ("error", .string e.kind) :: ("message", .string e.message) :: e.details

end LoadError

end Hotload
