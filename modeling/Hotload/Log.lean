/-!
# The log

What a program says about its work: lines of its parts, and marked lines about the outcome of a
load. Lines for debugging are only kept when the log is verbose.

* `Log.note`, `Log.debug`, `Log.success`, `Log.failure`, `Log.print`, `Log.refuse`: additions.
* `LogEntry.render`: the text of an entry, and whether it goes to the error output.
-/

namespace Hotload

/-- An entry of the log. -/
inductive LogEntry where
  /-- A line of a part of the program. -/
  | line (part message : String)
  | success (message : String)
  | failure (summary detail : String)
  /-- A line of the program's output proper. -/
  | printed (text : String)
  /-- Why the program ends early. -/
  | refused (reason : String)
deriving DecidableEq, Repr

/-- The entries, the latest first. -/
structure Log where
  verbose : Bool
  entries : List LogEntry

namespace Log

/-- No entries. -/
def empty (verbose : Bool) : Log := ⟨verbose, []⟩

/-- The log with another entry. -/
def add (log : Log) (entry : LogEntry) : Log := { log with entries := entry :: log.entries }

/-- Adds a line of a part of the program. -/
def note (log : Log) (part message : String) : Log := log.add (.line part message)

/-- Adds a line for debugging. -/
def debug (log : Log) (part message : String) : Log :=
  if log.verbose then log.note part message else log

/-- Adds a line about something that went well. -/
def success (log : Log) (message : String) : Log := log.add (.success message)

/-- Adds a line about something that went wrong, with a detail that may be empty. -/
def failure (log : Log) (summary detail : String) : Log := log.add (.failure summary detail)

/-- Adds a line of output. -/
def print (log : Log) (text : String) : Log := log.add (.printed text)

/-- Adds the reason for an early end. -/
def refuse (log : Log) (reason : String) : Log := log.add (.refused reason)

end Log

/-- The two outputs. -/
inductive Output where
  | out | err
deriving DecidableEq, Repr

/-- A text in a terminal style that is switched on and off by these codes. -/
def styled (colored : Bool) (on off text : String) : String :=
  if colored then "\x1b[" ++ on ++ "m" ++ text ++ "\x1b[" ++ off ++ "m" else text

/-- The color code of a part of the program. -/
def partColor (part : String) : String :=
  if part = "reload" then "94" else if part = "watch" then "92" else if part = "error" then "91"
  else "93"

/-- A part's name in any case stands for the part. -/
def canonicalPart (part : String) : String := String.ofList (part.toList.map Char.toLower)

/-- The output of an entry. Errors have one of their own. -/
def LogEntry.output : LogEntry → Output
  | line part _ => if canonicalPart part = "error" then .err else .out
  | success _ | printed _ => .out
  | failure _ _ | refused _ => .err

/-- The text of an entry with its line ends; `clock` is the time that outcomes are marked with. -/
def LogEntry.render (colored : Bool) (clock : String) : LogEntry → String
  | line part message =>
    styled colored (partColor (canonicalPart part) ++ ";1") "0" ("[" ++ part ++ "]") ++ " " ++
      message ++ "\n"
  | success message =>
    styled colored "2" "0" ("[" ++ clock ++ "]") ++ " " ++ styled colored "32" "39" "✓" ++ " " ++
      message ++ "\n"
  | failure summary detail =>
    styled colored "2" "0" ("[" ++ clock ++ "]") ++ " " ++ styled colored "31" "39" "✗" ++ " " ++
      summary ++ (if detail = "" then "" else "\n" ++ detail) ++ "\n"
  | printed text => text ++ "\n"
  | refused reason => "Error: " ++ reason ++ "\n"

/-- What a log says on one of the outputs. -/
def Log.text (log : Log) (colored : Bool) (clock : String) (output : Output) : String :=
  String.join ((log.entries.reverse.filter (·.output = output)).map (·.render colored clock))

end Hotload
