import Hotload.Path

/-!
# Arguments

The words behind the program's name: one entry module and options, in any order. An option that
takes a value takes it from behind an equals sign or from the next word. Behind `--` every word is
an entry.

* `Arguments.parse`: what the words ask for.
-/

namespace Hotload.Cli

/-- When output is colored. -/
inductive Coloring where
  | auto | always | never
deriving DecidableEq, Repr

/-- A run that is asked for. -/
structure Arguments where
  entry : Path
  config : Option Path
  cacheDir : Option Path
  fallback : Option Path
  noSourceMap : Bool
  /-- The export to call after every load. -/
  call : Option String
  once : Bool
  verbose : Bool
  coloring : Coloring
deriving DecidableEq, Repr

/-- Why there is nothing to run. -/
inductive Stop where
  /-- The words do not fit together. -/
  | usage
  | help
  | version
deriving DecidableEq, Repr

/-- Options that take a value. -/
inductive Valued where
  | config | cacheDir | fallback | call | color
deriving DecidableEq, Repr

/-- Options that take none. -/
inductive Switch where
  | noSourceMap | once | verbose | help | version
deriving DecidableEq, Repr

/-- What has been read so far. -/
structure Draft where
  entry : Option Path
  values : List (Valued × String)
  switches : List Switch
  /-- The option that the next word is the value of. -/
  awaited : Option Valued
  /-- Every further word is an entry. -/
  entriesOnly : Bool

namespace Draft

/-- Nothing has been read. -/
def empty : Draft := ⟨none, [], [], none, false⟩

/-- A color choice. -/
def coloring? : String → Option Coloring
  | "auto" => some .auto
  | "always" => some .always
  | "never" => some .never
  | _ => none

/-- The option can have the value: paths are not empty, and colors are one of three words. -/
def accepts (option : Valued) (value : String) : Bool :=
  match option with
  | .call => true
  | .color => (coloring? value).isSome
  | .config | .cacheDir | .fallback => value ≠ ""

/-- Sets an option, which may not be set twice. -/
def setValue (d : Draft) (option : Valued) (value : String) : Except Stop Draft :=
  if (d.values.lookup option).isSome || !accepts option value then .error .usage
  else .ok { d with values := (option, value) :: d.values, awaited := none }

/-- Sets a switch, which may not be set twice. -/
def setSwitch (d : Draft) (switch : Switch) : Except Stop Draft :=
  match switch with
  | .help => .error .help
  | .version => .error .version
  | switch =>
    if d.switches.contains switch then .error .usage
    else .ok { d with switches := switch :: d.switches }

/-- Sets the entry, of which there is only one. -/
def setEntry (d : Draft) (word : String) : Except Stop Draft :=
  if d.entry.isSome || word = "" then .error .usage else .ok { d with entry := some ⟨word⟩ }

/-- An option that takes a value, by its long name. -/
def valued? : String → Option Valued
  | "config" => some .config
  | "cache-dir" => some .cacheDir
  | "fallback" => some .fallback
  | "call" => some .call
  | "color" => some .color
  | _ => none

/-- An option that takes none, by its long name. -/
def switch? : String → Option Switch
  | "no-source-map" => some .noSourceMap
  | "once" => some .once
  | "verbose" => some .verbose
  | "help" => some .help
  | "version" => some .version
  | _ => none

/-- An option that takes none, by its letter. -/
def letter? : Char → Option Switch
  | 'v' => some .verbose
  | 'h' => some .help
  | 'V' => some .version
  | _ => none

/-- Waits for the value of an option. -/
def await (d : Draft) (option : Valued) : Except Stop Draft :=
  if (d.values.lookup option).isSome then .error .usage else .ok { d with awaited := some option }

/-- Takes a long option, without its dashes. -/
def long (d : Draft) (word : List Char) : Except Stop Draft :=
  let name := String.ofList (word.takeWhile (· ≠ '='))
  match word.dropWhile (· ≠ '='), valued? name, switch? name with
  | '=' :: value, some option, _ => d.setValue option (String.ofList value)
  | [], some option, _ => d.await option
  | [], none, some switch => d.setSwitch switch
  | _, _, _ => .error .usage

/-- Takes letters behind one dash. The letter of an option with a value ends them: what is left is
the value. -/
def short (d : Draft) : List Char → Except Stop Draft
  | [] => .ok d
  | 'C' :: [] => d.await .config
  | 'C' :: '=' :: value => d.setValue .config (String.ofList value)
  | 'C' :: value => d.setValue .config (String.ofList value)
  | c :: cs =>
    match letter? c with
    | some switch => do short (← d.setSwitch switch) cs
    | none => .error .usage

/-- Takes one word. -/
def word (d : Draft) (word : String) : Except Stop Draft :=
  match d.awaited, word.toList with
  | some _, '-' :: _ :: _ => .error .usage
  | some option, _ => d.setValue option word
  | none, cs =>
    if d.entriesOnly then d.setEntry word
    else
      match cs with
      | ['-', '-'] => .ok { d with entriesOnly := true }
      | '-' :: '-' :: name => d.long name
      | '-' :: c :: cs => d.short (c :: cs)
      | _ => d.setEntry word

/-- The run that the words ask for. -/
def finish (d : Draft) : Except Stop Arguments :=
  match d.awaited, d.entry with
  | none, some entry =>
    let path (option : Valued) : Option Path := (d.values.lookup option).map Path.mk
    let switch (s : Switch) : Bool := d.switches.contains s
    .ok ⟨entry, path .config, path .cacheDir, path .fallback, switch .noSourceMap,
      d.values.lookup .call, switch .once, switch .verbose,
      ((d.values.lookup .color).bind coloring?).getD .auto⟩
  | _, _ => .error .usage

end Draft

/-- What the words ask for. -/
def Arguments.parse (words : List String) : Except Stop Arguments := do
  (← words.foldlM Draft.word .empty).finish

end Hotload.Cli
