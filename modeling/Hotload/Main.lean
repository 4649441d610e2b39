import Hotload.Cli.Program
import Std.Time

/-!
# The program on a disk

Reads what lies below the working directory, runs the command line program over it, writes back the
files that it has changed, and looks for changed files in between.
-/

namespace Hotload.Cli

/-- The time of day in universal time. -/
def clockText : IO String := do
  let seconds := (← Std.Time.Timestamp.now).toSecondsSinceUnixEpoch.val.toNat
  let pair (n : Nat) : String := (if n < 10 then "0" else "") ++ toString n
  return pair (seconds / 3600 % 24) ++ ":" ++ pair (seconds / 60 % 60) ++ ":" ++ pair (seconds % 60)

/-- What stands at a place, as deep as the count goes. Places that cannot be read are left out. -/
def readNode : Nat → String → IO (Option Node)
  | 0, _ => return none
  | depth + 1, place => do
    try
      let path ← IO.FS.realPath place
      if ← path.isDir then
        let nodes ← (← path.readDir).toList.filterMapM fun entry => do
          return (← readNode depth entry.path.toString).map fun node => (entry.fileName, node)
        return some (.dir nodes)
      else return some (.file (← IO.FS.readBinFile path))
    catch _ => return none

/-- The names that lead to the working directory. -/
def workingNames : IO (List String) := do
  let chars := (← IO.FS.realPath ".").toString.toList
  return (Path.ofChars chars).components.filterMap fun step => match step with
    | .name name => some name
    | _ => none

/-- The tree of what lies below the working directory. -/
def readTree (names : List String) : IO FileTree := do
  let t := (FileTree.empty.makeDirs (FileTree.pathOf names)).toOption.getD .empty
  let node ← readNode 64 "."
  return ⟨t.root.put names node, names⟩

/-- The file is there with this content. -/
def holds (t : FileTree) (p : Path) (content : ByteArray) : Bool :=
  match t.readBytes p with
  | .ok found => found.data == content.data
  | .error _ => false

/-- Writes the files that differ from those of an earlier tree. -/
def writeChanges (earlier later : FileTree) : IO Unit := do
  for (names, content) in later.root.files do
    let p := FileTree.pathOf names
    if !holds earlier p content then
      if let some dir := p.parent? then IO.FS.createDirAll dir.text
      IO.FS.writeBinFile p.text content

/-- Writes what the log says, and forgets it. -/
def flushLog (coloring : Coloring) (m : Machine LiveLoader) : IO (Machine LiveLoader) := do
  let log := m.world.log
  let colored := coloring = .always
  let clock ← clockText
  (← IO.getStdout).putStr (log.text colored clock .out)
  (← IO.getStderr).putStr (log.text colored clock .err)
  return { m with world := { m.world with log := .empty log.verbose } }

/-- The watched files whose bytes are not the same in two trees. -/
def changedFiles (l : LiveLoader) (earlier later : FileTree) : List Path :=
  ((l.active.map (·.system.watcher.watched)).getD []).filter fun p =>
    match later.readBytes p with
    | .ok content => !holds earlier p content
    | .error _ => false

/-- The time between two looks at the watched files, in milliseconds. -/
def pollInterval (l : LiveLoader) : Nat :=
  (l.active.map (·.system.options.watch.pollInterval)).getD 100

/-- Waits for changed files, again and again. -/
partial def watchLoop (args : Arguments) (names : List String) (m : Machine LiveLoader) :
    IO UInt32 := do
  let pause := pollInterval m.host
  IO.sleep pause.toUInt32
  let files ← readTree names
  let events := (changedFiles m.host m.world.files files).map Event.changed
  let m := { m with world := { m.world with files } }
  let (ending, m) := continue_ args events (m.host.now + pause) m
  writeChanges files m.world.files
  let m ← flushLog args.coloring m
  match ending with
  | .ok (.exited code) => return code.toUInt32
  | _ => watchLoop args names m

end Hotload.Cli

open Hotload.Cli in
/-- The command line program. -/
def main (words : List String) : IO UInt32 := do
  match Arguments.parse words with
  | .error .help =>
    IO.println help
    return 0
  | .error .version =>
    IO.println version
    return 0
  | .error .usage =>
    IO.eprintln help
    return 2
  | .ok args =>
    let names ← workingNames
    let files ← readTree names
    let (ending, m) := start args files
    writeChanges files m.world.files
    let m ← flushLog args.coloring m
    match ending with
    | .exited code => return code.toUInt32
    | .waiting => watchLoop args names m
