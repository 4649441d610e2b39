import Hotload.Path

/-!
# File trees

Directories and files in memory, with the working directory that relative paths start from. Paths
are followed one segment after the other, and every directory passed on the way has to exist.

* `FileTree.locate`: where an existing path leads.
* `FileTree.normalize`: one absolute path for every way to name an existing file.
* `FileTree.read`, `FileTree.write`, `FileTree.ensureDirs`, `FileTree.rename`,
  `FileTree.removeFile`.
-/

namespace Hotload

/-- Why a file operation failed. -/
inductive FileError where
  | notFound
  | alreadyExists
  | notDirectory
  | isDirectory
  | notText
deriving DecidableEq, Repr

/-- The wording of the operating system. -/
def FileError.message : FileError → String
  | notFound => "No such file or directory (os error 2)"
  | alreadyExists => "File exists (os error 17)"
  | notDirectory => "Not a directory (os error 20)"
  | isDirectory => "Is a directory (os error 21)"
  | notText => "stream did not contain valid UTF-8"

/-- A file with its bytes, or a directory with named entries. -/
inductive Node where
  | file (content : ByteArray)
  | dir (entries : List (String × Node))

namespace Node

/-- The node that some names lead to. -/
def follow? : Node → List String → Option Node
  | node, [] => some node
  | .file _, _ :: _ => none
  | .dir entries, name :: names => (entries.lookup name).bind (follow? · names)

/-- The entries with one of them replaced or added; `none` removes it. -/
def setEntry (name : String) (node : Option Node) (entries : List (String × Node)) :
    List (String × Node) :=
  let others := entries.filter (·.1 ≠ name)
  match node with
  | some node => others ++ [(name, node)]
  | none => others

/-- The node with what some names lead to replaced, added or removed. -/
def put : Node → List String → Option Node → Node
  | node, [], replacement => replacement.getD node
  | .file content, _ :: _, _ => .file content
  | .dir entries, [name], replacement => .dir (setEntry name replacement entries)
  | .dir entries, name :: names, replacement =>
    match entries.lookup name with
    | some child => .dir (setEntry name (some (child.put names replacement)) entries)
    | none => .dir entries

mutual

/-- The files of a node with the names that lead to them. -/
def files : Node → List (List String × ByteArray)
  | .file content => [([], content)]
  | .dir entries => entryFiles entries

/-- The files of a directory's entries. -/
def entryFiles : List (String × Node) → List (List String × ByteArray)
  | [] => []
  | (name, node) :: entries =>
    (node.files.map fun (names, content) => (name :: names, content)) ++ entryFiles entries

end

end Node

/-- A tree of directories and files, and the names that lead to the working directory. -/
structure FileTree where
  root : Node
  cwd : List String

namespace FileTree

/-- A tree with the root directory alone. -/
def empty : FileTree := ⟨.dir [], []⟩

/-- The absolute path of names from the root. -/
def pathOf (names : List String) : Path := ⟨"/" ++ "/".intercalate names⟩

/-- One step from an existing place. Even a step to the same place demands a directory. -/
def step (t : FileTree) (here : List String) (segment : List Char) :
    Except FileError (List String) :=
  match t.root.follow? here with
  | some (.dir entries) =>
    if Path.isIdle segment then .ok here
    else if segment = ['.', '.'] then .ok here.dropLast
    else
      let name := String.ofList segment
      if (entries.lookup name).isSome then .ok (here ++ [name]) else .error .notFound
  | _ => .error .notDirectory

/-- Where a path starts. -/
def origin (t : FileTree) (p : Path) : List String := if p.isAbsolute then [] else t.cwd

/-- The names from the root to the place that a path leads to. The empty path leads nowhere. -/
def locate (t : FileTree) (p : Path) : Except FileError (List String) :=
  if p.text = "" then .error .notFound else p.segments.foldlM t.step (t.origin p)

/-- The node that a path leads to. -/
def node? (t : FileTree) (p : Path) : Option Node :=
  match t.locate p with
  | .ok names => t.root.follow? names
  | .error _ => none

/-- The path leads to a file. -/
def isFile (t : FileTree) (p : Path) : Bool :=
  match t.node? p with
  | some (.file _) => true
  | _ => false

/-- The path leads to a directory. -/
def isDir (t : FileTree) (p : Path) : Bool :=
  match t.node? p with
  | some (.dir _) => true
  | _ => false

/-- The path of the working directory, unless it has been removed. -/
def currentDir? (t : FileTree) : Option Path :=
  match t.root.follow? t.cwd with
  | some (.dir _) => some (pathOf t.cwd)
  | _ => none

/-- The one absolute path of an existing place. A path that leads nowhere is only made absolute, and is
left as it is where there is no working directory. -/
def normalize (t : FileTree) (p : Path) : Path :=
  match t.locate p with
  | .ok names => pathOf names
  | .error _ =>
    if p.isAbsolute then p
    else match t.currentDir? with
      | some cwd => cwd.join p
      | none => p

/-- The bytes of a file. -/
def readBytes (t : FileTree) (p : Path) : Except FileError ByteArray := do
  match t.root.follow? (← t.locate p) with
  | some (.file content) => .ok content
  | _ => .error .isDirectory

/-- The text of a file. -/
def read (t : FileTree) (p : Path) : Except FileError String := do
  match String.fromUTF8? (← t.readBytes p) with
  | some text => .ok text
  | none => .error .notText

/-- The directory that a new entry would stand in and its name: an existing place ends the search
with `taken`. -/
def vacancy (t : FileTree) (p : Path) (taken : FileError) :
    Except FileError (List String × String) := do
  if p.text = "" then throw .notFound
  match (p.segments.reverse.dropWhile (· = [])) with
  | [] => throw taken
  | last :: before =>
    if Path.isIdle last || last = ['.', '.'] then
      let _ ← t.locate p
      throw taken
    let here ← before.reverse.foldlM t.step (t.origin p)
    match t.root.follow? here with
    | some (.dir _) => return (here, String.ofList last)
    | _ => throw .notDirectory

/-- Makes one directory, where nothing may stand yet. -/
def makeDir (t : FileTree) (p : Path) : Except FileError FileTree := do
  let (here, name) ← t.vacancy p .alreadyExists
  match t.root.follow? (here ++ [name]) with
  | some _ => throw .alreadyExists
  | none => return { t with root := t.root.put (here ++ [name]) (some (.dir [])) }

/-- Makes one directory, unless it is there. -/
def ensureDir (t : FileTree) (p : Path) : Except FileError Unit × FileTree :=
  match t.makeDir p with
  | .ok t => (.ok (), t)
  | .error e => (if t.isDir p then .ok () else .error e, t)

/-- Makes a directory after its parents, the innermost one first in the list. Those that were made
stay when a later one cannot be made. -/
def ensureChain (t : FileTree) : List Path → Except FileError Unit × FileTree
  | [] => (.ok (), t)
  | p :: parents =>
    if p.text = "" then (.ok (), t)
    else match t.makeDir p with
      | .ok t => (.ok (), t)
      | .error .notFound =>
        match t.ensureChain parents with
        | (.ok (), t) => t.ensureDir p
        | (.error e, t) => (.error e, t)
      | .error e => (if t.isDir p then .ok () else .error e, t)

/-- Makes a directory and those above it that are missing, as far as it can. -/
def ensureDirs (t : FileTree) (p : Path) : Except FileError Unit × FileTree :=
  t.ensureChain p.ancestors

/-- The tree with a directory and those above it, if they can be made. -/
def makeDirs (t : FileTree) (p : Path) : Except FileError FileTree :=
  let (outcome, t) := t.ensureDirs p
  outcome.map fun _ => t

/-- Writes a file in an existing directory, in place of the one that stands there. -/
def write (t : FileTree) (p : Path) (content : ByteArray) : Except FileError FileTree := do
  let (here, name) ← t.vacancy p .isDirectory
  match t.root.follow? (here ++ [name]) with
  | some (.dir _) => throw .isDirectory
  | some (.file _) =>
    if p.chars.getLast? = some '/' then throw .notDirectory
    return { t with root := t.root.put (here ++ [name]) (some (.file content)) }
  | none =>
    if p.chars.getLast? = some '/' then throw .isDirectory
    return { t with root := t.root.put (here ++ [name]) (some (.file content)) }

/-- Moves a file, in place of the one that stands at the target. -/
def rename (t : FileTree) (source target : Path) : Except FileError FileTree := do
  let content ← t.readBytes source
  let names ← t.locate source
  let moved ← t.write target content
  return { moved with root := moved.root.put names none }

/-- Removes a file. -/
def removeFile (t : FileTree) (p : Path) : Except FileError FileTree := do
  let _ ← t.readBytes p
  let names ← t.locate p
  return { t with root := t.root.put names none }

/-- Removes a file or a directory with all it holds. -/
def removeAll (t : FileTree) (p : Path) : FileTree :=
  match t.locate p with
  | .ok names => { t with root := t.root.put names none }
  | .error _ => t

/-- The names of a directory's entries in increasing order. -/
def list (t : FileTree) (p : Path) : List String :=
  match t.node? p with
  | some (.dir entries) => (entries.map (·.1)).mergeSort (· ≤ ·)
  | _ => []

end FileTree

end Hotload
