import Hotload.Json.Reader
import Hotload.Options
import Hotload.World

/-!
# Resolution

What a specifier means for code in a directory: an override, a core module or a file. A relative
specifier is looked for in the directory itself, any other one in the package directories of the
directory and of those above it.

* `Resolution`: the three meanings.
* `ResolveOptions.find?`: the file that a specifier names.
* `ResolveOptions.locate`: the same with an error and a line in the log.
-/

namespace Hotload

/-- What a specifier means. -/
inductive Resolution where
  | override (value : Value)
  | core (name : String)
  | file (path : Path)

/-- The specifier starts from the directory that it is written in, or from the root. -/
def isRelative (specifier : String) : Bool :=
  match specifier.toList with
  | ['.'] | ['.', '.'] => true
  | '/' :: _ | '.' :: '/' :: _ | '.' :: '.' :: '/' :: _ => true
  | _ => false

/-- The file that the description of a package in a directory points to. -/
def packageMain? (files : FileTree) (dir : Path) : Option String := do
  let text ← (files.read (dir.join ⟨"package.json"⟩)).toOption
  match ← Json.parse? text.toList with
  | .object members =>
    match ← Json.member? members "main" with
    | .string main => some main
    | _ => none
  | _ => none

namespace ResolveOptions

/-- The first file among a path and the same path with each extension. -/
def fileAt? (options : ResolveOptions) (files : FileTree) (base : Path) : Option Path :=
  (base :: options.extensions.map base.addExtension).find? files.isFile

/-- The file that stands for a directory: the one that its package names, or its index. -/
def indexOf? (options : ResolveOptions) (files : FileTree) (dir : Path) : Option Path :=
  if files.isDir dir then
    ((packageMain? files dir).bind fun main => options.fileAt? files (dir.join ⟨main⟩)).or
      (options.fileAt? files (dir.join ⟨"index"⟩))
  else none

/-- The file at a path, or else the one that stands for the directory there. -/
def entryAt? (options : ResolveOptions) (files : FileTree) (base : Path) : Option Path :=
  (options.fileAt? files base).or (options.indexOf? files base)

/-- The places where a specifier is looked for, in their order. -/
def candidates (options : ResolveOptions) (specifier : String) (dir : Path) : List Path :=
  if isRelative specifier then [dir.join ⟨specifier⟩]
  else dir.ancestors.map fun p => (p.join ⟨options.packageDir⟩).join ⟨specifier⟩

/-- The file that a specifier names for code in a directory. -/
def find? (options : ResolveOptions) (files : FileTree) (specifier : String) (dir : Path) :
    Option Path :=
  ((options.candidates specifier dir).findSome? (options.entryAt? files)).map files.normalize

/-- The file that a specifier names. The log tells of a specifier that names none. -/
def locate (options : ResolveOptions) (specifier : String) (dir : Path) (w : World) :
    Except LoadError Path × World :=
  match options.find? w.files specifier dir with
  | some p => (.ok p, w)
  | none =>
    (.error (.resolution specifier dir),
      w.debug "resolve" ("`" ++ specifier ++ "` not found from " ++ dir.text))

end ResolveOptions

end Hotload
