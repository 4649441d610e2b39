import Hotload.Text.Fields

/-!
# Paths

A path is a text; slashes divide it into components. Two paths are the same if their components
are, while printing and joining work on the text as it was written.

* `Path.components`: what a path names step by step.
* `Path.parent?`, `Path.fileName?`, `Path.extension?`: parts of a path.
* `Path.join`: one path behind another.
* `Path.clean`: a path without the detours that can be seen from its text alone.
-/

namespace Hotload

/-- A path as it was written. -/
structure Path where
  text : String
deriving DecidableEq, Repr, Inhabited

namespace Path

/-- A step of a path. -/
inductive Component where
  | root
  | current
  | parent
  | name (name : String)
deriving DecidableEq, Repr

/-- The path with these characters. -/
def ofChars (cs : List Char) : Path := ⟨String.ofList cs⟩

/-- The characters of a path. -/
def chars (p : Path) : List Char := p.text.toList

/-- The path starts at the root. -/
def isAbsolute (p : Path) : Bool := p.chars.head? == some '/'

/-- The pieces between the slashes, empty ones included. -/
def segments (p : Path) : List (List Char) := Text.fields '/' p.chars

/-- The start of a path that is no ordinary segment (the root or a leading dot), and the segments
behind it. -/
def split (p : Path) : List Char × List (List Char) :=
  match p.chars with
  | '/' :: cs => (['/'], Text.fields '/' cs)
  | ['.'] => (['.'], [])
  | '.' :: '/' :: cs => (['.'], [] :: Text.fields '/' cs)
  | cs => ([], Text.fields '/' cs)

/-- A segment that names no step: an empty one or a dot. -/
def isIdle (segment : List Char) : Bool := segment = [] || segment = ['.']

/-- The step that a segment names. -/
def component? (segment : List Char) : Option Component :=
  if isIdle segment then none
  else if segment = ['.', '.'] then some .parent
  else some (.name (String.ofList segment))

/-- The steps of a path. Repeated slashes and dots count for nothing, except a leading dot. -/
def components (p : Path) : List Component :=
  let (head, segments) := p.split
  (if head = ['/'] then [.root] else if head = ['.'] then [.current] else []) ++
    segments.filterMap component?

/-- The two paths name the same steps. -/
def same (p q : Path) : Bool := p.components = q.components

/-- The segments without the idle ones at the end. -/
def dropIdle (segments : List (List Char)) : List (List Char) :=
  (segments.reverse.dropWhile isIdle).reverse

/-- The text of a start and segments. -/
def ofSplit (head : List Char) (segments : List (List Char)) : Path :=
  ofChars (head ++ Text.joinFields '/' segments)

/-- The path without its last component. -/
def parent? (p : Path) : Option Path :=
  let (head, segments) := p.split
  match dropIdle segments with
  | [] => if head = ['.'] then some ⟨""⟩ else none
  | s :: ss => some (ofSplit head (dropIdle (s :: ss).dropLast))

/-- The last component, if it is a name. -/
def fileName? (p : Path) : Option String :=
  match (dropIdle p.split.2).getLast? with
  | some segment => if segment = ['.', '.'] then none else some (String.ofList segment)
  | none => none

/-- What stands behind the last dot of the last component, if something stands in front of it. -/
def extension? (p : Path) : Option String := do
  let name ← p.fileName?
  let reversed := name.toList.reverse
  let tail := reversed.takeWhile (· ≠ '.')
  match reversed.dropWhile (· ≠ '.') with
  | '.' :: _ :: _ => some (String.ofList tail.reverse)
  | _ => none

/-- The second path seen from the first; an absolute one stays as it is. -/
def join (p q : Path) : Path :=
  if q.isAbsolute then q
  else if p.text = "" || p.chars.getLast? == some '/' then ⟨p.text ++ q.text⟩
  else ⟨p.text ++ "/" ++ q.text⟩

/-- The path and all its parents, as far as the count goes. -/
def ancestorsUpTo : Nat → Path → List Path
  | 0, _ => []
  | n + 1, p =>
    p :: match p.parent? with
      | some q => ancestorsUpTo n q
      | none => []

/-- The path, its parent, and so on up to the root or the empty path. -/
def ancestors (p : Path) : List Path := ancestorsUpTo (p.chars.length + 1) p

/-- The path with a dot and an extension behind its text. -/
def addExtension (p : Path) (ext : String) : Path := ⟨p.text ++ "." ++ ext⟩

/-- One more step behind cleaned steps, the last one first: a parent step takes back a name. -/
def cleanStep : List Component → Component → List Component
  | done, .current => done
  | .name _ :: done, .parent => done
  | done, step => step :: done

/-- The text of one step. -/
def Component.text : Component → String
  | root => "/"
  | current => "."
  | parent => ".."
  | name s => s

/-- The path of steps: only the root stands in front of another step without a slash. -/
def ofComponents : List Component → Path
  | [] => ⟨""⟩
  | step :: steps => steps.foldl (fun p step => p.join ⟨step.text⟩) ⟨step.text⟩

/-- The path without dots, and without parent steps behind names. -/
def clean (p : Path) : Path := ofComponents (p.components.foldl cleanStep []).reverse

end Path

end Hotload
