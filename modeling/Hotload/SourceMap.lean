import Hotload.Path
import Hotload.Syntax.Pos

/-!
# Source maps

A source map relates positions in compiled code to positions in the source. It is a list of
mappings in increasing order of the generated position; a position in between is mapped by the
nearest mapping before it.

* `SourceMap.lastNotAfter`: that mapping, by binary search.
* `SourceMap.sourcePosition`: the position in the source.
* `SourceMaps`: the source maps of many files.
-/

namespace Hotload

open Syntax (Pos)

/-- Code at the generated position comes from the source position. -/
structure Mapping where
  generated : Pos
  source : Pos
deriving DecidableEq, Repr, Inhabited

/-- The mappings of one file and the version of the format. -/
structure SourceMap where
  version : Nat
  mappings : Array Mapping
deriving DecidableEq, Repr

namespace SourceMap

/-- The source map with these mappings, in the current version of the format. -/
def ofMappings (mappings : List Mapping) : SourceMap := ⟨1, mappings.toArray⟩

/-- Narrows the stretch of `size` mappings from `base` on to the last mapping not after `p`: while
the stretch has two or more, its half without that mapping is dropped. -/
def narrow (mappings : Array Mapping) (p : Pos) (base size : Nat) : Nat :=
  if 1 < size then
    let half := size / 2
    let mid := base + half
    let base := if (mappings[mid]?.any (·.generated.le p)) then mid else base
    narrow mappings p base (size - half)
  else base
termination_by size
decreasing_by omega

/-- The last mapping whose generated position is not after `p`. -/
def lastNotAfter (m : SourceMap) (p : Pos) : Option Mapping :=
  match m.mappings[narrow m.mappings p 0 m.mappings.size]? with
  | some mapping => if mapping.generated.le p then some mapping else none
  | none => none

/-- The position in the source that a position in the code comes from: as far behind the source
position of the mapping as it is behind its generated position. The sums fit in 32 bits if the mapping
leaves room for them (`SourceMap.fits_sourcePosition`). -/
def sourcePosition (m : SourceMap) (p : Pos) : Pos :=
  match m.lastNotAfter p with
  | none => p
  | some ⟨generated, source⟩ =>
    if generated.line = p.line then ⟨source.line, source.col + (p.col - generated.col)⟩
    else ⟨source.line + (p.line - generated.line), p.col⟩

end SourceMap

/-- The source maps of files, of each file at most one. -/
structure SourceMaps where
  entries : List (Path × SourceMap)

namespace SourceMaps

/-- No source maps. -/
def empty : SourceMaps := ⟨[]⟩

/-- The source map of a file. -/
def find? (maps : SourceMaps) (p : Path) : Option SourceMap :=
  (maps.entries.find? (·.1.same p)).map (·.2)

/-- The source maps without the one of a file. -/
def remove (maps : SourceMaps) (p : Path) : SourceMaps :=
  ⟨maps.entries.filter fun entry => !entry.1.same p⟩

/-- The source maps with the one of a file set. -/
def insert (maps : SourceMaps) (p : Path) (m : SourceMap) : SourceMaps :=
  ⟨(p, m) :: (maps.remove p).entries⟩

/-- The number of files with a source map. -/
def size (maps : SourceMaps) : Nat := maps.entries.length

/-- The position in the source of a file; a file without a source map is its own source. -/
def sourcePosition (maps : SourceMaps) (path : Path) (p : Pos) : Pos :=
  match maps.find? path with
  | some m => m.sourcePosition p
  | none => p

end SourceMaps

end Hotload
