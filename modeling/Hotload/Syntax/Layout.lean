import Hotload.SourceMap

/-!
# Laying out a printed program

A printed program is a list of pieces: text, notes of where a node of the source stood, and starts
of statements. Laying it out puts every statement on the line it started on in the source, keeps
its indentation, and collects the source map on the way.

* `Piece`: an element of a printed program.
* `layOut`: the text and the mappings of a list of pieces.
-/

namespace Hotload.Syntax

/-- An element of a printed program. -/
inductive Piece where
  /-- Text without a line break. -/
  | text (cs : List Char)
  /-- What follows comes from this position. -/
  | mark (source : Pos)
  /-- A statement from this position follows. -/
  | start (source : Pos)

/-- A piece of fixed text. -/
def Piece.str (s : String) : Piece := .text s.toList

/-- A program as far as it is laid out: where its end stands, and its characters and mappings, the
last ones first. -/
structure Layout where
  pos : Pos
  written : List Char
  mappings : List Mapping

namespace Layout

/-- Nothing laid out. -/
def empty : Layout := ⟨.start, [], []⟩

/-- Appends text, which counts as one line. -/
def write (l : Layout) (cs : List Char) : Layout :=
  { l with pos := l.pos.right cs.length, written := cs.reverse ++ l.written }

/-- Notes that what follows comes from `source`. Of two notes at one place the later one counts,
so that mappings increase in the generated position. -/
def mark (l : Layout) (source : Pos) : Layout :=
  match l.mappings with
  | m :: ms =>
    if m.generated = l.pos then { l with mappings := ⟨l.pos, source⟩ :: ms }
    else { l with mappings := ⟨l.pos, source⟩ :: m :: ms }
  | [] => { l with mappings := [⟨l.pos, source⟩] }

/-- Moves down to a line, unless the end is already there or below. -/
def descend (l : Layout) (line : Nat) : Layout :=
  if l.pos.line < line then
    { l with
      pos := ⟨line, 1⟩
      written := List.replicate (line - l.pos.line) '\n' ++ l.written }
  else l

/-- Begins a statement: on its line, and at its column if nothing stands in front of it. -/
def start (l : Layout) (source : Pos) : Layout :=
  let l := l.descend source.line
  let gap := if 1 < l.pos.col then 1 else source.col - 1
  (l.write (List.replicate gap ' ')).mark source

/-- Appends one piece. -/
def place (l : Layout) : Piece → Layout
  | .text cs => l.write cs
  | .mark source => l.mark source
  | .start source => l.start source

end Layout

/-- The layout of a list of pieces. -/
def layOut (pieces : List Piece) : Layout := pieces.foldl Layout.place .empty

/-- The text of a layout. -/
def Layout.code (l : Layout) : List Char := l.written.reverse

/-- The source map of a layout. -/
def Layout.sourceMap (l : Layout) : SourceMap := .ofMappings l.mappings.reverse

end Hotload.Syntax
