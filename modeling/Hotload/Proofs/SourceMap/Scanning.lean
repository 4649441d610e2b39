import Mathlib
import Hotload.Proofs.SourceMap.Lookup

/-!
# Lookups are scans

A lookup halves the mappings of a source map until one is left. Going through all of them and taking
the last one that is not after the position gives the same answer, also where several mappings share
a generated position. Since this mapping is not after the position, the differences that the lookup
takes, of columns on one line and else of lines, are true differences.

* `SourceMap.scan`: the last mapping that is not after a position, without the binary search.
* `Mapping.carry?`: where a mapping puts a position, by differences that may fail.
* `SourceMap.scanPosition?`: the position in the source, by the scan.
* `SourceMap.lookups_are_scans`: the lookup gives the answer of the scan.
-/

namespace Hotload

open Syntax (Pos)

/-! ## Differences of positions -/

/-- On one line a position is not in front of another one if it is not to its left, and on different
lines if it is not above it. -/
theorem Syntax.Pos.not_before_iff (p q : Pos) :
    ¬ p.Before q ↔ if q.line = p.line then q.col ≤ p.col else q.line ≤ p.line := by
  unfold Before
  split <;> omega

namespace Mapping

/-- The source position that a mapping gives a position: as far behind its own source position as
the position is behind its generated position. There is none if a difference goes below zero. -/
def carry? (m : Mapping) (p : Pos) : Option Pos :=
  if m.generated.line = p.line then
    (p.col.psub m.generated.col).map fun cols => ⟨m.source.line, m.source.col + cols⟩
  else (p.line.psub m.generated.line).map fun lines => ⟨m.source.line + lines, p.col⟩

/-- A mapping gives every position that it is not after a source position. -/
theorem carry?_of_not_before {m : Mapping} {p : Pos} (h : ¬ p.Before m.generated) :
    m.carry? p = some
      (if m.generated.line = p.line then ⟨m.source.line, m.source.col + (p.col - m.generated.col)⟩
      else ⟨m.source.line + (p.line - m.generated.line), p.col⟩) := by
  rw [Pos.not_before_iff] at h
  unfold carry?
  by_cases hline : m.generated.line = p.line
  · rw [if_pos hline] at h
    simp only [if_pos hline, Nat.psub_eq_sub h, Option.map_some]
  · rw [if_neg hline] at h
    simp only [if_neg hline, Nat.psub_eq_sub h, Option.map_some]

end Mapping

namespace SourceMap

/-! ## The scan -/

/-- The last mapping that is not after `p`, found by going through the mappings one by one. -/
def scan (map : SourceMap) (p : Pos) : Option Mapping :=
  map.mappings.toList.findRev? fun m => ¬ p.Before m.generated

/-- The position in the source that the scan gives a position. A position in front of all mappings
is its own. -/
def scanPosition? (map : SourceMap) (p : Pos) : Option Pos :=
  match map.scan p with
  | some m => m.carry? p
  | none => some p

variable {map : SourceMap} {p : Pos}

theorem scan_eq_some_iff {m : Mapping} :
    map.scan p = some m ↔ ∃ front behind, map.mappings.toList = front ++ m :: behind ∧
      ¬ p.Before m.generated ∧ ∀ m' ∈ behind, p.Before m'.generated := by
  rw [scan, List.findRev?_eq_find?_reverse, List.find?_eq_some_iff_append]
  constructor
  · rintro ⟨hm, behind, front, hsplit, hbehind⟩
    refine ⟨front.reverse, behind.reverse, ?_, by simpa using hm, ?_⟩
    · rw [List.reverse_eq_iff.mp hsplit]
      simp
    · intro m' hm'
      simpa using hbehind m' (List.mem_reverse.mp hm')
  · rintro ⟨front, behind, hsplit, hm, hbehind⟩
    refine ⟨by simpa using hm, behind.reverse, front.reverse, ?_, ?_⟩
    · rw [hsplit]
      simp
    · intro m' hm'
      simpa using hbehind m' (List.mem_reverse.mp hm')

theorem scan_eq_none_iff :
    map.scan p = none ↔ ∀ m ∈ map.mappings, p.Before m.generated := by
  rw [scan, List.findRev?_eq_find?_reverse, List.find?_eq_none]
  simp

/-- In mappings that are in order, the binary search and the scan find the same one. -/
theorem Sorted.lastNotAfter_eq_scan (h : map.Sorted) (p : Pos) :
    map.lastNotAfter p = map.scan p := by
  have hfound := h.lastNotAfter p
  cases hlast : map.lastNotAfter p with
  | none =>
    rw [hlast] at hfound
    exact (scan_eq_none_iff.mpr hfound).symm
  | some m =>
    rw [hlast] at hfound
    exact (scan_eq_some_iff.mpr hfound).symm

/-- The mapping that the search finds in mappings that are in order is not after the position. -/
theorem Sorted.not_before_lastNotAfter (h : map.Sorted) {m : Mapping}
    (hlast : map.lastNotAfter p = some m) : ¬ p.Before m.generated := by
  rw [h.lastNotAfter_eq_scan, scan_eq_some_iff] at hlast
  obtain ⟨-, -, -, hm, -⟩ := hlast
  exact hm

/-! ## The position in the source -/

/-- In a source map whose mappings are in order, where several may share a generated position, a
lookup gives the answer of the scan, and neither of the differences that it takes goes below
zero. -/
theorem lookups_are_scans (h : map.Sorted) (p : Pos) :
    map.scanPosition? p = some (map.sourcePosition p) ∧
      ∀ m, map.lastNotAfter p = some m →
        if m.generated.line = p.line then m.generated.col ≤ p.col
        else m.generated.line ≤ p.line := by
  refine ⟨?_, fun m hlast => (Pos.not_before_iff _ _).mp (h.not_before_lastNotAfter hlast)⟩
  rw [scanPosition?, ← h.lastNotAfter_eq_scan, sourcePosition]
  cases hlast : map.lastNotAfter p with
  | none => rfl
  | some m => exact Mapping.carry?_of_not_before (h.not_before_lastNotAfter hlast)

/-- A source map with two mappings at one generated position. -/
def doubled : SourceMap :=
  ofMappings [⟨⟨1, 1⟩, ⟨1, 1⟩⟩, ⟨⟨1, 9⟩, ⟨1, 17⟩⟩, ⟨⟨1, 9⟩, ⟨2, 3⟩⟩, ⟨⟨3, 1⟩, ⟨4, 8⟩⟩]

/-- Of two mappings at one position the second one counts. -/
theorem lookups_are_scans_doubled :
    doubled.Sorted ∧
      (doubled.scanPosition? ⟨1, 12⟩ = some (doubled.sourcePosition ⟨1, 12⟩) ∧
        ∀ m, doubled.lastNotAfter ⟨1, 12⟩ = some m →
          if m.generated.line = 1 then m.generated.col ≤ 12 else m.generated.line ≤ 1) ∧
      doubled.sourcePosition ⟨1, 12⟩ = ⟨2, 6⟩ := by
  have hsorted : doubled.Sorted := by decide
  have hlookup := lookups_are_scans hsorted ⟨1, 12⟩
  have hscan : doubled.scanPosition? ⟨1, 12⟩ = some ⟨2, 6⟩ := by decide
  exact ⟨hsorted, hlookup, Option.some.inj (hlookup.1.symm.trans hscan)⟩

end SourceMap

end Hotload
