import Hotload.Cache.Record
import Hotload.Proofs.Json

/-!
# Records are read back

The line that is kept of a compiled module is read as that module, whatever its code is, if the numbers in
its source map have 32 bits.

* `Compiled.Fits`: the numbers have 32 bits.
* `Compiled.ofJson?_record`: the record is read back.
-/

namespace Hotload

open Syntax (Pos)

/-- Both numbers have 32 bits. -/
def Mapping.Fits (m : Mapping) : Prop :=
  m.generated.line < 2 ^ 32 ∧ m.generated.col < 2 ^ 32 ∧ m.source.line < 2 ^ 32 ∧ m.source.col < 2 ^ 32

instance (m : Mapping) : Decidable m.Fits := inferInstanceAs (Decidable (_ ∧ _))

/-- The version and all positions have 32 bits. -/
def SourceMap.Fits (map : SourceMap) : Prop :=
  map.version < 2 ^ 32 ∧ ∀ m ∈ map.mappings.toList, m.Fits

instance (map : SourceMap) : Decidable map.Fits := inferInstanceAs (Decidable (_ ∧ _))

/-- The numbers in the source map have 32 bits. -/
def Compiled.Fits (c : Compiled) : Prop := ∀ map ∈ c.map, map.Fits

namespace Json

theorem readable_word {levels n : Nat} (h : n < 2 ^ 32) : Readable levels (.number (.natural n)) :=
  .natural (le_trans h.le (by decide))

theorem word?_number {n : Nat} (h : n < 2 ^ 32) : word? (.number (.natural n)) = some n := if_pos h

theorem readable_position {levels : Nat} {p : Pos} (hline : p.line < 2 ^ 32) (hcol : p.col < 2 ^ 32) :
    Readable (levels + 1) (positionJson p) := by
  refine .object fun entry hentry => ?_
  rcases List.mem_pair.1 hentry with rfl | rfl
  · exact readable_word hline
  · exact readable_word hcol

theorem position?_positionJson {p : Pos} (hline : p.line < 2 ^ 32) (hcol : p.col < 2 ^ 32) :
    (positionJson p).position? = some p := by
  have hparts : (positionJson p).parts? ["line", "col"] =
      some [some (.number (.natural p.line)), some (.number (.natural p.col))] := rfl
  rw [position?, hparts]
  simp [word?_number hline, word?_number hcol]

end Json

namespace Mapping

variable {m : Mapping}

theorem readable_toJson (h : m.Fits) (levels : Nat) : (Json.Readable (levels + 2) m.toJson) := by
  refine .object fun entry hentry => ?_
  rcases List.mem_pair.1 hentry with rfl | rfl
  · exact Json.readable_position h.1 h.2.1
  · exact Json.readable_position h.2.2.1 h.2.2.2

theorem ofJson?_toJson (h : m.Fits) : ofJson? m.toJson = some m := by
  have hparts : m.toJson.parts? ["generated", "original"] =
      some [some (positionJson m.generated), some (positionJson m.source)] := rfl
  rw [ofJson?, hparts]
  simp [Json.position?_positionJson h.1 h.2.1, Json.position?_positionJson h.2.2.1 h.2.2.2]

theorem mapM_ofJson?_toJson {ms : List Mapping} (h : ∀ m ∈ ms, m.Fits) :
    (ms.map toJson).mapM ofJson? = some ms := by
  induction ms with
  | nil => rfl
  | cons m ms ih =>
    rw [List.map_cons, List.mapM_cons, ofJson?_toJson (h m List.mem_cons_self),
      ih fun m hm => h m (List.mem_cons_of_mem _ hm)]
    rfl

end Mapping

namespace SourceMap

variable {map : SourceMap}

theorem readable_toJson (h : map.Fits) (levels : Nat) : Json.Readable (levels + 4) map.toJson := by
  refine .object fun entry hentry => ?_
  rcases List.mem_pair.1 hentry with rfl | rfl
  · exact Json.readable_word h.1
  · refine .array fun item hitem => ?_
    obtain ⟨m, hm, rfl⟩ := List.mem_map.1 hitem
    exact m.readable_toJson (h.2 m hm) levels

theorem ofJson?_toJson (h : map.Fits) : ofJson? map.toJson = some map := by
  have hparts : map.toJson.parts? ["version", "mappings"] =
      some [some (.number (.natural map.version)), some (.array (map.mappings.toList.map Mapping.toJson))] :=
    rfl
  have hmappings : (map.mappings.toList.map Mapping.toJson).mapM Mapping.ofJson? =
      some map.mappings.toList :=
    Mapping.mapM_ofJson?_toJson h.2
  rw [ofJson?, hparts]
  simp [Json.word?_number h.1, hmappings]

end SourceMap

namespace Compiled

variable {c : Compiled}

theorem readable_toJson (h : c.Fits) : Json.Readable Json.maxNesting c.toJson := by
  change Json.Readable (122 + 5) c.toJson
  refine .object fun entry hentry => ?_
  rcases List.mem_pair.1 hentry with rfl | rfl
  · exact .string c.code
  · cases hmap : c.map with
    | none => exact .null
    | some map => exact map.readable_toJson (h map hmap) 122

theorem ofJson?_toJson (h : c.Fits) : ofJson? c.toJson = some c := by
  obtain ⟨code, map⟩ := c
  cases map with
  | none => rfl
  | some map =>
    have hparts : (toJson ⟨code, some map⟩).parts? ["code", "map"] =
        some [some (.string code), some map.toJson] := rfl
    have hread := SourceMap.ofJson?_toJson (h map rfl)
    -- the source map is no null
    obtain ⟨members, hmembers⟩ : ∃ members, map.toJson = .object members := ⟨_, rfl⟩
    rw [hmembers] at hparts hread
    rw [ofJson?, hparts]
    simp [hread]

/-- The record of a compiled module is read as the compiled module. -/
theorem ofJson?_record (h : c.Fits) : (Json.parse? c.record.toList).bind ofJson? = some c := by
  rw [record, String.toList_ofList, Json.parse?_write (readable_toJson h), Option.bind_some,
    ofJson?_toJson h]

end Compiled

end Hotload
