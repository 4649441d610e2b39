import Mathlib
import Hotload.Proofs.Compiler
import Hotload.Proofs.SourceMap.Mappings

/-!
# Source maps are exact

A note that text follows is not replaced by a later one: the end of the layout has moved on. So the
source map has a mapping for every such note, and it tells the exact position of every node whose
first token a note stands in front of. These are the expressions, the functions and the statements
that begin with a keyword, as far as they come from the source.

* `Layout.Sound.noted`: the notes in front of text are mappings.
* `source_map_is_exact`: the nodes of compiled code are mapped to the nodes of the source.
-/

namespace Hotload

namespace Syntax

/-! ## Notes are mappings -/

theorem Noted.mono {ρ ρ' : Pos → Pos → Prop} (h : ∀ p s, ρ p s → ρ' p s) {p : Pos}
    {ps : List Piece} (hn : Noted ρ p ps) : Noted ρ' p ps := by
  induction ps generalizing p with
  | nil => trivial
  | cons piece ps ih =>
    cases piece with
    | text cs => exact ih hn
    | mark source => exact ⟨fun ht => h _ _ (hn.1 ht), ih hn.2⟩
    | start source => exact ⟨fun ht => h _ _ (hn.1 ht), ih hn.2⟩

namespace Layout.Sound

variable {l : Layout} {m : Mapping}

/-- A mapping in front of the end of the layout stays. -/
theorem kept_place (h : l.Sound) (piece : Piece) (hm : m ∈ l.mappings)
    (hb : m.generated.Before l.pos) :
    m ∈ (l.place piece).mappings ∧ m.generated.Before (l.place piece).pos := by
  have hmark {l : Layout} (h : l.Sound) (source : Pos) (hm : m ∈ l.mappings)
      (hb : m.generated.Before l.pos) :
      m ∈ (l.mark source).mappings ∧ m.generated.Before (l.mark source).pos := by
    have hne : m.generated ≠ l.pos := fun heq => Pos.not_before_self _ (heq ▸ hb)
    rw [h.mark_mappings, (mark_eq l source).1]
    exact ⟨List.mem_cons_of_mem _ (List.mem_filter.mpr ⟨hm, by simpa using hne⟩), hb⟩
  cases piece with
  | text cs => exact ⟨hm, Pos.Before.of_not_before hb (Pos.not_right_before l.pos _)⟩
  | mark source => exact hmark h source hm hb
  | start source =>
    refine hmark (h.led source) source (by rwa [led_mappings]) ?_
    rw [led_pos]
    exact Pos.Before.of_not_before hb (Pos.not_lead_before l.pos source)

theorem kept (h : l.Sound) (pieces : List Piece) (hm : m ∈ l.mappings)
    (hb : m.generated.Before l.pos) : m ∈ (pieces.foldl Layout.place l).mappings := by
  induction pieces generalizing l with
  | nil => exact hm
  | cons piece pieces ih =>
    obtain ⟨hm', hb'⟩ := h.kept_place piece hm hb
    exact ih (h.place piece) hm' hb'

/-- A note that text follows stays. -/
theorem noted_mark (h : l.Sound) (source : Pos) {pieces : List Piece} (ht : TextNext pieces) :
    ⟨l.pos, source⟩ ∈ (pieces.foldl Layout.place (l.mark source)).mappings := by
  have hpos := (mark_eq l source).1
  obtain - | ⟨piece, pieces⟩ := pieces
  · exact ht.elim
  cases piece with
  | text cs =>
    have hlast : (⟨l.pos, source⟩ : Mapping) ∈ (l.mark source).mappings := by
      rw [h.mark_mappings]
      exact List.mem_cons_self
    refine ((h.mark source).place (.text cs)).kept pieces hlast ?_
    change l.pos.Before ((l.mark source).pos.right cs.length)
    rw [hpos]
    exact Pos.before_right l.pos (List.length_pos_iff.mpr ht)
  | _ => exact ht.elim

/-- The notes in front of text are mappings. -/
theorem noted (h : l.Sound) (pieces : List Piece) :
    Noted (fun generated source =>
      ⟨generated, source⟩ ∈ (pieces.foldl Layout.place l).mappings) l.pos pieces := by
  induction pieces generalizing l with
  | nil => trivial
  | cons piece pieces ih =>
    cases piece with
    | text cs => exact ih (h.place (.text cs))
    | mark source =>
      have hrest := ih (h.place (.mark source))
      refine ⟨h.noted_mark source, ?_⟩
      rwa [show (l.place (.mark source)).pos = l.pos from (mark_eq l source).1] at hrest
    | start source =>
      have hrest := ih (h.place (.start source))
      have hpos : (l.place (.start source)).pos = l.pos.lead source := (place_start l source).1
      refine ⟨fun ht => ?_, hpos ▸ hrest⟩
      rw [← led_pos]
      exact (h.led source).noted_mark source ht

end Layout.Sound

/-- The source map of a layout tells the source position of every note in front of text. -/
theorem noted_sourceMap (pieces : List Piece) :
    Noted (fun generated source => (layOut pieces).sourceMap.sourcePosition generated = source)
      .start pieces := by
  refine (Layout.sound_empty.noted pieces).mono fun generated source hm => ?_
  refine (ascending_layOut pieces).sourcePosition (m := ⟨generated, source⟩) ?_
  simpa [Layout.sourceMap, SourceMap.ofMappings, layOut] using hm

/-! ## What is read back as it was -/

theorem faithful_lowerImport (p q : Pos) {temp source : String} {clause : ImportClause}
    (h : ∀ s ∈ lowerImport p temp source clause, s.Every faithful) :
    ∀ s ∈ lowerImport q temp source clause, s.Every faithful := by
  cases clause with
  | named names =>
    simp only [lowerImport, List.forall_mem_cons, List.forall_mem_map] at h ⊢
    exact h
  | _ =>
    simp only [lowerImport, List.mem_singleton, forall_eq] at h ⊢
    exact h

theorem faithful_lowerExportAt (p q pos : Pos) {form : ExportForm}
    (h : ∀ s ∈ lowerExportAt p pos form, s.Every faithful) :
    ∀ s ∈ lowerExportAt q pos form, s.Every faithful := by
  cases form with
  | default_ value =>
    simp only [lowerExportAt, lowerExport, List.mem_singleton, forall_eq] at h ⊢
    exact h
  | fn function isDefault =>
    cases hname : function.name <;>
    · simp only [lowerExportAt, lowerExport, hname, List.forall_mem_cons] at h ⊢
      exact h
  | declare name value =>
    simp only [lowerExportAt, List.forall_mem_cons] at h ⊢
    exact h
  | names names =>
    simp only [lowerExportAt, lowerExport, List.forall_mem_map] at h ⊢
    exact h

/-- Where the nodes stand that do not come from the source does not matter for what is read. -/
theorem faithful_lowerAt {items : List Item} (h : Stmt.EveryList faithful (lower items))
    (unknown : Item → Pos) : Stmt.EveryList faithful (lowerAt unknown items) := by
  have hfrom (items : List Item) (temps : Nat)
      (hevery : ∀ s ∈ lowerFromAt Item.pos temps items, s.Every faithful) :
      ∀ s ∈ lowerFromAt unknown temps items, s.Every faithful := by
    induction items generalizing temps with
    | nil => exact hevery
    | cons item items ih =>
      rw [lowerFromAt, List.forall_mem_append] at hevery ⊢
      obtain ⟨hitem, hitems⟩ := hevery
      refine ⟨?_, ih _ hitems⟩
      cases item with
      | stmt s => exact hitem
      | import_ pos clause source => exact faithful_lowerImport _ _ hitem
      | export_ pos form => exact faithful_lowerExportAt _ _ pos hitem
  rw [← lowerAt_pos] at h
  exact Stmt.everyList_iff.mpr (hfrom items 0 (Stmt.everyList_iff.mp h))

end Syntax

open Syntax (Pos Item Stmt parseSurface parseCore printProgram lower lowerAt)

variable {path : Path} {source : String} {items : List Item} {compiled : Compiled}
  {found : List Stmt}

theorem map_of_transpile (hsource : parseSurface source.toList = .ok items)
    (hcompiled : transpile path source true = .ok compiled) :
    compiled.map = some (Syntax.layOut (printProgram items)).sourceMap := by
  rw [transpile, hsource] at hcompiled
  cases hcompiled
  rfl

/-- When compiled code is read as the core program that its source stands for, the source map tells
of every node the exact position that it has in the source. The nodes that a module declaration
stands for and that are not in the source are set apart: they are those at `unknown`, whatever
position this is. -/
theorem source_map_is_exact (hsource : parseSurface source.toList = .ok items)
    (hcompiled : transpile path source true = .ok compiled)
    {map : SourceMap} (hmap : compiled.map = some map)
    (hread : parseCore compiled.code.toList = .ok found)
    (herase : Stmt.eraseList found = Stmt.eraseList (lower items)) (unknown : Pos) :
    Stmt.AlikeList (fun generated pos => pos ≠ unknown → map.sourcePosition generated = pos)
      found (lowerAt (fun _ => unknown) items) := by
  have hbuilt := Syntax.built_lowerAt (Syntax.built_of_parseSurface hsource) fun _ => unknown
  have hfaithful := Syntax.faithful_lowerAt ((read_eq_lower_iff hsource hcompiled hread).mp herase)
    fun _ => unknown
  have hworded := Stmt.EveryList.mono Syntax.worded_of_faithful hfaithful
  have hraw : Syntax.Spelt.raw ∉ Stmt.speltList (lowerAt (fun _ => unknown) items) := by
    rcases Stmt.tellingList hbuilt with hw | ⟨hn, -⟩
    · exact hw.2.1
    · exact absurd hworded hn
  -- Every note in front of a token is a mapping, so the tokens stand where the source map tells.
  have hnoted : Syntax.Noted
      (fun generated pos => pos ≠ unknown → map.sourcePosition generated = pos) .start
      (printProgram items) := by
    rw [map_of_transpile hsource hcompiled] at hmap
    cases hmap
    refine Syntax.Noted.mono (fun generated pos h _ => ?_) (Syntax.noted_sourceMap _)
    exact h
  obtain ⟨q, hscans⟩ := Syntax.scans_code (Syntax.built_of_parseSurface hsource)
    (fun (_ : Item) _ hne => absurd rfl hne) hnoted
  rw [← code_of_transpile hsource hcompiled] at hscans
  have hfound := Syntax.reads_program hbuilt hworded hraw hscans
  rw [hread] at hfound
  rw [← Stmt.rereadList_eq hfaithful]
  exact hfound.2.2

/-- The name and the value of the only declaration, if it is an exported variable with a variable as
its value. -/
def exportedVariable : List Item → Option (String × String)
  | [.export_ _ (.declare name (.ident _ value))] => some (name, value)
  | _ => none

theorem faithful_of_exportedVariable {items : List Item} {name value : String}
    (h : exportedVariable items = some (name, value)) (hname : Syntax.IsName name)
    (hvalue : Syntax.IsName value) : Stmt.EveryList Syntax.faithful (lower items) := by
  unfold exportedVariable at h
  split at h
  · cases h
    exact ⟨⟨trivial, hvalue⟩, ⟨Syntax.isName_exports, hname⟩, trivial⟩
  · cases h

/-- An annotation is erased and the text behind it moves to the left. -/
theorem source_map_is_exact_annotation : ∃ items compiled map found,
    parseSurface "export let n: num = f;".toList = .ok items ∧
      transpile ⟨"/app/entry.rl"⟩ "export let n: num = f;" true = .ok compiled ∧
      compiled.map = some map ∧
      parseCore compiled.code.toList = .ok found ∧
      Stmt.eraseList found = Stmt.eraseList (lower items) ∧
      ∀ unknown, Stmt.AlikeList
        (fun generated pos => pos ≠ unknown → map.sourcePosition generated = pos)
        found (lowerAt (fun _ => unknown) items) := by
  obtain ⟨items, plain, found, hsource, hplain, hread⟩ :=
    exists_read ⟨"/app/entry.rl"⟩ "export let n: num = f;" (by decide +kernel)
  have hshape : (parseSurface "export let n: num = f;".toList).toOption.bind exportedVariable =
      some ("n", "f") := by
    decide +kernel
  rw [hsource] at hshape
  have hfaithful := faithful_of_exportedVariable hshape ⟨by decide +kernel, rfl⟩
    ⟨by decide +kernel, rfl⟩
  have herase := (read_eq_lower_iff hsource hplain hread).mpr hfaithful
  obtain ⟨compiled, hcompiled⟩ : ∃ compiled,
      transpile ⟨"/app/entry.rl"⟩ "export let n: num = f;" true = .ok compiled := by
    rw [transpile, hsource]
    exact ⟨_, rfl⟩
  have hmap := map_of_transpile hsource hcompiled
  have hcode : compiled.code = plain.code := String.toList_injective <|
    (code_of_transpile hsource hcompiled).trans (code_of_transpile hsource hplain).symm
  rw [← hcode] at hread
  exact ⟨items, compiled, _, found, hsource, hcompiled, hmap, hread, herase, fun unknown =>
    source_map_is_exact hsource hcompiled hmap hread herase unknown⟩

end Hotload
