import Mathlib
import Hotload.Compiler
import Hotload.Proofs.Module.Steps
import Hotload.Proofs.Syntax.Trailer

/-!
# The mode of source maps changes no program

In inline mode the code of a file has its source map behind it, in a comment on a line of its own.
The code of a file is parsed to the same program in every mode, and all that a request for a program
leaves behind is the same but for the source maps.

* `parseCore_inlineComment`: the comment that holds a source map is not parsed.
* `CompileCache.inMode`, `Machine.inMode`: the same state in another mode.
* `same_program_in_every_mode`: the programs of all files in two modes.
-/

namespace Hotload

open Syntax (Pos Stmt parseCore IsTrailing trailer)

/-! ## The comment behind the code -/

theorem isTrailing_natural (n : Nat) : IsTrailing (Json.number (.natural n)).write := by
  have hdigits : ∀ c ∈ (Json.number (.natural n)).write, c.isDigit = true := by
    rw [Json.write, Json.writeNumber]
    exact Number.allDigits_toDigits n
  exact ⟨fun h => absurd (hdigits _ h) (by decide), fun h => absurd (hdigits _ h) (by decide)⟩

theorem isTrailing_array {items : List Json} (h : ∀ item ∈ items, IsTrailing item.write) :
    IsTrailing (Json.array items).write := by
  have hitems : IsTrailing (Json.writeItems items) := by
    induction items with
    | nil => decide
    | cons item items ih =>
      obtain ⟨hitem, hrest⟩ := List.forall_mem_cons.mp h
      cases items with
      | nil => exact hitem
      | cons => exact hitem.append (.append (s := [',']) (by decide) (ih hrest))
  rw [Json.write]
  exact .append (s := '[' :: _) (.append (s := ['[']) (by decide) hitems) (by decide)

/-- A member of an object as the writer writes it. -/
def IsTrailingMember (member : String × Json) : Prop :=
  IsTrailing (Json.writeString member.1) ∧ IsTrailing member.2.write

theorem isTrailing_object {members : List (String × Json)}
    (h : ∀ member ∈ members, IsTrailingMember member) : IsTrailing (Json.object members).write := by
  have hmembers : IsTrailing (Json.writeMembers members) := by
    induction members with
    | nil => decide
    | cons member members ih =>
      obtain ⟨⟨hkey, hvalue⟩, hrest⟩ := List.forall_mem_cons.mp h
      have hmember := hkey.append (.append (s := [':']) (by decide) hvalue)
      cases members with
      | nil => exact hmember
      | cons next members =>
        rw [Json.writeMembers]
        · exact hmember.append (.append (s := [',']) (by decide) (ih hrest))
        · exact List.cons_ne_nil next members
  rw [Json.write]
  exact .append (s := '\x7b' :: _) (.append (s := ['\x7b']) (by decide) hmembers) (by decide)

theorem isTrailing_position (p : Pos) : IsTrailing (positionJson p).write := by
  have hline : IsTrailing (Json.writeString "line") := by decide
  have hcol : IsTrailing (Json.writeString "col") := by decide
  exact isTrailing_object (List.forall_mem_cons.mpr ⟨⟨hline, isTrailing_natural p.line⟩,
    List.forall_mem_singleton.mpr ⟨hcol, isTrailing_natural p.col⟩⟩)

theorem isTrailing_mapping (m : Mapping) : IsTrailing m.toJson.write := by
  have hgenerated : IsTrailing (Json.writeString "generated") := by decide
  have horiginal : IsTrailing (Json.writeString "original") := by decide
  exact isTrailing_object (List.forall_mem_cons.mpr
    ⟨⟨hgenerated, isTrailing_position m.generated⟩,
      List.forall_mem_singleton.mpr ⟨horiginal, isTrailing_position m.source⟩⟩)

theorem isTrailing_sourceMap (m : SourceMap) : IsTrailing m.toJson.write := by
  have hversion : IsTrailing (Json.writeString "version") := by decide
  have hmappings : IsTrailing (Json.writeString "mappings") := by decide
  refine isTrailing_object (List.forall_mem_cons.mpr ⟨⟨hversion, isTrailing_natural m.version⟩,
    List.forall_mem_singleton.mpr ⟨hmappings, isTrailing_array fun item hitem => ?_⟩⟩)
  obtain ⟨mapping, -, rfl⟩ := List.mem_map.mp hitem
  exact isTrailing_mapping mapping

/-- The comment that holds a source map is one line that nothing in it ends early. -/
theorem inlineComment_eq (m : SourceMap) :
    ∃ comment, IsTrailing comment ∧ "\n".toList ++ m.inlineComment.toList = trailer comment := by
  have hwrite : (String.ofList m.toJson.write).toList = m.toJson.write := String.toList_ofList
  refine ⟨"# sourceMappingURL=data:application/json,".toList ++ m.toJson.write,
    .append (by decide) (isTrailing_sourceMap m), ?_⟩
  rw [SourceMap.inlineComment, String.toList_append, hwrite]
  rfl

/-- The code of a file with the comment behind it is the same program. -/
theorem parseCore_inlineComment (code : List Char) (m : SourceMap) (body : List Stmt) :
    parseCore (code ++ "\n".toList ++ m.inlineComment.toList) = .ok body ↔
      parseCore code = .ok body := by
  obtain ⟨comment, hcomment, htext⟩ := inlineComment_eq m
  rw [List.append_assoc, htext]
  exact Syntax.parseCore_trailer hcomment code body

/-! ## The code of a file in two modes -/

namespace CompileCache

variable {σ : Type} [CacheStore σ]

/-- The cache in another mode, with other source maps registered. -/
def inMode (mode : SourceMapMode) (maps : SourceMaps) (cache : CompileCache σ) : CompileCache σ :=
  { cache with mode, maps }

/-- Both texts are code of the same program, or of none. -/
def SameProgram (code code' : String) : Prop :=
  ∀ body, parseCore code.toList = .ok body ↔ parseCore code'.toList = .ok body

theorem sameProgram_finish (mode mode' : SourceMapMode) (c : Compiled) :
    SameProgram (finish mode c) (finish mode' c) := by
  have hfinish (mode : SourceMapMode) : SameProgram (finish mode c) c.code := by
    intro body
    unfold finish
    split
    · rw [String.toList_append, String.toList_append]
      exact parseCore_inlineComment _ _ body
    · exact Iff.rfl
  exact fun body => (hfinish mode body).trans (hfinish mode' body).symm

variable (mode : SourceMapMode) (maps : SourceMaps) (cache : CompileCache σ) (p : Path)

theorem compile_inMode (key : Digest) (text : String) (w : World) :
    (cache.inMode mode maps).compile key p text w =
      ((cache.compile key p text w).1, (cache.compile key p text w).2.1.inMode mode maps,
        (cache.compile key p text w).2.2) := by
  unfold compile inMode
  dsimp only
  cases cache.compiler p text true <;> rfl

theorem obtain_inMode (text : String) (w : World) :
    (cache.inMode mode maps).obtain p text w =
      ((cache.obtain p text w).1, (cache.obtain p text w).2.1.inMode mode maps,
        (cache.obtain p text w).2.2) := by
  have hmemo : (cache.inMode mode maps).memo = cache.memo := rfl
  have hstore : (cache.inMode mode maps).store = cache.store := rfl
  unfold CompileCache.obtain
  dsimp only
  rw [hmemo, hstore]
  cases cache.memo.find? (Digest.ofText text) with
  | some c => rfl
  | none =>
    dsimp only
    generalize CacheStore.get (Digest.ofText text) cache.store w = answered
    obtain ⟨answer, store, w'⟩ := answered
    match answer with
    | .ok (some c) => rfl
    | .ok none => exact compile_inMode mode maps { cache with store } p _ text w'
    | .error e => exact compile_inMode mode maps { cache with store } p _ text _

/-- A load in two modes fails in the same way or gives code of the same program, and leaves the same
cache but for the source maps. -/
theorem load_inMode (mode' : SourceMapMode) (maps' : SourceMaps) (w : World) :
    ∃ (outcome outcome' : Except LoadError String) (left : CompileCache σ) (w₁ : World)
        (registered registered' : SourceMaps),
      (cache.inMode mode maps).load p w = (outcome, left.inMode mode registered, w₁) ∧
      (cache.inMode mode' maps').load p w = (outcome', left.inMode mode' registered', w₁) ∧
      SameOutcome SameProgram outcome outcome' := by
  have hresolve (mode : SourceMapMode) (maps : SourceMaps) :
      (cache.inMode mode maps).resolve = cache.resolve := rfl
  unfold CompileCache.load
  simp only [hresolve, obtain_inMode]
  cases w.files.read p with
  | error e => exact ⟨_, _, cache, w, maps, maps', rfl, rfl, .error _⟩
  | ok text =>
    dsimp only
    split
    · exact ⟨_, _, cache, w, maps, maps', rfl, rfl, .ok fun _ => Iff.rfl⟩
    · generalize cache.obtain p text w = obtained
      obtain ⟨answer, left, w₁⟩ := obtained
      cases answer with
      | error e => exact ⟨_, _, left, w₁, maps, maps', rfl, rfl, .error _⟩
      | ok c => exact ⟨_, _, left, w₁, _, _, rfl, rfl, .ok (sameProgram_finish mode mode' c)⟩

end CompileCache

/-! ## The programs of files in two modes -/

/-- The state in another mode, with other source maps registered. -/
def Machine.inMode (mode : SourceMapMode) (maps : SourceMaps) (m : Machine ModuleSystem) :
    Machine ModuleSystem :=
  { m with
    host := { m.host with
      options := { m.host.options with sourceMap := mode }
      cache := m.host.cache.inMode mode maps } }

namespace ModuleSystem

variable {m : Machine ModuleSystem} {p : Path}

theorem run_code (p : Path) (m : Machine ModuleSystem) :
    (code p).run m =
      ((m.host.cache.load p m.world).1,
        { m with
          world := (m.host.cache.load p m.world).2.2
          host := { m.host with cache := (m.host.cache.load p m.world).2.1 } }) :=
  Prod.ext (Run.outcome_ofExcept (m.host.cache.load p m.world).1 _) (after_code p m)

/-- Both runs give the same program or both fail, and what they leave behind differs only in the
source maps. -/
structure SameInModes (mode mode' : SourceMapMode)
    (x x' : Except LoadError (List Stmt) × Machine ModuleSystem) : Prop where
  program : ∀ body, x.1 = .ok body ↔ x'.1 = .ok body
  left : ∃ (left : Machine ModuleSystem) (maps maps' : SourceMaps),
    x.2 = left.inMode mode maps ∧ x'.2 = left.inMode mode' maps'

theorem parsed_inMode (mode mode' : SourceMapMode) (maps maps' : SourceMaps) {text text' : String}
    (h : CompileCache.SameProgram text text') :
    SameInModes mode mode' ((parsed p text).run (m.inMode mode maps))
      ((parsed p text').run (m.inMode mode' maps')) := by
  unfold parsed
  cases hbody : parseCore text.toList with
  | ok body =>
    rw [(h body).mp hbody]
    exact ⟨fun _ => Iff.rfl,
      { m with host := { m.host with registry := m.host.registry.setCompiled p body } },
      maps, maps', rfl, rfl⟩
  | error e =>
    cases hbody' : parseCore text'.toList with
    | ok body =>
      rw [(h body).mpr hbody'] at hbody
      cases hbody
    | error e' =>
      refine ⟨fun body => iff_of_false ?_ ?_, m, maps, maps', rfl, rfl⟩
      · rintro ⟨⟩
      · rintro ⟨⟩

theorem program_inMode (mode mode' : SourceMapMode) (maps maps' : SourceMaps) :
    SameInModes mode mode' ((program p).run (m.inMode mode maps))
      ((program p).run (m.inMode mode' maps')) := by
  cases hkept : m.host.registry.compiled? p with
  | some body =>
    rw [run_program_kept (m := m.inMode mode maps) hkept,
      run_program_kept (m := m.inMode mode' maps') hkept]
    exact ⟨fun _ => Iff.rfl, m, maps, maps', rfl, rfl⟩
  | none =>
    obtain ⟨outcome, outcome', left, w, registered, registered', hload, hload', hsame⟩ :=
      m.host.cache.load_inMode mode maps p mode' maps' m.world
    rw [run_program_new (m := m.inMode mode maps) hkept,
      run_program_new (m := m.inMode mode' maps') hkept]
    have hcode (mode : SourceMapMode) (maps registered : SourceMaps)
        {outcome : Except LoadError String}
        (h : (m.host.cache.inMode mode maps).load p m.world =
          (outcome, left.inMode mode registered, w)) :
        (code p).run (m.inMode mode maps) = (outcome,
          ({ m with
              world := w
              host := { m.host with cache := left } } : Machine ModuleSystem).inMode
            mode registered) := by
      have hloaded : (m.inMode mode maps).host.cache.load p (m.inMode mode maps).world =
          (outcome, left.inMode mode registered, w) := h
      rw [run_code, hloaded]
      rfl
    have hrun := hcode mode maps registered hload
    have hrun' := hcode mode' maps' registered' hload'
    cases hsame with
    | ok hprogram =>
      rw [Run.run_bind_ok (congrArg Prod.fst hrun) (congrArg Prod.snd hrun),
        Run.run_bind_ok (congrArg Prod.fst hrun') (congrArg Prod.snd hrun')]
      exact parsed_inMode mode mode' registered registered' hprogram
    | error e =>
      have hfails {mode : SourceMapMode} {maps : SourceMaps} {m₁ : Machine ModuleSystem}
          (h : (code p).run (m.inMode mode maps) = (.error e, m₁)) :
          (code p >>= parsed p).run (m.inMode mode maps) = (.error e, m₁) :=
        Prod.ext (Run.outcome_bind_error (congrArg Prod.fst h))
          ((Run.after_bind_error (congrArg Prod.fst h)).trans (congrArg Prod.snd h))
      rw [hfails hrun, hfails hrun']
      refine ⟨fun body => iff_of_false ?_ ?_, _, registered, registered', rfl, rfl⟩
      · rintro ⟨⟩
      · rintro ⟨⟩

/-- The core parser makes the same tree of a code text with and without the comment that holds a
source map, positions included, or no tree of either. So every file has the same program in every
mode, whatever was loaded before, and what a request for it leaves behind differs only in the source
maps. -/
theorem same_program_in_every_mode :
    (∀ (code : String) (map : SourceMap) (body : List Stmt),
      parseCore (code ++ "\n" ++ map.inlineComment).toList = .ok body ↔
        parseCore code.toList = .ok body) ∧
    ∀ (p : Path) (m : Machine ModuleSystem) (mode mode' : SourceMapMode) (maps maps' : SourceMaps),
      SameInModes mode mode' ((program p).run (m.inMode mode maps))
        ((program p).run (m.inMode mode' maps')) := by
  refine ⟨fun code map body => ?_, fun p m mode mode' maps maps' => ?_⟩
  · rw [String.toList_append, String.toList_append]
    exact parseCore_inlineComment code.toList map body
  · exact program_inMode mode mode' maps maps'

end ModuleSystem

end Hotload
