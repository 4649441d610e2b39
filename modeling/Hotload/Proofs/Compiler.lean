import Mathlib
import Hotload.Compiler
import Hotload.Proofs.Syntax.Mentions
import Hotload.Proofs.Syntax.ReadProgram

/-!
# What becomes of a compiled module

The code that the compiler prints for a surface program is read by the core grammar. Here it is told
for every program whether the code is read at all, and whether it is read as what the program stands
for.

* `read_eq_lower_iff`: the code is read as the core program that the source stands for, exactly if
  all parts of this program are `faithful`.
* `read_ok_iff`: the code is read at all, exactly if all parts of this program are `sayable` and it
  does not nest too deep.
-/

namespace Hotload

open Syntax

variable {path : Path} {source : String} {wantMap : Bool} {items : List Item}
  {compiled : Compiled} {found : List Stmt}

theorem code_of_transpile (hsource : parseSurface source.toList = .ok items)
    (hcompiled : transpile path source wantMap = .ok compiled) :
    compiled.code.toList = (layOut (printProgram items)).code := by
  rw [transpile, hsource] at hcompiled
  cases hcompiled
  exact String.toList_ofList

/-- The code of a program is read as the tokens of what the program stands for. -/
theorem scans_of_transpile (hsource : parseSurface source.toList = .ok items)
    (hcompiled : transpile path source wantMap = .ok compiled) :
    ∃ q, Scans (fun _ _ => True) .start compiled.code.toList (Stmt.speltList (lower items)) q [] := by
  rw [code_of_transpile hsource hcompiled, ← lowerAt_pos]
  exact scans_code (built_of_parseSurface hsource) (fun _ _ => trivial)
    (Noted.total (fun _ _ => trivial) _ _)

/-- What the code is read as, if all variables of the program are words. -/
theorem read_of_worded (hsource : parseSurface source.toList = .ok items)
    (hcompiled : transpile path source wantMap = .ok compiled)
    (hw : Stmt.EveryList worded (lower items)) :
    match parseCore compiled.code.toList with
    | .ok found => Stmt.EveryList sayable (lower items) ∧
        Stmt.levelsList (lower items) ≤ maxNesting ∧
        Stmt.eraseList found = Stmt.eraseList (Stmt.rereadList (lower items))
    | .error e => ¬ Stmt.EveryList sayable (lower items) ∨
        (¬ Stmt.levelsList (lower items) ≤ maxNesting ∧ e.fault = .tooDeep) := by
  have hbuilt := built_lower (built_of_parseSurface hsource)
  have hraw : Spelt.raw ∉ Stmt.speltList (lower items) := by
    rcases Stmt.tellingList hbuilt with h | h
    · exact h.2.1
    · exact absurd hw h.1
  obtain ⟨q, hscans⟩ := scans_of_transpile hsource hcompiled
  have hread := reads_program hbuilt hw hraw hscans
  cases hparse : parseCore compiled.code.toList with
  | ok found =>
    rw [hparse] at hread
    exact ⟨hread.1, hread.2.1, hread.2.2.erase⟩
  | error e =>
    rw [hparse] at hread
    exact hread

/-- Code that is read is read as the core program that the source stands for, exactly if every
number of that program is finite, every variable is a name, every key is spelt as it is read, and no
function with a name stands as an expression statement. -/
theorem read_eq_lower_iff (hsource : parseSurface source.toList = .ok items)
    (hcompiled : transpile path source wantMap = .ok compiled)
    (hread : parseCore compiled.code.toList = .ok found) :
    Stmt.eraseList found = Stmt.eraseList (lower items) ↔
      Stmt.EveryList faithful (lower items) := by
  have hbuilt := built_lower (built_of_parseSurface hsource)
  by_cases hw : Stmt.EveryList worded (lower items)
  · have hfound := read_of_worded hsource hcompiled hw
    rw [hread] at hfound
    obtain ⟨hsayable, -, hreread⟩ := hfound
    refine ⟨fun herase => ?_, fun hfaithful => ?_⟩
    · exact Stmt.faithful_of_rereadList hw hsayable (hreread.symm.trans herase)
    · rw [hreread, Stmt.rereadList_eq hfaithful]
  · obtain ⟨q, hscans⟩ := scans_of_transpile hsource hcompiled
    refine ⟨fun herase => ?_, fun hfaithful => ?_⟩
    · exact absurd herase (erase_ne_of_not_worded hbuilt hw hscans hread)
    · exact absurd (Stmt.EveryList.mono worded_of_faithful hfaithful) hw

/-- The texts of a program that is compiled and read again. -/
theorem exists_read (path : Path) (source : String)
    (h : ((transpile path source false).toOption.any fun compiled =>
      (parseCore compiled.code.toList).toOption.isSome) = true) :
    ∃ items compiled found, parseSurface source.toList = .ok items ∧
      transpile path source false = .ok compiled ∧
      parseCore compiled.code.toList = .ok found := by
  cases hsource : parseSurface source.toList with
  | error e => simp [transpile, hsource, Except.toOption] at h
  | ok items =>
    cases hcompiled : transpile path source false with
    | error e => simp [hcompiled, Except.toOption] at h
    | ok compiled =>
      cases hread : parseCore compiled.code.toList with
      | error e => simp [hcompiled, hread, Except.toOption] at h
      | ok found => exact ⟨items, compiled, found, rfl, rfl, hread⟩

theorem read_eq_lower_export : ∃ items compiled found,
    parseSurface "export let n = 1;".toList = .ok items ∧
      transpile ⟨"/app/entry.rl"⟩ "export let n = 1;" false = .ok compiled ∧
      parseCore compiled.code.toList = .ok found ∧
      (Stmt.eraseList found = Stmt.eraseList (lower items) ↔
        Stmt.EveryList faithful (lower items)) := by
  obtain ⟨items, compiled, found, hsource, hcompiled, hread⟩ :=
    exists_read ⟨"/app/entry.rl"⟩ "export let n = 1;" (by decide +kernel)
  exact ⟨items, compiled, found, hsource, hcompiled, hread,
    read_eq_lower_iff hsource hcompiled hread⟩

/-- The first key of the object literal that the first assignment assigns. -/
def assignedKey : List Stmt → Option String
  | .assign _ _ (.object _ ((key, _) :: _)) :: _ => some key
  | _ => none

/-- A quoted key that is a second spelling of a keyword is read as the first one. -/
theorem quoted_keyword_is_renamed : ∃ items compiled found,
    parseSurface "export default \x7b \"const\": 1 \x7d;".toList = .ok items ∧
      transpile ⟨"/app/entry.rl"⟩ "export default \x7b \"const\": 1 \x7d;" false = .ok compiled ∧
      parseCore compiled.code.toList = .ok found ∧
      Stmt.eraseList found ≠ Stmt.eraseList (lower items) := by
  obtain ⟨items, compiled, found, hsource, hcompiled, hread⟩ :=
    exists_read ⟨"/app/entry.rl"⟩ "export default \x7b \"const\": 1 \x7d;"
      (by decide +kernel)
  refine ⟨items, compiled, found, hsource, hcompiled, hread, fun herase => ?_⟩
  have hkey : (parseSurface "export default \x7b \"const\": 1 \x7d;".toList).toOption.bind
      (fun items => assignedKey (Stmt.eraseList (lower items))) = some "const" := by
    decide +kernel
  have hfound : (transpile ⟨"/app/entry.rl"⟩ "export default \x7b \"const\": 1 \x7d;" false).toOption.bind
      (fun compiled => (parseCore compiled.code.toList).toOption.bind fun found =>
        assignedKey (Stmt.eraseList found)) = some "let" := by
    decide +kernel
  simp only [hsource, hcompiled, hread, Except.toOption, Option.bind_some] at hkey hfound
  rw [herase, hkey] at hfound
  exact absurd hfound (by decide)

/-- The code of a program whose variables are words is read, exactly if no keyword stands for one
of its variables or is declared, and if it does not nest too deep as printed. -/
theorem read_ok_iff (hsource : parseSurface source.toList = .ok items)
    (hcompiled : transpile path source wantMap = .ok compiled)
    (hw : Stmt.EveryList worded (lower items)) :
    (∃ found, parseCore compiled.code.toList = .ok found) ↔
      Stmt.EveryList sayable (lower items) ∧ Stmt.levelsList (lower items) ≤ maxNesting := by
  have hfound := read_of_worded hsource hcompiled hw
  cases hread : parseCore compiled.code.toList with
  | ok found =>
    rw [hread] at hfound
    exact ⟨fun _ => ⟨hfound.1, hfound.2.1⟩, fun _ => ⟨found, rfl⟩⟩
  | error e =>
    rw [hread] at hfound
    refine ⟨fun ⟨_, h⟩ => (by cases h), fun h => ?_⟩
    rcases hfound with hn | ⟨hn, -⟩
    · exact absurd h.1 hn
    · exact absurd h.2 hn

/-- The piece of text is a token. -/
def Syntax.Spelt.isToken : Spelt → Bool
  | .token .. => true
  | .raw => false

/-- All variables are words if all that is printed are tokens. -/
theorem worded_of_all {ss : List Stmt} (hbuilt : Stmt.BuiltList ss)
    (h : (Stmt.speltList ss).all Spelt.isToken = true) : Stmt.EveryList worded ss := by
  rcases Stmt.tellingList hbuilt with hw | ⟨-, K₁, K₂, M₁, M₂, key, -, hK, -⟩
  · exact hw.1
  · rw [hK] at h
    simp [Spelt.isToken] at h

theorem read_ok_export : ∃ items compiled,
    parseSurface "export let n = 1;".toList = .ok items ∧
      transpile ⟨"/app/entry.rl"⟩ "export let n = 1;" false = .ok compiled ∧
      Stmt.EveryList worded (lower items) ∧
      ((∃ found, parseCore compiled.code.toList = .ok found) ↔
        Stmt.EveryList sayable (lower items) ∧ Stmt.levelsList (lower items) ≤ maxNesting) := by
  obtain ⟨items, compiled, -, hsource, hcompiled, -⟩ :=
    exists_read ⟨"/app/entry.rl"⟩ "export let n = 1;" (by decide +kernel)
  have hwords : (parseSurface "export let n = 1;".toList).toOption.any
      (fun items => (Stmt.speltList (lower items)).all Spelt.isToken) = true := by
    decide +kernel
  rw [hsource] at hwords
  have hw := worded_of_all (built_lower (built_of_parseSurface hsource)) hwords
  exact ⟨items, compiled, hsource, hcompiled, hw, read_ok_iff hsource hcompiled hw⟩

/-- The texts of a program that is compiled and not read again. -/
theorem exists_refused {path : Path} {source : String}
    (h : ((transpile path source false).toOption.any fun compiled =>
      (parseCore compiled.code.toList).toOption.isNone) = true) :
    ∃ items compiled, parseSurface source.toList = .ok items ∧
      transpile path source false = .ok compiled ∧
      ¬ ∃ found, parseCore compiled.code.toList = .ok found := by
  cases hsource : parseSurface source.toList with
  | error e => simp [transpile, hsource, Except.toOption] at h
  | ok items =>
    cases hcompiled : transpile path source false with
    | error e => simp [hcompiled, Except.toOption] at h
    | ok compiled =>
      refine ⟨items, compiled, rfl, rfl, fun ⟨found, hread⟩ => ?_⟩
      simp [hcompiled, hread, Except.toOption] at h

/-- A keyword alone may be a field, but not a variable. -/
theorem keyword_field_is_refused : ∃ items compiled,
    parseSurface "let o = \x7b default \x7d;".toList = .ok items ∧
      transpile ⟨"/app/entry.rl"⟩ "let o = \x7b default \x7d;" false = .ok compiled ∧
      ¬ ∃ found, parseCore compiled.code.toList = .ok found :=
  exists_refused (by decide +kernel)

end Hotload
