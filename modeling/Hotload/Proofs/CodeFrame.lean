import Mathlib
import Hotload.Compiler
import Hotload.Proofs.Syntax.Blame
import Hotload.Proofs.Text.Fields

/-!
# Code frames

A position counts the newlines in front of it, and a code frame splits the text into lines, where a
carriage return may belong to the ending. Both mean the same line, and a text that is refused is
refused at a column of its line or right behind it, so that the frame points at it.

* `Marks`: what a frame shows.
* `marks_codeFrame`: the frame of a position marks the line with its number.
* `faults_point_into_source`: the frame of a text that is refused.
-/

namespace Hotload

open Syntax (Pos Dialect SyntaxError Points points_of_refuses)
open Text (lines lineAt)

variable {source : List (List Char)} {line : List Char} {width n : Nat} {pos : Pos}

/-- A frame shows a text behind the number of the position's line, and marks it; the next line is a
caret under the column, and no other line is marked. -/
def Marks (frame : List Char) (pos : Pos) (text : List Char) : Prop :=
  ∃ above below number,
    Text.fields '\n' frame =
      above ++ ('>' :: ' ' :: number ++ " | ".toList ++ text) ::
        (' ' :: ' ' :: List.replicate number.length ' ' ++ " | ".toList ++
          List.replicate (pos.col - 1) ' ' ++ ['^']) :: below ∧
    (∃ blanks, number = List.replicate blanks ' ' ++ Nat.toDigits 10 pos.line) ∧
    ∀ shown ∈ above ++ below, shown.head? = some ' '

/-! ## Numbers -/

theorem length_toDigits_mono {m n : Nat} (h : m ≤ n) :
    (Nat.toDigits 10 m).length ≤ (Nat.toDigits 10 n).length := by
  induction n using Nat.strongRecOn generalizing m with
  | ind n ih =>
    by_cases hm : m < 10
    · rw [Nat.toDigits_of_lt_base hm]
      exact List.length_pos_iff.mpr Nat.toDigits_ne_nil
    · have hn : 10 ≤ n := by omega
      rw [Nat.toDigits_of_base_le (by decide) (Nat.le_of_not_lt hm),
        Nat.toDigits_of_base_le (by decide) hn, List.length_append, List.length_append]
      have := ih (n / 10) (by omega) (Nat.div_le_div_right h)
      simpa using this

theorem length_padNumber (h : (Nat.toDigits 10 n).length ≤ width) :
    (padNumber width n).length = width := by
  rw [padNumber, List.length_append, List.length_replicate]
  omega

theorem newline_not_mem_padNumber : '\n' ∉ padNumber width n := by
  rw [padNumber, List.mem_append, not_or]
  refine ⟨fun h => ?_, fun h => ?_⟩
  · cases List.eq_of_mem_replicate h
  · cases Nat.isDigit_of_mem_toDigits (by decide) (by decide) h

/-! ## The lines of a frame -/

theorem frameLines_self (h : 1 ≤ pos.line) :
    frameLines source width pos pos.line =
      ['>' :: ' ' :: padNumber width pos.line ++ " | ".toList ++ (source[pos.line - 1]?).getD [],
        ' ' :: ' ' :: List.replicate width ' ' ++ " | ".toList ++
          List.replicate (pos.col - 1) ' ' ++ ['^']] := by
  simp [frameLines, Nat.max_eq_left h]

theorem frameLines_of_ne (hpos : 1 ≤ pos.line) (h : n ≠ pos.line) :
    frameLines source width pos n =
      [' ' :: ' ' :: padNumber width n ++ " | ".toList ++ (source[n - 1]?).getD []] := by
  simp [frameLines, Nat.max_eq_left hpos, h]

theorem newline_not_mem_frameLines (hsource : ∀ text ∈ source, '\n' ∉ text)
    (h : line ∈ frameLines source width pos n) : '\n' ∉ line := by
  have htext : '\n' ∉ (source[n - 1]?).getD [] := by
    cases hget : source[n - 1]? with
    | none => exact List.not_mem_nil
    | some text => exact hsource text (List.mem_of_getElem? hget)
  have hnumber : '\n' ∉ padNumber width n := newline_not_mem_padNumber
  have hshown (mark : Char) (hmark : '\n' ≠ mark) :
      '\n' ∉ mark :: ' ' :: padNumber width n ++ " | ".toList ++ (source[n - 1]?).getD [] := by
    simp only [List.mem_append, List.mem_cons, not_or]
    exact ⟨⟨⟨hmark, by decide, hnumber⟩, by decide⟩, htext⟩
  simp only [frameLines] at h
  split at h
  · rcases List.mem_pair.mp h with rfl | rfl
    · exact hshown _ (by decide)
    · simp
  · rw [List.mem_singleton.mp h]
    exact hshown _ (by decide)

/-! ## The frame -/

/-- The lines of a frame: those in front of the position's line, the two for this line, and those
behind it. -/
theorem fields_codeFrame (source : List Char) (hpos : 1 ≤ pos.line) :
    ∃ (above below : List Nat) (width : Nat), (Nat.toDigits 10 pos.line).length ≤ width ∧
      (∀ n ∈ above ++ below, n ≠ pos.line) ∧
      Text.fields '\n' (codeFrame source pos) =
        above.flatMap (frameLines (lines source) width pos) ++
          frameLines (lines source) width pos pos.line ++
          below.flatMap (frameLines (lines source) width pos) := by
  let last := max (min (pos.line + 1) (lines source).length) pos.line
  let first := max (pos.line - 2) 1
  let width := (Nat.toDigits 10 last).length
  have hfirst : first ≤ pos.line := by omega
  have hlast : pos.line ≤ last := Nat.le_max_right _ _
  have hshown : List.range' first (last + 1 - first) =
      List.range' first (pos.line - first) ++
        pos.line :: List.range' (pos.line + 1) (last - pos.line) := by
    rw [← List.range'_succ, show last + 1 - first = (pos.line - first) + (last - pos.line + 1) by omega,
      ← List.range'_append_1, Nat.add_sub_cancel' hfirst]
  refine ⟨List.range' first (pos.line - first), List.range' (pos.line + 1) (last - pos.line), width,
    length_toDigits_mono hlast, fun n hn => ?_, ?_⟩
  · rcases List.mem_append.mp hn with hn | hn
    · have := List.mem_range'_1.mp hn
      omega
    · have := List.mem_range'_1.mp hn
      omega
  · have hframe : codeFrame source pos = Text.joinFields '\n'
        ((List.range' first (last + 1 - first)).flatMap (frameLines (lines source) width pos)) := by
      simp only [codeFrame, Nat.max_eq_left hpos]
      rfl
    rw [hframe, Text.fields_joinFields, hshown]
    · simp
    · rw [hshown]
      simp [frameLines_self hpos]
    · intro line hline
      obtain ⟨n, -, hline⟩ := List.mem_flatMap.mp hline
      exact newline_not_mem_frameLines (fun _ => Text.newline_not_mem_lines) hline

/-- The frame of a position marks the line with its number. -/
theorem marks_codeFrame (source : List Char) (hpos : 1 ≤ pos.line) :
    Marks (codeFrame source pos) pos (((lines source)[pos.line - 1]?).getD []) := by
  obtain ⟨above, below, width, hwidth, hothers, hfields⟩ := fields_codeFrame source hpos
  refine ⟨above.flatMap (frameLines (lines source) width pos),
    below.flatMap (frameLines (lines source) width pos), padNumber width pos.line, ?_, ⟨_, rfl⟩, ?_⟩
  · rw [hfields, frameLines_self hpos, length_padNumber hwidth]
    simp
  · intro shown hshown
    rw [← List.flatMap_append] at hshown
    obtain ⟨n, hn, hshown⟩ := List.mem_flatMap.mp hshown
    rw [frameLines_of_ne hpos (hothers n hn), List.mem_singleton] at hshown
    rw [hshown]
    rfl

example : String.ofList (codeFrame "f(\r\n".toList ⟨2, 1⟩) = "  1 | f(\n> 2 | \n    | ^" := by
  decide

/-! ## Refused texts -/

/-- A refused text is cut in two where the fault is, and its position counts what is in front. The
column is on the line or right behind it, and the frame of the error marks this line in this column. -/
theorem faults_point_into_source {dialect : Dialect} {source : String} {e : SyntaxError}
    (h : dialect.Refuses source.toList e) (path : Path) :
    ∃ front rest frame, source.toList = front ++ rest ∧
      e.pos.line = front.count '\n' + 1 ∧
      e.pos.col = (front.rtakeWhile (· ≠ '\n')).length + 1 ∧
      e.pos.line ≤ source.toList.count '\n' + 1 ∧
      e.pos.col ≤ (lineAt front rest).length + 1 ∧
      (syntaxFailure path source e).frame = some frame ∧
      Marks frame.toList e.pos (lineAt front rest) := by
  obtain ⟨front, rest, hsource, hpos, hreturn⟩ := points_of_refuses h
  have hline : e.pos.line = front.count '\n' + 1 := congrArg Pos.line hpos
  have hcol : e.pos.col = (front.rtakeWhile (· ≠ '\n')).length + 1 := congrArg Pos.col hpos
  refine ⟨front, rest, String.ofList (codeFrame source.toList e.pos), hsource, hline, hcol, ?_, ?_,
    rfl, ?_⟩
  · rw [hline, hsource, List.count_append]
    omega
  · rw [hcol]
    exact Nat.succ_le_succ (Text.length_rtakeWhile_le_lineAt hreturn)
  · have hmarks := marks_codeFrame source.toList (show 1 ≤ e.pos.line by omega)
    rw [hline, Nat.add_sub_cancel, hsource, Text.lines_at] at hmarks
    rwa [String.toList_ofList, hsource]

/-- The string ends behind a backslash, and the carriage return is refused: it is no longer on the
line. -/
theorem faults_point_into_source_escape :
    let source := "let a = b;\r\nlet c = '\\\r\n"
    let e : SyntaxError := ⟨.invalidEscape, ⟨2, 11⟩⟩
    Dialect.surface.Refuses source.toList e ∧
      ∃ front rest frame, source.toList = front ++ rest ∧
        2 = front.count '\n' + 1 ∧
        11 = (front.rtakeWhile (· ≠ '\n')).length + 1 ∧
        2 ≤ source.toList.count '\n' + 1 ∧
        11 ≤ (lineAt front rest).length + 1 ∧
        (syntaxFailure ⟨"a.mjs"⟩ source e).frame = some frame ∧
        Marks frame.toList ⟨2, 11⟩ (lineAt front rest) := by
  intro source e
  have h : Dialect.surface.Refuses source.toList e := by cbv
  exact ⟨h, faults_point_into_source h ⟨"a.mjs"⟩⟩

end Hotload
