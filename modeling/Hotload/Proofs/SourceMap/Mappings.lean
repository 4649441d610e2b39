import Mathlib
import Hotload.Compiler
import Hotload.Proofs.SourceMap.Lookup
import Hotload.Proofs.Syntax.Lines
import Hotload.Proofs.Syntax.Spelling

/-!
# The mappings of a printed program

The printer notes where nodes of the source stood while it moves to the right and down only. So the
generated positions of its mappings increase. It goes down to the line of every statement, and it
has not gone below that line before, since the statements of a program do not go up.

* `Layout.Sound`: what every piece keeps.
* `Layout.begun`: the mappings that are made when statements start.
* `statements_keep_their_lines`: a compiled program has its statements on their lines.
-/

namespace Hotload

namespace Syntax

namespace Pos

variable {p : Pos}

theorem before_right (p : Pos) {n : Nat} (h : 0 < n) : p.Before (p.right n) :=
  .inr ⟨rfl, Nat.lt_add_of_pos_right h⟩

theorem not_right_before (p : Pos) (n : Nat) : ¬ (p.right n).Before p := by
  simp [Before, right]

theorem not_lead_before (p source : Pos) : ¬ (p.lead source).Before p := by
  unfold lead
  simp only []
  split
  · simp only [Before, right]
    omega
  · exact not_right_before p _

/-- A statement from the same line or one below starts on its line. -/
theorem lead_line {source : Pos} (h : p.line ≤ source.line) :
    (p.lead source).line = source.line := by
  unfold lead right
  by_cases hlt : p.line < source.line
  · simp only [if_pos hlt]
  · simp only [if_neg hlt]
    omega

end Pos

/-! ## What every piece keeps -/

namespace Layout

variable {l : Layout}

/-- The generated positions increase up to the end of the layout. The last mapping stands first. -/
structure Sound (l : Layout) : Prop where
  ascending : l.mappings.Pairwise fun m m' => m'.generated.Before m.generated
  reached : ∀ m ∈ l.mappings, ¬ l.pos.Before m.generated

theorem sound_empty : Sound empty := ⟨.nil, fun _ h => absurd h List.not_mem_nil⟩

namespace Sound

/-- A note stands first, in the place of one at the same position. -/
theorem mark_mappings (h : l.Sound) (source : Pos) :
    (l.mark source).mappings =
      ⟨l.pos, source⟩ :: l.mappings.filter (fun m => m.generated ≠ l.pos) := by
  obtain ⟨hasc, hreach⟩ := h
  unfold Layout.mark
  split
  · rename_i m ms hms
    rw [hms] at hasc hreach ⊢
    rw [List.pairwise_cons] at hasc
    have hm := hreach m List.mem_cons_self
    -- Only the last mapping can stand at the end of the layout.
    have hrest : ms.filter (fun m => m.generated ≠ l.pos) = ms := by
      refine List.filter_eq_self.mpr fun m' hm' => ?_
      rw [decide_eq_true_eq]
      intro heq
      exact hm (heq ▸ hasc.1 m' hm')
    split
    · rename_i heq
      rw [List.filter_cons_of_neg (by simpa using heq), hrest]
    · rename_i hne
      rw [List.filter_cons_of_pos (by simpa using hne), hrest]
  · rename_i hnil
    rw [hnil]
    rfl

theorem mark (h : l.Sound) (source : Pos) : (l.mark source).Sound := by
  have hpos := (mark_eq l source).1
  refine ⟨?_, fun m hm => ?_⟩
  · rw [h.mark_mappings, List.pairwise_cons]
    refine ⟨fun m hm => ?_, h.ascending.filter _⟩
    obtain ⟨hm, hne⟩ := List.mem_filter.mp hm
    exact Pos.before_of_not_before_of_ne (h.reached m hm) (by simpa using hne)
  · rw [hpos]
    rw [h.mark_mappings, List.mem_cons] at hm
    rcases hm with rfl | hm
    · exact Pos.not_before_self _
    · exact h.reached m (List.mem_filter.mp hm).1

/-- Moving on without a note. -/
theorem moved {l' : Layout} (h : l.Sound) (hm : l'.mappings = l.mappings)
    (hp : ¬ l'.pos.Before l.pos) : l'.Sound where
  ascending := hm ▸ h.ascending
  reached m hmem := Pos.not_before_trans (h.reached m (hm ▸ hmem)) hp

end Sound

/-- A layout before the note of a statement that starts. -/
def led (l : Layout) (source : Pos) : Layout :=
  let l := l.descend source.line
  l.write (List.replicate (if 1 < l.pos.col then 1 else source.col - 1) ' ')

theorem start_eq_mark (l : Layout) (source : Pos) : l.start source = (l.led source).mark source :=
  rfl

theorem led_pos (l : Layout) (source : Pos) : (l.led source).pos = l.pos.lead source := by
  rw [← (mark_eq (l.led source) source).1, ← start_eq_mark, (place_start l source).1]

theorem led_mappings (l : Layout) (source : Pos) : (l.led source).mappings = l.mappings := by
  unfold led descend
  simp only [write]
  split <;> rfl

namespace Sound

theorem led (h : l.Sound) (source : Pos) : (l.led source).Sound := by
  refine h.moved (led_mappings l source) ?_
  rw [led_pos]
  exact Pos.not_lead_before l.pos source

theorem place (h : l.Sound) (piece : Piece) : (l.place piece).Sound := by
  cases piece with
  | text cs => exact h.moved rfl (Pos.not_right_before l.pos _)
  | mark source => exact h.mark source
  | start source => exact (h.led source).mark source

theorem foldl (h : l.Sound) (pieces : List Piece) : (pieces.foldl Layout.place l).Sound := by
  induction pieces generalizing l with
  | nil => exact h
  | cons piece pieces ih => exact ih (h.place piece)

/-- The source map of a layout is in order. -/
theorem sourceMap (h : l.Sound) : l.sourceMap.Ascending := by
  unfold SourceMap.Ascending Layout.sourceMap SourceMap.ofMappings
  rw [List.toList_toArray, List.pairwise_reverse]
  exact h.ascending

end Sound

theorem sound_layOut (pieces : List Piece) : (layOut pieces).Sound := sound_empty.foldl pieces

end Layout

/-- The mappings of every program are in order. -/
theorem ascending_layOut (pieces : List Piece) : (layOut pieces).sourceMap.Ascending :=
  (Layout.sound_layOut pieces).sourceMap

/-! ## Mappings that are made when statements start -/

namespace Layout

/-- The mappings that are made when statements start, while some pieces are placed. -/
def begun : Layout → List Piece → List Mapping
  | _, [] => []
  | l, .start source :: pieces =>
    (l.start source).mappings.take 1 ++ (l.start source).begun pieces
  | l, piece :: pieces => (l.place piece).begun pieces

/-- A later note may take the place of a mapping, but only at the same generated position. -/
theorem Sound.generated_place {l : Layout} (h : l.Sound) (piece : Piece) {m : Mapping}
    (hm : m ∈ l.mappings) : ∃ m' ∈ (l.place piece).mappings, m'.generated = m.generated := by
  have hmark {l : Layout} (h : l.Sound) (source : Pos) (hm : m ∈ l.mappings) :
      ∃ m' ∈ (l.mark source).mappings, m'.generated = m.generated := by
    rw [h.mark_mappings]
    by_cases heq : m.generated = l.pos
    · exact ⟨⟨l.pos, source⟩, List.mem_cons_self, heq.symm⟩
    · exact ⟨m, List.mem_cons_of_mem _ (List.mem_filter.mpr ⟨hm, by simpa using heq⟩), rfl⟩
  cases piece with
  | text cs => exact ⟨m, hm, rfl⟩
  | mark source => exact hmark h source hm
  | start source =>
    exact hmark (h.led source) source (by rwa [led_mappings])

theorem Sound.generated_foldl {l : Layout} (h : l.Sound) (pieces : List Piece) {m : Mapping}
    (hm : m ∈ l.mappings) :
    ∃ m' ∈ (pieces.foldl Layout.place l).mappings, m'.generated = m.generated := by
  induction pieces generalizing l m with
  | nil => exact ⟨m, hm, rfl⟩
  | cons piece pieces ih =>
    obtain ⟨m', hm', heq⟩ := h.generated_place piece hm
    obtain ⟨m'', hm'', heq'⟩ := ih (h.place piece) hm'
    exact ⟨m'', hm'', heq'.trans heq⟩

end Layout

/-- Where the statements start that some pieces begin. -/
def Piece.beginnings : List Piece → List Pos
  | [] => []
  | .start source :: pieces => source :: beginnings pieces
  | .text _ :: pieces | .mark _ :: pieces => beginnings pieces

namespace Piece

@[simp] theorem beginnings_nil : beginnings [] = [] := rfl

@[simp] theorem beginnings_text (cs : List Char) (pieces : List Piece) :
    beginnings (.text cs :: pieces) = beginnings pieces := rfl

@[simp] theorem beginnings_str (s : String) (pieces : List Piece) :
    beginnings (.str s :: pieces) = beginnings pieces := rfl

@[simp] theorem beginnings_mark (source : Pos) (pieces : List Piece) :
    beginnings (.mark source :: pieces) = beginnings pieces := rfl

@[simp] theorem beginnings_start (source : Pos) (pieces : List Piece) :
    beginnings (.start source :: pieces) = source :: beginnings pieces := rfl

@[simp] theorem beginnings_append (ps qs : List Piece) :
    beginnings (ps ++ qs) = beginnings ps ++ beginnings qs := by
  induction ps with
  | nil => rfl
  | cons piece ps ih => cases piece <;> simp [ih]

end Piece

/-- Statements that do not go up start on their lines. -/
theorem Layout.Sound.begun {l : Layout} (h : l.Sound) {pieces : List Piece}
    (hd : Downward (l.pos :: Piece.beginnings pieces)) :
    List.Forall₂ (fun (source : Pos) m => m.source = source ∧ m.generated.line = source.line ∧
        ∃ m' ∈ (pieces.foldl Layout.place l).mappings, m'.generated = m.generated)
      (Piece.beginnings pieces) (l.begun pieces) := by
  induction pieces generalizing l with
  | nil => exact .nil
  | cons piece pieces ih =>
    cases piece with
    | text cs =>
      -- Text stays on its line.
      exact ih (l := l.write cs) (h.place (.text cs))
        (List.pairwise_cons.mpr (List.pairwise_cons.mp hd))
    | mark source =>
      refine ih (l := l.mark source) (h.mark source) ?_
      rwa [(mark_eq l source).1]
    | start source =>
      change Downward (l.pos :: source :: Piece.beginnings pieces) at hd
      have hle : l.pos.line ≤ source.line := List.rel_of_pairwise_cons hd List.mem_cons_self
      have hline : (l.pos.lead source).line = source.line := Pos.lead_line hle
      have hfirst : (l.start source).mappings = ⟨l.pos.lead source, source⟩ ::
          l.mappings.filter (fun m => m.generated ≠ l.pos.lead source) := by
        rw [start_eq_mark, (h.led source).mark_mappings, led_pos, led_mappings]
      have htail : Downward ((l.start source).pos :: Piece.beginnings pieces) := by
        have := (List.pairwise_cons.mp hd).2
        simpa only [Downward, List.pairwise_cons, (place_start l source).1, hline] using this
      have hsound := h.place (.start source)
      have hrest := ih hsound htail
      simp only [Piece.beginnings, Layout.begun, hfirst, List.take_succ_cons,
        List.take_zero, List.cons_append, List.nil_append]
      refine .cons ⟨rfl, hline, ?_⟩ hrest
      exact hsound.generated_foldl pieces (hfirst ▸ List.mem_cons_self)

/-! ## The starts in printed trees -/

theorem beginnings_parenthesize (needed : Bool) (pieces : List Piece) :
    Piece.beginnings (parenthesize needed pieces) = Piece.beginnings pieces := by
  cases needed <;> simp [parenthesize, Piece.str]

mutual

theorem Expr.beginnings_print : ∀ e : Expr, Piece.beginnings e.print = e.beginnings
  | .nil _ | .bool _ _ | .num _ _ | .str _ _ | .ident _ _ => rfl
  | .list _ items => by
    simp [Expr.print, Expr.beginnings, Expr.beginnings_printList items]
  | .object _ fields => by
    simp [Expr.print, Expr.beginnings, Expr.beginnings_printFields fields]
  | .fn _ function => Function.beginnings_print function
  | .call _ callee args => by
    simp [Expr.print, Expr.beginnings, beginnings_parenthesize, callee.beginnings_print,
      Expr.beginnings_printList args]
  | .member _ object _ => by
    simp [Expr.print, Expr.beginnings, beginnings_parenthesize, object.beginnings_print]
  | .index _ object index => by
    simp [Expr.print, Expr.beginnings, beginnings_parenthesize, object.beginnings_print,
      index.beginnings_print]
  | .unary _ _ operand => by
    simp [Expr.print, Expr.beginnings, beginnings_parenthesize, operand.beginnings_print]
  | .binary _ _ lhs rhs => by
    simp [Expr.print, Expr.beginnings, lhs.beginnings_print, rhs.beginnings_print]

theorem Expr.beginnings_printList : ∀ es : List Expr,
    Piece.beginnings (Expr.printList es) = Expr.beginningsList es
  | [] => rfl
  | [e] => by simp [Expr.printList, Expr.beginningsList, e.beginnings_print]
  | e :: e' :: es => by
    simp [Expr.printList, Expr.beginningsList, e.beginnings_print,
      Expr.beginnings_printList (e' :: es)]

theorem Expr.beginnings_printFields {before : String} : ∀ fields : List (String × Expr),
    Piece.beginnings (Expr.printFields before fields) = Expr.beginningsFields fields
  | [] => rfl
  | (_, value) :: fields => by
    simp [Expr.printFields, Expr.beginningsFields, value.beginnings_print,
      Expr.beginnings_printFields fields]

theorem Function.beginnings_print : ∀ f : Function, Piece.beginnings f.print = f.beginnings
  | .mk _ name _ body => by
    cases name <;>
      simp [Function.print, Function.beginnings, Stmt.beginnings_printList body]

theorem Stmt.beginnings_print : ∀ s : Stmt, Piece.beginnings s.print = s.beginnings
  | .declare _ _ value => by
    simp [Stmt.print, Stmt.beginnings, value.beginnings_print]
  | .fn _ function => by
    simp [Stmt.print, Stmt.beginnings, function.beginnings_print]
  | .return_ _ none => rfl
  | .return_ _ (some value) => by
    simp [Stmt.print, Stmt.beginnings, value.beginnings_print]
  | .throw_ _ value => by
    simp [Stmt.print, Stmt.beginnings, value.beginnings_print]
  | .if_ _ cond thenBody none => by
    simp [Stmt.print, Stmt.beginnings, cond.beginnings_print, Stmt.beginnings_printList thenBody]
  | .if_ _ cond thenBody (some elseBody) => by
    simp [Stmt.print, Stmt.beginnings, cond.beginnings_print,
      Stmt.beginnings_printList thenBody, Stmt.beginnings_printList elseBody]
  | .assign _ target value => by
    simp [Stmt.print, Stmt.beginnings, target.beginnings_print, value.beginnings_print]
  | .expr _ value => by
    simp [Stmt.print, Stmt.beginnings, value.beginnings_print]

theorem Stmt.beginnings_printList : ∀ ss : List Stmt,
    Piece.beginnings (Stmt.printList ss) = Stmt.beginningsList ss
  | [] => rfl
  | s :: ss => by
    simp [Stmt.printList, Stmt.beginningsList, s.beginnings_print, Stmt.beginnings_printList ss]

end

theorem beginnings_printImport (pos : Pos) (temp source : String) (clause : ImportClause) :
    Piece.beginnings (printImport pos temp source clause) = [pos] := by
  cases clause with
  | named names =>
    have hnames : Piece.beginnings (names.flatMap (printImported pos temp)) = [] := by
      induction names with
      | nil => rfl
      | cons n names ih =>
        rw [List.flatMap_cons, Piece.beginnings_append, ih]
        rfl
    simp [printImport, printRequire, hnames]
  | _ => rfl

theorem beginnings_printExportForm (pos : Pos) (form : ExportForm) :
    Piece.beginnings (printExportForm pos form) = pos :: form.beginnings := by
  cases form with
  | default_ value =>
    simp [printExportForm, ExportForm.beginnings, value.beginnings_print]
  | fn function isDefault =>
    cases hname : function.name <;>
      simp [printExportForm, hname, printExported, printExport, ExportForm.beginnings, 
        function.beginnings_print]
  | declare name value =>
    simp [printExportForm, printExported, printExport, ExportForm.beginnings,
      value.beginnings_print]
  | names names =>
    cases names with
    | nil => rfl
    | cons n names =>
      have hnames : Piece.beginnings (names.flatMap fun n =>
          printExported pos n.2 n.1) = [] := by
        induction names with
        | nil => rfl
        | cons n names ih =>
          rw [List.flatMap_cons, Piece.beginnings_append, ih]
          rfl
      simp [printExportForm, printExport, ExportForm.beginnings, hnames]

theorem Item.beginnings_print (item : Item) (temps : Nat) :
    Piece.beginnings (item.print temps) = item.beginnings := by
  cases item with
  | stmt s => exact s.beginnings_print
  | import_ pos clause source => exact beginnings_printImport pos _ source clause
  | export_ pos form => exact beginnings_printExportForm pos form

/-- The statements of a printed program start in the order in which they stand in its tree. -/
theorem beginnings_printProgram (items : List Item) :
    Piece.beginnings (printProgram items) = items.flatMap Item.beginnings := by
  have hfrom (temps : Nat) :
      Piece.beginnings (printFrom temps items) = items.flatMap Item.beginnings := by
    induction items generalizing temps with
    | nil => rfl
    | cons item items ih =>
      rw [printFrom, Piece.beginnings_append, item.beginnings_print, ih, List.flatMap_cons]
  exact hfrom 0

end Syntax

open Syntax (Pos Layout parseSurface printProgram)

/-- Every text that has a tree is compiled with a source map in order, and every statement of the
tree starts on the line that it started on in the source. -/
theorem statements_keep_their_lines {source : String} {items : List Syntax.Item}
    (h : parseSurface source.toList = .ok items) (path : Path) :
    ∃ code map, transpile path source true = .ok ⟨code, some map⟩ ∧ map.Ascending ∧
      List.Forall₂ (fun (pos : Pos) m => m.source = pos ∧ m.generated.line = pos.line ∧
          ∃ m' ∈ map.mappings, m'.generated = m.generated)
        (items.flatMap Syntax.Item.beginnings) (Layout.empty.begun (printProgram items)) := by
  refine ⟨_, (Syntax.layOut (printProgram items)).sourceMap, by rw [transpile, h]; rfl,
    Syntax.ascending_layOut _, ?_⟩
  have hd := Syntax.downward_of_parseSurface h
  rw [← Syntax.beginnings_printProgram] at hd ⊢
  refine (Layout.sound_empty.begun hd).imp fun pos m hm => ?_
  simpa [Layout.sourceMap, SourceMap.ofMappings, Syntax.layOut] using hm

/-- The tree of a text that has one. -/
theorem exists_items {source : String}
    (h : (parseSurface source.toList).toOption.isSome = true) :
    ∃ items, parseSurface source.toList = .ok items := by
  cases hsource : parseSurface source.toList with
  | error e =>
    rw [hsource] at h
    cases h
  | ok items => exact ⟨items, rfl⟩

/-- A statement in a branch. -/
theorem nested_statements_keep_their_lines : ∃ items,
    parseSurface "if (a) \x7b\n  f(); \x7d".toList = .ok items ∧
      ∃ code map,
        transpile ⟨"/app/entry.rl"⟩ "if (a) \x7b\n  f(); \x7d" true =
          .ok ⟨code, some map⟩ ∧
        map.Ascending ∧
        List.Forall₂ (fun (pos : Pos) m => m.source = pos ∧ m.generated.line = pos.line ∧
            ∃ m' ∈ map.mappings, m'.generated = m.generated)
          (items.flatMap Syntax.Item.beginnings) (Layout.empty.begun (printProgram items)) := by
  have hsome : (parseSurface "if (a) \x7b\n  f(); \x7d".toList).toOption.isSome = true := by
    decide +kernel
  obtain ⟨items, hsource⟩ := exists_items hsome
  exact ⟨items, hsource, statements_keep_their_lines hsource ⟨"/app/entry.rl"⟩⟩

end Hotload
