import Mathlib
import Hotload.Syntax.Printer
import Hotload.Proofs.Syntax.Grammar

/-!
# The tokens of a printed program

What the lexer makes of a printed tree, told from the tree alone. A variable that is no word is
printed as it is: nothing is known about the tokens from there on.

* `Spelt`: a token that a tree is printed as, and the position of its node if errors need it.
* `Expr.spelt`, `Stmt.spelt`: the tokens of a tree.
* `Scans`: some characters are read as these tokens, which stand where a relation allows it.
* `Noted`: the notes of printed pieces stand where the relation allows it.
* `Stmt.scansList`: a printed tree is read as its tokens.
* `lowerAt`: what a program stands for, with the nodes set apart that do not come from it.
-/

namespace Hotload.Syntax

open Hotload.Text (isBlank)

/-! ## Tokens of a tree -/

/-- A token of a printed tree, with the position of the node that begins with it, or a piece of
text that may be anything. -/
inductive Spelt where
  | token (t : Token) (source : Option Pos)
  | raw

namespace Spelt

/-- A mark that begins no node. -/
def mark (m : Mark) : Spelt := .token (.mark m) none

/-- A keyword that begins no node. -/
def keyword (k : Keyword) : Spelt := .token (.keyword k) none

/-- A word that begins no node. -/
def word (w : String) : Spelt := .token (Token.ofWord w) none

/-- The key of a field: a word if it looks like one. -/
def key (name : String) : Spelt :=
  if isIdentifier name.toList then word name else .token (.str name) none

/-- Tokens in parentheses if need be. -/
def parenthesize (needed : Bool) (K : List Spelt) : List Spelt :=
  if needed then mark .lparen :: K ++ [mark .rparen] else K

/-- Names with commas between them. -/
def names : List String → List Spelt
  | [] => []
  | [n] => [word n]
  | n :: ns => word n :: mark .comma :: names ns

end Spelt

/-- The mark of an operator in front of an operand. -/
def UnaryOp.mark : UnaryOp → Mark
  | not => .bang
  | neg => .minus

/-- The mark of an operator between operands. -/
def BinaryOp.mark : BinaryOp → Mark
  | add => .plus
  | sub => .minus
  | mul => .star
  | div => .slash
  | rem => .percent
  | eq => .eq
  | notEq => .notEq
  | lt => .lt
  | ltEq => .ltEq
  | gt => .gt
  | gtEq => .gtEq
  | and => .andAnd
  | or => .orOr

open Spelt (mark keyword word names)

mutual

/-- The tokens of a printed expression. -/
def Expr.spelt : Expr → List Spelt
  | .nil pos => [.token (.keyword .nil) (some pos)]
  | .bool pos value => [.token (.keyword (if value then .true_ else .false_)) (some pos)]
  | .num pos value => [.token (numberToken value) (some pos)]
  | .str pos value => [.token (.str value) (some pos)]
  | .ident pos name =>
    [if isIdentifier name.toList then .token (Token.ofWord name) (some pos) else .raw]
  | .list pos items =>
    .token (.mark .lbracket) (some pos) :: Expr.speltList items ++ [mark .rbracket]
  | .object pos fields =>
    .token (.mark .lbrace) (some pos) :: Expr.speltFields [] fields ++ [mark .rbrace]
  | .fn _ function => function.spelt
  | .call pos callee args =>
    Spelt.parenthesize callee.needsParens callee.spelt ++
      .token (.mark .lparen) (some pos) :: Expr.speltList args ++ [mark .rparen]
  | .member pos object name =>
    Spelt.parenthesize object.needsParens object.spelt ++
      [.token (.mark .dot) (some pos), word name]
  | .index pos object index =>
    Spelt.parenthesize object.needsParens object.spelt ++
      .token (.mark .lbracket) (some pos) :: index.spelt ++ [mark .rbracket]
  | .unary pos op operand =>
    .token (.mark op.mark) (some pos) :: Spelt.parenthesize operand.needsParens operand.spelt
  | .binary _ op lhs rhs =>
    mark .lparen :: lhs.spelt ++ mark op.mark :: rhs.spelt ++ [mark .rparen]

/-- The tokens of printed expressions with commas between them. -/
def Expr.speltList : List Expr → List Spelt
  | [] => []
  | [e] => e.spelt
  | e :: es => e.spelt ++ mark .comma :: Expr.speltList es

/-- The tokens of printed fields, with some tokens in front of the first one. -/
def Expr.speltFields (before : List Spelt) : List (String × Expr) → List Spelt
  | [] => []
  | (name, value) :: fields =>
    before ++ Spelt.key name :: mark .colon :: value.spelt ++
      Expr.speltFields [mark .comma] fields

/-- The tokens of a printed function. -/
def Function.spelt : Function → List Spelt
  | .mk pos name params body =>
    .token (.keyword .fn) (some pos) :: name.toList.map word ++
      mark .lparen :: names params ++ mark .rparen :: mark .lbrace :: Stmt.speltList body ++
      [mark .rbrace]

/-- The tokens of a printed statement. -/
def Stmt.spelt : Stmt → List Spelt
  | .declare pos name value =>
    .token (.keyword .let_) (some pos) :: word name :: mark .assign :: value.spelt ++ [mark .semi]
  | .fn _ function => function.spelt
  | .return_ pos (some value) =>
    .token (.keyword .return_) (some pos) :: value.spelt ++ [mark .semi]
  | .return_ pos none => [.token (.keyword .return_) (some pos), mark .semi]
  | .throw_ pos value => .token (.keyword .throw_) (some pos) :: value.spelt ++ [mark .semi]
  | .if_ pos cond thenBody (some elseBody) =>
    .token (.keyword .if_) (some pos) :: mark .lparen :: cond.spelt ++ mark .rparen ::
      mark .lbrace :: Stmt.speltList thenBody ++ mark .rbrace :: keyword .else_ ::
      mark .lbrace :: Stmt.speltList elseBody ++ [mark .rbrace]
  | .if_ pos cond thenBody none =>
    .token (.keyword .if_) (some pos) :: mark .lparen :: cond.spelt ++ mark .rparen ::
      mark .lbrace :: Stmt.speltList thenBody ++ [mark .rbrace]
  | .assign _ target value => target.spelt ++ mark .assign :: value.spelt ++ [mark .semi]
  | .expr _ value => value.spelt ++ [mark .semi]

/-- The tokens of printed statements. -/
def Stmt.speltList : List Stmt → List Spelt
  | [] => []
  | s :: ss => s.spelt ++ Stmt.speltList ss

end

/-! ## Reading characters as tokens -/

section

variable (ρ : Pos → Pos → Prop)

/-- The place of a token is related to the position of the node that it begins. -/
def Sourced (p : Pos) (source : Option Pos) : Prop := ∀ s, source = some s → ρ p s

/-- The first characters, which begin at `p`, are read as the tokens, and the last ones, which begin
at `q`, are left. The tokens stand where `ρ` relates them to their nodes. From a piece of text that
may be anything on, this says nothing. -/
inductive Scans : Pos → List Char → List Spelt → Pos → List Char → Prop where
  | done {p : Pos} {cs : List Char} : Scans p cs [] p cs
  | blank {c : Char} {p q : Pos} {cs ds : List Char} {K : List Spelt} :
      isBlank c = true → Scans (p.next c) cs K q ds → Scans p (c :: cs) K q ds
  | token {t : Token} {n : Nat} {source : Option Pos} {p q : Pos} {cs ds es : List Char}
      {K : List Spelt} :
      Sourced ρ p source → Leads t n cs ds → Scans (p.right n) ds K q es →
        Scans p cs (.token t source :: K) q es
  | raw {p q : Pos} {cs ds : List Char} {K : List Spelt} : Scans p cs (.raw :: K) q ds

end

variable {ρ : Pos → Pos → Prop} {p q r : Pos}

theorem Sourced.none : Sourced ρ p none := by rintro s ⟨⟩

theorem Sourced.some {s : Pos} (h : ρ p s) : Sourced ρ p (some s) := by
  rintro s ⟨⟩
  exact h

namespace Scans

variable {cs ds es rest : List Char} {K L : List Spelt}

theorem append (h : Scans ρ p cs K q ds) (h' : Scans ρ q ds L r es) :
    Scans ρ p cs (K ++ L) r es := by
  induction h with
  | done => exact h'
  | blank hb _ ih => exact .blank hb (ih h')
  | token hs ht _ ih => exact .token hs ht (ih h')
  | raw => exact .raw

theorem blanks {bs : List Char} (hb : ∀ b ∈ bs, isBlank b = true)
    (h : Scans ρ (p.after bs) cs K q ds) : Scans ρ p (bs ++ cs) K q ds := by
  induction bs generalizing p with
  | nil => exact h
  | cons b bs ih =>
    exact .blank (hb b List.mem_cons_self) (ih (fun c hc => hb c (List.mem_cons_of_mem _ hc)) h)

end Scans

/-! ## What stands behind a token -/

theorem isWordPart_of_isNumberPart {c : Char} (h : isNumberPart c = true) :
    isWordPart c = true := by
  have hdigits : ∀ k < 10, Text.inRanges (48 + k) Text.numericRanges = true := by
    decide
  simp only [isNumberPart, Bool.or_eq_true, decide_eq_true_eq] at h
  simp only [isWordPart, Text.isAlphanumeric, Text.isNumeric, Bool.or_eq_true, decide_eq_true_eq]
  rcases h with hd | hu
  · have hc : 48 ≤ c.toNat ∧ c.toNat ≤ 57 := Char.isDigit_iff_toNat.mp hd
    have ha := hdigits (c.toNat - 48) (by omega)
    rw [show 48 + (c.toNat - 48) = c.toNat by omega] at ha
    exact .inl (.inl (.inr ha))
  · exact .inl (.inr hu)

/-- The characters behind words in printed code are none of a word. -/
theorem isWordPart_mark (c : Char)
    (h : c ∈ [' ', '(', ')', '[', ']', '\x7d', ',', ';', ':', '.', '=']) : isWordPart c = false := by
  have hall : [' ', '(', ')', '[', ']', '\x7d', ',', ';', ':', '.', '='].all
      (fun c => !isWordPart c) = true := by
    decide
  simpa using List.all_eq_true.1 hall c h

/-- The words that printed code contains in any case. -/
theorem isIdentifier_written (w : String)
    (h : w ∈ ["require", "exports", "default", "__import", "__importDefault", "inf"]) :
    isIdentifier w.toList = true := by
  have hall : ["require", "exports", "default", "__import", "__importDefault", "inf"].all
      (fun w => isIdentifier w.toList) = true := by
    decide
  exact List.all_eq_true.1 hall w h

theorem endsWord_cons {c : Char} (h : isWordPart c = false) (cs : List Char) :
    EndsWord (c :: cs) := by
  rintro d ⟨⟩
  exact h

/-- The text after an expression does not continue its last token. -/
def Apart (rest : List Char) : Prop := EndsWord rest ∧ EndsNumber rest

theorem apart_cons {c : Char} (h : isWordPart c = false) (hd : c ≠ '.') (cs : List Char) :
    Apart (c :: cs) := by
  refine ⟨endsWord_cons h cs, ?_, ?_⟩
  · rintro d ⟨⟩
    rw [Bool.eq_false_iff]
    intro hp
    rw [isWordPart_of_isNumberPart hp] at h
    cases h
  · rintro d ds ⟨⟩
    exact absurd rfl hd

/-- A dot in front of a word does not continue a number. -/
theorem apart_dot {w : List Char} (h : isIdentifier w = true) (rest : List Char) :
    Apart ('.' :: w ++ rest) := by
  cases w with
  | nil => simp [isIdentifier] at h
  | cons d w =>
    have hd : isWordStart d = true := by
      rw [isIdentifier, Bool.and_eq_true] at h
      exact h.1
    refine ⟨endsWord_cons (isWordPart_mark _ (by decide)) _, ?_, ?_⟩
    · rintro c ⟨⟩
      rfl
    · rintro c ds ⟨⟩
      rw [Bool.eq_false_iff]
      intro hdigit
      rw [isWordStart_of_isDigit hdigit] at hd
      cases hd

theorem apart_space (cs : List Char) : Apart (' ' :: cs) :=
  apart_cons (isWordPart_mark _ (by decide)) (by decide) cs

theorem apart_rparen (cs : List Char) : Apart (')' :: cs) :=
  apart_cons (isWordPart_mark _ (by decide)) (by decide) cs

theorem apart_lparen (cs : List Char) : Apart ('(' :: cs) :=
  apart_cons (isWordPart_mark _ (by decide)) (by decide) cs

theorem apart_lbracket (cs : List Char) : Apart ('[' :: cs) :=
  apart_cons (isWordPart_mark _ (by decide)) (by decide) cs

theorem apart_rbracket (cs : List Char) : Apart (']' :: cs) :=
  apart_cons (isWordPart_mark _ (by decide)) (by decide) cs

theorem apart_comma (cs : List Char) : Apart (',' :: cs) :=
  apart_cons (isWordPart_mark _ (by decide)) (by decide) cs

theorem apart_semi (cs : List Char) : Apart (';' :: cs) :=
  apart_cons (isWordPart_mark _ (by decide)) (by decide) cs

/-! ## The text of some pieces -/

/-- The blanks that put a statement from `source` on its line, when it is laid out at `p`. -/
def lead (p source : Pos) : List Char :=
  List.replicate (source.line - p.line) '\n' ++
    List.replicate
      (if 1 < (if p.line < source.line then 1 else p.col) then 1 else source.col - 1) ' '

/-- The place of a statement from `source`, when it is laid out at `p`. -/
def Pos.lead (p source : Pos) : Pos :=
  let q : Pos := if p.line < source.line then ⟨source.line, 1⟩ else p
  q.right (if 1 < q.col then 1 else source.col - 1)

/-- Where the text of some pieces ends, when they are laid out at `p`. -/
def placed : Pos → List Piece → Pos
  | p, [] => p
  | p, .text cs :: ps => placed (p.right cs.length) ps
  | p, .mark _ :: ps => placed p ps
  | p, .start source :: ps => placed (p.lead source) ps

/-- The text of some pieces, when they are laid out at `p`. -/
def laid : Pos → List Piece → List Char
  | _, [] => []
  | p, .text cs :: ps => cs ++ laid (p.right cs.length) ps
  | p, .mark _ :: ps => laid p ps
  | p, .start source :: ps => Syntax.lead p source ++ laid (p.lead source) ps

theorem laid_append (p : Pos) (ps qs : List Piece) :
    laid p (ps ++ qs) = laid p ps ++ laid (placed p ps) qs := by
  induction ps generalizing p with
  | nil => rfl
  | cons piece ps ih =>
    cases piece <;> simp only [List.cons_append, laid, placed, ih, List.append_assoc]

theorem placed_append (p : Pos) (ps qs : List Piece) :
    placed p (ps ++ qs) = placed (placed p ps) qs := by
  induction ps generalizing p with
  | nil => rfl
  | cons piece ps ih => cases piece <;> simp only [List.cons_append, placed, ih]

theorem laid_str (p : Pos) (s : String) (ps : List Piece) :
    laid p (Piece.str s :: ps) = s.toList ++ laid (p.right s.toList.length) ps := rfl

theorem placed_str (p : Pos) (s : String) (ps : List Piece) :
    placed p (Piece.str s :: ps) = placed (p.right s.toList.length) ps := rfl

theorem mark_eq (l : Layout) (source : Pos) :
    (l.mark source).pos = l.pos ∧ (l.mark source).written = l.written := by
  unfold Layout.mark
  split
  · split <;> exact ⟨rfl, rfl⟩
  · exact ⟨rfl, rfl⟩

theorem place_start (l : Layout) (source : Pos) :
    (l.start source).pos = l.pos.lead source ∧
      (l.start source).written = (Syntax.lead l.pos source).reverse ++ l.written := by
  unfold Layout.start
  simp only []
  rw [(mark_eq _ _).1, (mark_eq _ _).2]
  unfold Layout.descend Syntax.lead Pos.lead
  by_cases h : l.pos.line < source.line
  · simp [h, Layout.write]
  · have : source.line - l.pos.line = 0 := by omega
    simp [h, this, Layout.write]

theorem foldl_place (l : Layout) (ps : List Piece) :
    (ps.foldl Layout.place l).written.reverse = l.written.reverse ++ laid l.pos ps := by
  induction ps generalizing l with
  | nil => simp [laid]
  | cons piece ps ih =>
    rw [List.foldl_cons, ih]
    cases piece with
    | text cs => simp [Layout.place, Layout.write, laid]
    | mark source =>
      obtain ⟨hp, hw⟩ := mark_eq l source
      simp only [Layout.place, hp, hw, laid]
    | start source =>
      obtain ⟨hp, hw⟩ := place_start l source
      simp only [Layout.place, hp, hw, laid, List.reverse_append, List.reverse_reverse,
        List.append_assoc]

/-- The code of a program is the text of its pieces. -/
theorem code_layOut (ps : List Piece) : (layOut ps).code = laid .start ps := by
  have h := foldl_place .empty ps
  simpa [Layout.code, layOut, Layout.empty] using h

theorem isBlank_of_mem_lead {p source : Pos} {c : Char} (h : c ∈ Syntax.lead p source) :
    isBlank c = true := by
  rcases List.mem_append.1 h with h | h
  · rw [List.eq_of_mem_replicate h]
    rfl
  · rw [List.eq_of_mem_replicate h]
    rfl

theorem Pos.right_append (p : Pos) (cs ds : List Char) :
    p.right (cs ++ ds).length = (p.right cs.length).right ds.length := by
  simp only [Pos.right, List.length_append, Nat.add_assoc]

theorem Pos.after_replicate (p : Pos) {c : Char} (hc : c ≠ '\n') (n : Nat) :
    p.after (List.replicate n c) = p.right n := by
  induction n generalizing p with
  | zero => rfl
  | succ n ih =>
    rw [List.replicate_succ, Pos.after_cons, ih, Pos.next, if_neg hc]
    simp only [Pos.right, Pos.mk.injEq, true_and]
    omega

theorem Pos.after_newlines (p : Pos) (n : Nat) :
    p.after (List.replicate (n + 1) '\n') = ⟨p.line + (n + 1), 1⟩ := by
  induction n generalizing p with
  | zero => rfl
  | succ n ih =>
    rw [List.replicate_succ, Pos.after_cons, ih]
    simp only [Pos.next, if_true, Pos.mk.injEq, and_true]
    omega

/-- The blanks in front of a statement lead to its place. -/
theorem Pos.after_lead (p source : Pos) : p.after (Syntax.lead p source) = p.lead source := by
  unfold Syntax.lead Pos.lead
  rw [Pos.after_append, Pos.after_replicate _ (by decide)]
  by_cases h : p.line < source.line
  · obtain ⟨n, hn⟩ : ∃ n, source.line - p.line = n + 1 := ⟨source.line - p.line - 1, by omega⟩
    simp only [if_pos h, hn, Pos.after_newlines]
    rw [show p.line + (n + 1) = source.line by omega]
  · have hzero : source.line - p.line = 0 := by omega
    simp only [if_neg h, hzero, List.replicate_zero, Pos.after_nil]

/-! ## The notes of the printer -/

/-- A piece of text that is not empty follows. -/
def TextNext : List Piece → Prop
  | .text cs :: _ => cs ≠ []
  | _ => False

/-- The notes in front of text and the starts of statements in front of text stand where `ρ` relates
them to the source, when the pieces are laid out at `p`. -/
def Noted (ρ : Pos → Pos → Prop) : Pos → List Piece → Prop
  | _, [] => True
  | p, .text cs :: ps => Noted ρ (p.right cs.length) ps
  | p, .mark source :: ps => (TextNext ps → ρ p source) ∧ Noted ρ p ps
  | p, .start source :: ps => (TextNext ps → ρ (p.lead source) source) ∧ Noted ρ (p.lead source) ps

namespace Noted

theorem textNext_append {ps : List Piece} (h : TextNext ps) (qs : List Piece) :
    TextNext (ps ++ qs) := by
  cases ps with
  | nil => exact h.elim
  | cons piece ps => cases piece <;> exact h

theorem append {P Q : List Piece} (h : Noted ρ p (P ++ Q)) :
    Noted ρ p P ∧ Noted ρ (placed p P) Q := by
  induction P generalizing p with
  | nil => exact ⟨trivial, h⟩
  | cons piece P ih =>
    cases piece with
    | text cs => exact ih h
    | mark source =>
      obtain ⟨hP, hQ⟩ := ih h.2
      exact ⟨⟨fun ht => h.1 (textNext_append ht Q), hP⟩, hQ⟩
    | start source =>
      obtain ⟨hP, hQ⟩ := ih h.2
      exact ⟨⟨fun ht => h.1 (textNext_append ht Q), hP⟩, hQ⟩

theorem left {P Q : List Piece} (h : Noted ρ p (P ++ Q)) : Noted ρ p P := h.append.1

theorem right {P Q : List Piece} (h : Noted ρ p (P ++ Q)) : Noted ρ (placed p P) Q := h.append.2

/-- If everything is related, so are the notes. -/
theorem total (h : ∀ p s, ρ p s) (p : Pos) (ps : List Piece) : Noted ρ p ps := by
  induction ps generalizing p with
  | nil => trivial
  | cons piece ps ih =>
    cases piece with
    | text cs => exact ih _
    | mark source => exact ⟨fun _ => h p source, ih p⟩
    | start source => exact ⟨fun _ => h _ source, ih _⟩

end Noted

/-! ## The texts of the printer -/

section

variable {source : Option Pos} {K : List Spelt} {rest es : List Char}

theorem scans_mark {m : Mark} (cs : List Char) (hm : m.spelling.toList = cs)
    (he : m.EndsBefore rest) (hs : Sourced ρ p source)
    (h : Scans ρ (p.right cs.length) rest K q es) :
    Scans ρ p (cs ++ rest) (.token (.mark m) source :: K) q es := by
  subst hm
  exact .token hs (leads_mark m he) h

theorem scans_word {w : String} (hw : isIdentifier w.toList = true) (he : EndsWord rest)
    (hs : Sourced ρ p source) (h : Scans ρ (p.right w.toList.length) rest K q es) :
    Scans ρ p (w.toList ++ rest) (.token (Token.ofWord w) source :: K) q es := by
  have := leads_word hw he
  rw [String.ofList_toList] at this
  exact .token hs this h

theorem scans_keyword {k : Keyword} (cs : List Char) (hk : k.spelling.toList = cs)
    (he : EndsWord rest) (hs : Sourced ρ p source)
    (h : Scans ρ (p.right cs.length) rest K q es) :
    Scans ρ p (cs ++ rest) (.token (.keyword k) source :: K) q es := by
  have hword := leads_word (Reader.isPropertyName_spelling k).1 he
  rw [String.ofList_toList, Token.ofWord, Reader.ofWord?_spelling, hk] at hword
  exact .token hs hword h

theorem scans_space (h : Scans ρ (p.right 1) rest K q es) : Scans ρ p (' ' :: rest) K q es :=
  .blank rfl h

theorem scans_lead {s : Pos} (h : Scans ρ (p.lead s) rest K q es) :
    Scans ρ p (lead p s ++ rest) K q es := by
  rw [← Pos.after_lead] at h
  exact .blanks (fun _ hb => isBlank_of_mem_lead hb) h

theorem scans_lparen (hs : Sourced ρ p source)
    (h : Scans ρ (p.right "(".toList.length) rest K q es) :
    Scans ρ p ("(".toList ++ rest) (.token (.mark .lparen) source :: K) q es :=
  scans_mark ['('] rfl trivial hs h

theorem scans_rparen (h : Scans ρ (p.right ")".toList.length) rest K q es) :
    Scans ρ p (")".toList ++ rest) (mark .rparen :: K) q es :=
  scans_mark [')'] rfl trivial .none h

theorem scans_rparen_space (h : Scans ρ (p.right ") ".toList.length) rest K q es) :
    Scans ρ p (") ".toList ++ rest) (mark .rparen :: K) q es :=
  scans_mark [')'] rfl trivial .none (scans_space h)

theorem scans_lbrace (hs : Sourced ρ p source)
    (h : Scans ρ (p.right "\x7b".toList.length) rest K q es) :
    Scans ρ p ("\x7b".toList ++ rest) (.token (.mark .lbrace) source :: K) q es :=
  scans_mark ['{'] rfl trivial hs h

theorem scans_rbrace (h : Scans ρ (p.right "\x7d".toList.length) rest K q es) :
    Scans ρ p ("\x7d".toList ++ rest) (mark .rbrace :: K) q es :=
  scans_mark ['}'] rfl trivial .none h

theorem scans_space_rbrace (h : Scans ρ (p.right " \x7d".toList.length) rest K q es) :
    Scans ρ p (" \x7d".toList ++ rest) (mark .rbrace :: K) q es :=
  scans_space (scans_rbrace h)

theorem scans_lbracket (hs : Sourced ρ p source)
    (h : Scans ρ (p.right "[".toList.length) rest K q es) :
    Scans ρ p ("[".toList ++ rest) (.token (.mark .lbracket) source :: K) q es :=
  scans_mark ['['] rfl trivial hs h

theorem scans_rbracket (h : Scans ρ (p.right "]".toList.length) rest K q es) :
    Scans ρ p ("]".toList ++ rest) (mark .rbracket :: K) q es :=
  scans_mark [']'] rfl trivial .none h

theorem scans_comma (h : Scans ρ (p.right ", ".toList.length) rest K q es) :
    Scans ρ p (", ".toList ++ rest) (mark .comma :: K) q es :=
  scans_mark [','] rfl trivial .none (scans_space h)

theorem scans_semi (h : Scans ρ (p.right ";".toList.length) rest K q es) :
    Scans ρ p (";".toList ++ rest) (mark .semi :: K) q es :=
  scans_mark [';'] rfl trivial .none h

theorem scans_dot (hs : Sourced ρ p source)
    (h : Scans ρ (p.right ".".toList.length) rest K q es) :
    Scans ρ p (".".toList ++ rest) (.token (.mark .dot) source :: K) q es :=
  scans_mark ['.'] rfl trivial hs h

theorem scans_assign (h : Scans ρ (p.right " = ".toList.length) rest K q es) :
    Scans ρ p (" = ".toList ++ rest) (mark .assign :: K) q es :=
  have hspace : (Mark.assign).EndsBefore (' ' :: rest) := fun h => absurd h (by simp)
  scans_space (scans_mark ['='] rfl hspace .none (scans_space h))

theorem scans_let (hs : Sourced ρ p source)
    (h : Scans ρ (p.right "let ".toList.length) rest K q es) :
    Scans ρ p ("let ".toList ++ rest) (.token (.keyword .let_) source :: K) q es :=
  scans_keyword ['l', 'e', 't'] rfl (apart_space rest).1 hs (scans_space h)

theorem scans_throw (hs : Sourced ρ p source)
    (h : Scans ρ (p.right "throw ".toList.length) rest K q es) :
    Scans ρ p ("throw ".toList ++ rest) (.token (.keyword .throw_) source :: K) q es :=
  scans_keyword ['t', 'h', 'r', 'o', 'w'] rfl (apart_space rest).1 hs (scans_space h)

theorem scans_if (hs : Sourced ρ p source)
    (h : Scans ρ (p.right "if (".toList.length) rest K q es) :
    Scans ρ p ("if (".toList ++ rest) (.token (.keyword .if_) source :: mark .lparen :: K) q es :=
  scans_keyword ['i', 'f'] rfl (apart_space _).1 hs (scans_space (scans_lparen .none h))

theorem scans_else (h : Scans ρ (p.right " else ".toList.length) rest K q es) :
    Scans ρ p (" else ".toList ++ rest) (keyword .else_ :: K) q es :=
  scans_space (scans_keyword ['e', 'l', 's', 'e'] rfl (apart_space rest).1 .none (scans_space h))

theorem scans_return (he : EndsWord rest) (hs : Sourced ρ p source)
    (h : Scans ρ (p.right "return".toList.length) rest K q es) :
    Scans ρ p ("return".toList ++ rest) (.token (.keyword .return_) source :: K) q es :=
  scans_keyword _ rfl he hs h

theorem scans_fn (he : EndsWord rest) (hs : Sourced ρ p source)
    (h : Scans ρ (p.right "fn".toList.length) rest K q es) :
    Scans ρ p ("fn".toList ++ rest) (.token (.keyword .fn) source :: K) q es :=
  scans_keyword _ rfl he hs h

theorem scans_op (op : BinaryOp)
    (h : Scans ρ ((p.right op.spelling.toList.length).right 1) rest K q es) :
    Scans ρ p (op.spelling.toList ++ (' ' :: rest)) (mark op.mark :: K) q es := by
  refine scans_mark _ (by cases op <;> rfl) ?_ .none (scans_space h)
  cases op <;> first
    | trivial
    | exact fun h => absurd h (by simp)
    | exact ⟨fun h => absurd h (by simp), fun h => absurd h (by simp)⟩

theorem scans_quote (value : String) (hs : Sourced ρ p source)
    (h : Scans ρ (p.right (quote value.toList).length) rest K q es) :
    Scans ρ p (quote value.toList ++ rest) (.token (.str value) source :: K) q es :=
  .token hs (leads_quote value rest) h

/-- A key reads back as itself or as the keyword it spells. -/
theorem scans_key (name : String)
    (h : Scans ρ ((p.right (key name).length).right ": ".toList.length) rest K q es) :
    Scans ρ p (key name ++ (": ".toList ++ rest)) (Spelt.key name :: mark .colon :: K) q es := by
  have hcolon : Scans ρ (p.right (key name).length) (": ".toList ++ rest) (mark .colon :: K) q es :=
    scans_mark [':'] rfl trivial .none (scans_space h)
  unfold key Spelt.key at *
  split
  · rename_i hname
    rw [if_pos hname] at hcolon
    exact scans_word hname (endsWord_cons (isWordPart_mark _ (by decide)) _) .none hcolon
  · rename_i hname
    rw [if_neg hname] at hcolon
    exact scans_quote name .none hcolon

theorem scans_names {ns : List String} (hns : ∀ n ∈ ns, IsName n) (he : Apart rest)
    (h : Scans ρ (p.right (commaSeparated ns).length) rest K q es) :
    Scans ρ p (commaSeparated ns ++ rest) (names ns ++ K) q es := by
  induction ns generalizing p with
  | nil => exact h
  | cons n ns ih =>
    have hn := (hns n List.mem_cons_self).1
    cases ns with
    | nil => exact scans_word hn he.1 .none h
    | cons m ns =>
      have hpos : p.right (commaSeparated (n :: m :: ns)).length =
          ((p.right n.toList.length).right ", ".toList.length).right
            (commaSeparated (m :: ns)).length := by
        simp only [commaSeparated, Pos.right_append]
      rw [hpos] at h
      have hrest := ih (fun m hm => hns m (List.mem_cons_of_mem _ hm)) h
      rw [commaSeparated, names, List.append_assoc, List.append_assoc]
      · exact scans_word hn (apart_comma _).1 .none (scans_comma hrest)
      · simp
      · simp
end

/-! ## Printed trees -/

/-- The text begins with a character that does not continue a mark in front of it. -/
def Opens (cs : List Char) : Prop := ∃ c ds, cs = c :: ds ∧ c ≠ '='

theorem Opens.append {cs : List Char} (h : Opens cs) (ds : List Char) : Opens (cs ++ ds) := by
  obtain ⟨c, es, rfl, hc⟩ := h
  exact ⟨c, es ++ ds, rfl, hc⟩

theorem opens_word {w : List Char} (h : isIdentifier w = true) : Opens w := by
  cases w with
  | nil => simp [isIdentifier] at h
  | cons c w =>
    rw [isIdentifier, Bool.and_eq_true] at h
    refine ⟨c, w, rfl, ?_⟩
    rintro rfl
    have hpart := isWordPart_of_isWordStart h.1
    rw [isWordPart_mark _ (by decide)] at hpart
    cases hpart

theorem opens_numeral {x : Float} (h : IsMagnitude x) : Opens (numeral x) := by
  obtain ⟨bits, hbits, rfl⟩ := h
  by_cases hb : bits < Number.infinityBits
  · obtain ⟨whole, fraction, hne, hwhole, -, hd, -⟩ := Number.display_digits hb
    obtain ⟨c, cs, rfl⟩ := List.exists_cons_of_ne_nil hne
    rw [numeral, hd]
    refine ⟨c, _, rfl, ?_⟩
    rintro rfl
    exact absurd (hwhole '=' List.mem_cons_self) (by decide)
  · obtain rfl : bits = Number.infinityBits := by omega
    rw [numeral, Number.display_infinity]
    exact opens_word (isIdentifier_written "inf" (by decide))

theorem opens_parenthesize {needed : Bool} {ps : List Piece} {p : Pos}
    (h : Opens (laid p ps)) : Opens (laid p (parenthesize needed ps)) := by
  cases needed with
  | true => exact ⟨'(', _, rfl, by decide⟩
  | false => exact h

/-- A printed expression does not begin with a sign that would continue a mark. -/
theorem opens_print : ∀ {e : Expr}, e.Built → ∀ p, Opens (laid p e.print)
  | .nil _, _, _ => ⟨'n', _, rfl, by decide⟩
  | .bool _ true, _, _ => ⟨'t', _, rfl, by decide⟩
  | .bool _ false, _, _ => ⟨'f', _, rfl, by decide⟩
  | .num _ value, h, _ => (opens_numeral h).append []
  | .str _ value, _, _ => ⟨'"', _, rfl, by decide⟩
  | .ident _ name, h, _ => (opens_word h.1).append []
  | .list _ _, _, _ => ⟨'[', _, rfl, by decide⟩
  | .object _ _, _, _ => ⟨'{', _, rfl, by decide⟩
  | .fn _ (.mk _ _ _ _), _, _ => ⟨'f', _, rfl, by decide⟩
  | .call _ callee args, h, p => by
    rw [Expr.print, List.append_assoc, laid_append]
    exact (opens_parenthesize (opens_print h.1 p)).append _
  | .member _ object name, h, p => by
    rw [Expr.print, laid_append]
    exact (opens_parenthesize (opens_print h.1 p)).append _
  | .index _ object index, h, p => by
    rw [Expr.print, List.append_assoc, laid_append]
    exact (opens_parenthesize (opens_print h.1 p)).append _
  | .unary _ .not _, _, _ => ⟨'!', _, rfl, by decide⟩
  | .unary _ .neg _, _, _ => ⟨'-', _, rfl, by decide⟩
  | .binary _ _ _ _, _, _ => ⟨'(', _, rfl, by decide⟩

theorem ne_nil_of_isIdentifier {w : List Char} (h : isIdentifier w = true) : w ≠ [] := by
  rintro rfl
  cases h

namespace Noted

variable {source : Pos} {cs : List Char} {ps : List Piece}

/-- The text of a note is the first token of its node. -/
theorem mark (h : Noted ρ p (.mark source :: .text cs :: ps)) (hcs : cs ≠ []) :
    Sourced ρ p (some source) := .some (h.1 hcs)

theorem start (h : Noted ρ p (.start source :: .text cs :: ps)) (hcs : cs ≠ []) :
    Sourced ρ (p.lead source) (some source) := .some (h.1 hcs)

end Noted

/-- Pieces that are read as tokens whatever follows, as long as it stays apart. -/
theorem scans_parenthesize {needed : Bool} {ps : List Piece} {K : List Spelt}
    (h : ∀ {p : Pos} {rest : List Char}, Noted ρ p ps → Apart rest →
      Scans ρ p (laid p ps ++ rest) K (placed p ps) rest)
    (hn : Noted ρ p (parenthesize needed ps)) {rest : List Char} (hr : Apart rest) :
    Scans ρ p (laid p (parenthesize needed ps) ++ rest) (Spelt.parenthesize needed K)
      (placed p (parenthesize needed ps)) rest := by
  cases needed with
  | true =>
    simp only [parenthesize, Spelt.parenthesize, if_true, List.cons_append, laid_str, laid_append,
      placed_str, placed_append, List.append_assoc, laid, placed, List.append_nil] at hn ⊢
    exact scans_lparen .none ((h (Noted.left hn) (apart_rparen rest)).append (scans_rparen .done))
  | false => exact h hn hr

theorem scans_unaryOp {op : UnaryOp} {source : Option Pos} {K : List Spelt}
    {rest es : List Char} (ho : Opens rest) (hs : Sourced ρ p source)
    (h : Scans ρ (p.right op.spelling.toList.length) rest K q es) :
    Scans ρ p (op.spelling.toList ++ rest) (.token (.mark op.mark) source :: K) q es := by
  refine scans_mark _ (by cases op <;> rfl) ?_ hs h
  cases op with
  | neg => trivial
  | not =>
    obtain ⟨c, ds, rfl, hc⟩ := ho
    exact fun h => hc (Option.some.inj h)

theorem scans_ident {pos : Pos} {name : String} (h : isIdentifier name.toList = true)
    (hn : Noted ρ p (Expr.ident pos name).print) {rest : List Char} (hr : Apart rest) :
    Scans ρ p (laid p (Expr.ident pos name).print ++ rest) (Expr.ident pos name).spelt
      (placed p (Expr.ident pos name).print) rest := by
  simp only [Expr.print, Expr.spelt, laid, laid_str, placed, placed_str, List.append_nil,
    if_pos h] at hn ⊢
  exact scans_word h hr.1 (hn.mark (ne_nil_of_isIdentifier h)) .done

mutual

/-- A printed expression is read as its tokens. -/
theorem Expr.scans : ∀ {e : Expr}, e.Built → ∀ {p : Pos}, Noted ρ p e.print →
    ∀ {rest : List Char}, Apart rest →
      Scans ρ p (laid p e.print ++ rest) e.spelt (placed p e.print) rest
  | .nil _, _, _, hn, _, hr =>
    scans_keyword (k := .nil) _ rfl hr.1 (Noted.mark hn (by decide)) .done
  | .bool _ true, _, _, hn, _, hr =>
    scans_keyword (k := .true_) _ rfl hr.1 (Noted.mark hn (by decide)) .done
  | .bool _ false, _, _, hn, _, hr =>
    scans_keyword (k := .false_) _ rfl hr.1 (Noted.mark hn (by decide)) .done
  | .num _ value, h, p, hn, rest, hr => by
    obtain ⟨c, cs, hne, -⟩ := opens_numeral h
    obtain ⟨bits, hbits, rfl⟩ := h
    have hs := Noted.mark hn (by rw [hne]; exact List.cons_ne_nil c cs)
    simp only [Expr.print, Expr.spelt, laid, placed, List.append_nil]
    exact .token hs (leads_numeral hbits hr.2 hr.1) .done
  | .str _ value, _, p, hn, rest, _ => by
    have hs := Noted.mark hn (List.cons_ne_nil _ _)
    simp only [Expr.print, Expr.spelt, laid, placed, List.append_nil]
    exact scans_quote value hs .done
  | .ident _ _, h, p, hn, _, hr => scans_ident h.1 hn hr
  | .list _ items, h, p, hn, rest, _ => by
    simp only [Expr.print, Expr.spelt, laid, laid_append, laid_str, placed, placed_append,
      placed_str, List.cons_append, List.append_assoc, List.append_nil] at hn ⊢
    have hs := Noted.mark hn (by decide)
    have hitems := Noted.left (Q := [.str "]"]) hn.2
    exact scans_lbracket hs ((Expr.scansList h hitems (apart_rbracket _)).append
      (scans_rbracket .done))
  | .object _ fields, h, p, hn, rest, _ => by
    simp only [Expr.print, Expr.spelt, laid, laid_append, laid_str, placed, placed_append,
      placed_str, List.cons_append, List.append_assoc, List.append_nil] at hn ⊢
    have hs := Noted.mark hn (by decide)
    have hfields := Noted.left hn.2
    refine scans_lbrace hs
      ((Expr.scansFields h " " [] hfields (fun hs => scans_space hs) ?_).append ?_)
    · cases fields.isEmpty with
      | true => exact apart_cons (isWordPart_mark _ (by decide)) (by decide) rest
      | false => exact apart_space _
    · cases fields.isEmpty with
      | true => exact scans_rbrace .done
      | false => exact scans_space_rbrace .done
  | .fn _ function, h, p, hn, rest, _ => by
    simp only [Expr.print, Expr.spelt, laid, placed]
    exact Function.scans h.2 hn.2
  | .call _ callee args, h, p, hn, rest, _ => by
    simp only [Expr.print, Expr.spelt, laid, laid_append, laid_str, placed, placed_append,
      placed_str, List.cons_append, List.append_assoc, List.append_nil] at hn ⊢
    have hs := Noted.mark hn.right (by decide)
    have hargs := Noted.left hn.right.2
    exact (scans_parenthesize (fun hn hr => Expr.scans h.1 hn hr) hn.left (apart_lparen _)).append
      (scans_lparen hs ((Expr.scansList h.2 hargs (apart_rparen _)).append (scans_rparen .done)))
  | .member _ object name, h, p, hn, rest, hr => by
    simp only [Expr.print, Expr.spelt, laid, laid_append, laid_str, placed, placed_append,
      placed_str, List.append_assoc, List.append_nil] at hn ⊢
    have hs := Noted.mark hn.right (by decide)
    exact (scans_parenthesize (fun hn hr => Expr.scans h.1 hn hr) hn.left
      (apart_dot h.2.1 _)).append (scans_dot hs (scans_word h.2.1 hr.1 .none .done))
  | .index _ object index, h, p, hn, rest, _ => by
    simp only [Expr.print, Expr.spelt, laid, laid_append, laid_str, placed, placed_append,
      placed_str, List.cons_append, List.append_assoc, List.append_nil] at hn ⊢
    have hs := Noted.mark hn.right (by decide)
    have hindex := Noted.left hn.right.2
    exact (scans_parenthesize (fun hn hr => Expr.scans h.1 hn hr) hn.left
      (apart_lbracket _)).append (scans_lbracket hs
        ((Expr.scans h.2 hindex (apart_rbracket _)).append (scans_rbracket .done)))
  | .unary _ op operand, h, p, hn, rest, hr => by
    simp only [Expr.print, Expr.spelt, laid, laid_str, placed, placed_str,
      List.append_assoc] at hn ⊢
    have hs := Noted.mark hn (by cases op <;> decide)
    exact scans_unaryOp ((opens_parenthesize (opens_print (e := operand) h _)).append _) hs
      (scans_parenthesize (fun hn hr => Expr.scans (e := operand) h hn hr) hn.2 hr)
  | .binary _ op lhs rhs, h, p, hn, rest, _ => by
    simp only [Expr.print, Expr.spelt, laid, laid_append, laid_str, placed, placed_append,
      placed_str, List.cons_append, List.append_assoc, List.append_nil, List.nil_append] at hn ⊢
    have hlhs := Noted.append (P := lhs.print) hn.2
    have hrhs := Noted.left (P := rhs.print) hlhs.2
    exact scans_lparen .none ((Expr.scans h.2.1 hlhs.1 (apart_space _)).append
      (scans_space (scans_op op ((Expr.scans h.2.2 hrhs (apart_rparen _)).append
        (scans_rparen .done)))))

/-- Printed expressions are read as their tokens. -/
theorem Expr.scansList : ∀ {items : List Expr}, Expr.BuiltList items → ∀ {p : Pos},
    Noted ρ p (Expr.printList items) → ∀ {rest : List Char}, Apart rest →
      Scans ρ p (laid p (Expr.printList items) ++ rest) (Expr.speltList items)
        (placed p (Expr.printList items)) rest
  | [], _, _, _, _, _ => .done
  | [_], h, p, hn, _, hr => Expr.scans h.1 hn hr
  | e :: e' :: es, h, p, hn, rest, hr => by
    simp only [Expr.printList, Expr.speltList, laid_append, laid_str, placed_append, placed_str,
      List.append_assoc] at hn ⊢
    exact (Expr.scans h.1 hn.left (apart_comma _)).append
      (scans_comma (Expr.scansList h.2 hn.right hr))

/-- Printed fields are read as their tokens. -/
theorem Expr.scansFields : ∀ {fields : List (String × Expr)}, Expr.BuiltFields fields →
    ∀ {p : Pos} (s : String) (before : List Spelt), Noted ρ p (Expr.printFields s fields) →
    ∀ {rest : List Char},
    (∀ {q r : Pos} {cs ds : List Char} {K : List Spelt},
      Scans ρ (q.right s.toList.length) cs K r ds →
        Scans ρ q (s.toList ++ cs) (before ++ K) r ds) → Apart rest →
    Scans ρ p (laid p (Expr.printFields s fields) ++ rest) (Expr.speltFields before fields)
      (placed p (Expr.printFields s fields)) rest
  | [], _, _, _, _, _, _, _, _ => .done
  | (name, value) :: fields, h, p, s, before, hn, rest, hs, hr => by
    have hvalue : ∀ {p : Pos} {rest : List Char}, Noted ρ p value.print → Apart rest →
        Scans ρ p (laid p value.print ++ rest) value.spelt (placed p value.print) rest := by
      intro p rest hn hr
      rcases h.1 with ⟨pos, rfl⟩ | hbuilt
      · by_cases hname : isIdentifier name.toList = true
        · exact scans_ident hname hn hr
        · rw [Expr.spelt, if_neg hname]
          exact .raw
      · exact Expr.scans hbuilt hn hr
    have hapart : ∀ p, Apart (laid p (Expr.printFields ", " fields) ++ rest) := by
      intro p
      cases fields with
      | nil => exact hr
      | cons field fields => exact apart_comma _
    simp only [Expr.printFields, Expr.speltFields, laid, laid_append, laid_str, placed,
      placed_append, placed_str, List.cons_append, List.append_assoc] at hn ⊢
    exact hs (scans_key name ((hvalue (Noted.left hn) (hapart _)).append
      (Expr.scansFields h.2 ", " [mark .comma] (Noted.right hn) (fun hs => scans_comma hs) hr)))

/-- A printed function is read as its tokens. -/
theorem Function.scans : ∀ {f : Function}, f.Built → ∀ {p : Pos}, Noted ρ p f.print →
    ∀ {rest : List Char}, Scans ρ p (laid p f.print ++ rest) f.spelt (placed p f.print) rest
  | .mk _ name params body, h, p, hn, rest => by
    have hparams : ∀ {p : Pos}, Noted ρ p (.str "(" :: .text (commaSeparated params) ::
          .str ") " :: .str "\x7b" :: (Stmt.printList body ++ [.str " \x7d"])) →
        Scans ρ p ("(".toList ++ (commaSeparated params ++ (") ".toList ++ ("\x7b".toList ++
          (laid ((((p.right "(".toList.length).right (commaSeparated params).length).right
            ") ".toList.length).right "\x7b".toList.length) (Stmt.printList body) ++
              (" \x7d".toList ++ rest))))))
        (mark .lparen :: (names params ++ (mark .rparen :: mark .lbrace ::
          (Stmt.speltList body ++ [mark .rbrace]))))
        ((placed ((((p.right "(".toList.length).right (commaSeparated params).length).right
          ") ".toList.length).right "\x7b".toList.length) (Stmt.printList body)).right
            " \x7d".toList.length) rest := fun hn =>
      scans_lparen .none (scans_names h.2.1 (apart_rparen _) (scans_rparen_space
        (scans_lbrace .none ((Stmt.scansList h.2.2 (Noted.left hn)).append
          (scans_space_rbrace .done)))))
    have hs := Noted.mark hn (by decide)
    cases name with
    | none =>
      simp only [Function.print, Function.spelt, laid, laid_append, laid_str, placed,
        placed_append, placed_str, List.cons_append, List.append_assoc, List.append_nil,
        List.nil_append, Option.toList, List.map] at hn ⊢
      exact scans_fn (apart_lparen _).1 hs (hparams hn.2)
    | some name =>
      simp only [Function.print, Function.spelt, laid, laid_append, laid_str, placed,
        placed_append, placed_str, List.cons_append, List.append_assoc, List.append_nil,
        List.nil_append, Option.toList, List.map] at hn ⊢
      exact scans_fn (apart_space _).1 hs (scans_space
        (scans_word (h.1 name rfl).1 (apart_lparen _).1 .none (hparams hn.2)))

/-- A printed statement is read as its tokens. -/
theorem Stmt.scans : ∀ {s : Stmt}, s.Built → ∀ {p : Pos}, Noted ρ p s.print →
    ∀ {rest : List Char}, Scans ρ p (laid p s.print ++ rest) s.spelt (placed p s.print) rest
  | .declare _ name value, h, p, hn, rest => by
    simp only [Stmt.print, Stmt.spelt, laid, laid_append, laid_str, placed, placed_append,
      placed_str, List.cons_append, List.append_assoc, List.append_nil] at hn ⊢
    have hs := Noted.start hn (by decide)
    have hvalue := Noted.left (Q := [.str ";"]) hn.2
    exact scans_lead (scans_let hs (scans_word h.1 (apart_space _).1 .none (scans_assign
      ((Expr.scans h.2 hvalue (apart_semi _)).append (scans_semi .done)))))
  | .fn _ function, h, p, hn, rest => by
    simp only [Stmt.print, Stmt.spelt, laid, placed, List.append_assoc] at hn ⊢
    exact scans_lead (Function.scans h.2 hn.2)
  | .return_ _ (some value), h, p, hn, rest => by
    simp only [Stmt.print, Stmt.spelt, laid, laid_append, laid_str, placed, placed_append,
      placed_str, List.cons_append, List.append_assoc, List.append_nil] at hn ⊢
    have hs := Noted.start hn (by decide)
    have hvalue := Noted.left (Q := [.str ";"]) hn.2
    exact scans_lead (scans_return (apart_space _).1 hs (scans_space
      ((Expr.scans (e := value) h hvalue (apart_semi _)).append (scans_semi .done))))
  | .return_ _ none, _, p, hn, rest => by
    simp only [Stmt.print, Stmt.spelt, laid, laid_str, placed, placed_str, List.append_assoc,
      List.append_nil] at hn ⊢
    have hs := Noted.start hn (by decide)
    exact scans_lead (scans_return (apart_semi _).1 hs (scans_semi .done))
  | .throw_ _ value, h, p, hn, rest => by
    simp only [Stmt.print, Stmt.spelt, laid, laid_append, laid_str, placed, placed_append,
      placed_str, List.cons_append, List.append_assoc, List.append_nil] at hn ⊢
    have hs := Noted.start hn (by decide)
    have hvalue := Noted.left (Q := [.str ";"]) hn.2
    exact scans_lead (scans_throw hs
      ((Expr.scans (e := value) h hvalue (apart_semi _)).append (scans_semi .done)))
  | .if_ _ cond thenBody none, h, p, hn, rest => by
    simp only [Stmt.print, Stmt.spelt, laid, laid_append, laid_str, placed, placed_append,
      placed_str, List.cons_append, List.append_assoc, List.append_nil, List.nil_append] at hn ⊢
    have hs := Noted.start hn (by decide)
    have hcond := Noted.append (P := cond.print) hn.2
    have hthen := Noted.left (P := Stmt.printList thenBody) hcond.2
    exact scans_lead (scans_if hs ((Expr.scans h.1 hcond.1 (apart_rparen _)).append
      (scans_rparen_space (scans_lbrace .none ((Stmt.scansList h.2 hthen).append
        (scans_space_rbrace .done))))))
  | .if_ _ cond thenBody (some elseBody), h, p, hn, rest => by
    simp only [Stmt.print, Stmt.spelt, laid, laid_append, laid_str, placed, placed_append,
      placed_str, List.cons_append, List.append_assoc, List.append_nil, List.nil_append] at hn ⊢
    have hs := Noted.start hn (by decide)
    have hcond := Noted.append (P := cond.print) hn.2
    have hthen := Noted.append (P := Stmt.printList thenBody) hcond.2
    have helse := Noted.left (P := Stmt.printList elseBody) hthen.2
    exact scans_lead (scans_if hs ((Expr.scans h.1 hcond.1 (apart_rparen _)).append
      (scans_rparen_space (scans_lbrace .none ((Stmt.scansList h.2.1 hthen.1).append
        (scans_space_rbrace (scans_else (scans_lbrace .none ((Stmt.scansList h.2.2 helse).append
          (scans_space_rbrace .done))))))))))
  | .assign _ target value, h, p, hn, rest => by
    simp only [Stmt.print, Stmt.spelt, laid, laid_append, laid_str, placed, placed_append,
      placed_str, List.cons_append, List.append_assoc, List.append_nil, List.nil_append] at hn ⊢
    have htarget := Noted.append (P := target.print) hn.2
    have hvalue := Noted.left (P := value.print) htarget.2
    exact scans_lead ((Expr.scans h.2.1 htarget.1 (apart_space _)).append (scans_assign
      ((Expr.scans h.2.2 hvalue (apart_semi _)).append (scans_semi .done))))
  | .expr _ value, h, p, hn, rest => by
    simp only [Stmt.print, Stmt.spelt, laid, laid_append, laid_str, placed, placed_append,
      placed_str, List.cons_append, List.append_assoc, List.append_nil] at hn ⊢
    have hvalue := Noted.left (P := value.print) hn.2
    exact scans_lead ((Expr.scans (e := value) h hvalue (apart_semi _)).append (scans_semi .done))

/-- Printed statements are read as their tokens. -/
theorem Stmt.scansList : ∀ {ss : List Stmt}, Stmt.BuiltList ss → ∀ {p : Pos},
    Noted ρ p (Stmt.printList ss) → ∀ {rest : List Char},
      Scans ρ p (laid p (Stmt.printList ss) ++ rest) (Stmt.speltList ss)
        (placed p (Stmt.printList ss)) rest
  | [], _, _, _, _ => .done
  | s :: ss, h, p, hn, rest => by
    simp only [Stmt.printList, Stmt.speltList, laid_append, placed_append,
      List.append_assoc] at hn ⊢
    exact (Stmt.scans h.1 hn.left).append (Stmt.scansList h.2 hn.right)

end


/-! ## Printed declarations -/

/-- The statements of an export declaration, where the nodes that do not come from the source stand
at `unknown`. -/
def lowerExportAt (unknown pos : Pos) : ExportForm → List Stmt
  | .declare name value =>
    [.declare pos name value, exportAssignment unknown name (.ident unknown name)]
  | form => lowerExport unknown form

/-- The statements of an item, where the nodes that do not come from the source stand at
`unknown`. -/
def Item.lowerAt (unknown : Pos) (temps : Nat) : Item → List Stmt
  | .stmt s => [s]
  | .import_ _ clause source => lowerImport unknown (importTemp temps) source clause
  | .export_ pos form => lowerExportAt unknown pos form

/-- The statements of items, when `temps` variables for modules are in use. -/
def lowerFromAt (unknown : Item → Pos) : Nat → List Item → List Stmt
  | _, [] => []
  | temps, item :: items =>
    item.lowerAt (unknown item) temps ++
      lowerFromAt unknown (if item.takesTemp then temps + 1 else temps) items

/-- The core program that a surface program stands for, where the nodes of a module declaration that
do not come from the source stand at a position that `unknown` tells. -/
def lowerAt (unknown : Item → Pos) (items : List Item) : List Stmt := lowerFromAt unknown 0 items

theorem Item.lowerAt_pos (item : Item) (temps : Nat) :
    item.lowerAt item.pos temps = item.lower temps := by
  cases item with
  | stmt s => rfl
  | import_ pos clause source => rfl
  | export_ pos form => cases form <;> rfl

theorem lowerAt_pos (items : List Item) : lowerAt Item.pos items = lower items := by
  have hfrom (temps : Nat) : lowerFromAt Item.pos temps items = lowerFrom temps items := by
    induction items generalizing temps with
    | nil => rfl
    | cons item items ih => rw [lowerFromAt, lowerFrom, item.lowerAt_pos, ih]
  exact hfrom 0

theorem spelt_ident {name : String} (h : isIdentifier name.toList = true) (pos : Pos) :
    (Expr.ident pos name).spelt = [.token (Token.ofWord name) (some pos)] := by
  rw [Expr.spelt, if_pos h]

theorem isIdentifier_importTemp (n : Nat) : isIdentifier (importTemp n).toList = true := by
  have hdigits : (toString n).toList.all isWordPart = true := by
    rw [List.all_eq_true]
    intro c hc
    have hd : c.isDigit = true := by
      rw [Nat.toString_eq_repr, Nat.toList_repr] at hc
      exact Number.allDigits_toDigits n c hc
    exact isWordPart_of_isNumberPart (by simp [isNumberPart, hd])
  have hprefix : "__import".toList = ['_', '_', 'i', 'm', 'p', 'o', 'r', 't'] := rfl
  have hword : ['_', 'i', 'm', 'p', 'o', 'r', 't'].all isWordPart = true := by
    have himport := isIdentifier_written "__import" (by decide)
    rw [ hprefix, isIdentifier, Bool.and_eq_true] at himport
    exact himport.2
  rw [importTemp, String.toList_append, hprefix, List.cons_append, isIdentifier,
    List.all_append, hword, hdigits]
  rfl

theorem spelt_requireCall (pos : Pos) (source : String) :
    (requireCall pos source).spelt = [.token (.ident "require") (some pos),
      .token (.mark .lparen) (some pos), .token (.str source) (some pos), mark .rparen] := by
  rw [requireCall, Expr.spelt, spelt_ident (isIdentifier_written "require" (by decide))]
  rfl

section

variable {unknown : Pos} (hu : ∀ p, ρ p unknown)

include hu

theorem scans_require {source : String} {rest : List Char} :
    Scans ρ p (laid p (printRequire source) ++ rest) (requireCall unknown source).spelt
      (placed p (printRequire source)) rest := by
  have hs (p : Pos) : Sourced ρ p (some unknown) := .some (hu p)
  rw [spelt_requireCall]
  simp only [printRequire, laid, laid_str, placed, placed_str, List.append_nil, List.append_assoc]
  exact scans_word (w := "require") (isIdentifier_written "require" (by decide)) (apart_lparen _).1
    (hs _) (scans_lparen (hs _) (scans_quote source (hs _) (scans_rparen .done)))

theorem scans_declareRequire {name source : String} (h : isIdentifier name.toList = true)
    {rest : List Char} :
    Scans ρ p ("let ".toList ++ (name.toList ++ (" = ".toList ++
      (laid (((p.right "let ".toList.length).right name.toList.length).right " = ".toList.length)
        (printRequire source) ++ (";".toList ++ rest)))))
      (Stmt.declare unknown name (requireCall unknown source)).spelt
      ((placed (((p.right "let ".toList.length).right name.toList.length).right
        " = ".toList.length) (printRequire source)).right ";".toList.length) rest :=
  scans_let (.some (hu p)) (scans_word h (apart_space _).1 .none
    (scans_assign ((scans_require hu).append (scans_semi .done))))

theorem scans_imported {temp imported name : String} (ht : isIdentifier temp.toList = true)
    (hi : isIdentifier imported.toList = true) (hn : isIdentifier name.toList = true)
    {pos : Pos} {rest : List Char} :
    Scans ρ p (laid p (printImported pos temp (imported, name)) ++ rest)
      (Stmt.declare unknown name (.member unknown (.ident unknown temp) imported)).spelt
      (placed p (printImported pos temp (imported, name))) rest := by
  have hs (p : Pos) : Sourced ρ p (some unknown) := .some (hu p)
  simp only [printImported, Stmt.spelt, Expr.spelt, if_pos ht, Expr.needsParens,
    Spelt.parenthesize, laid, laid_str, placed, placed_str, List.append_nil, List.append_assoc]
  exact scans_space (scans_let (hs _) (scans_word hn (apart_space _).1 .none (scans_assign
    (scans_word ht (apart_dot hi _).1 (hs _) (scans_dot (hs _) (scans_word hi (apart_semi _).1 .none
      (scans_semi .done)))))))

theorem scans_importedList {temp : String} (ht : isIdentifier temp.toList = true)
    {names : List (String × String)} {pos : Pos}
    (h : ∀ n ∈ names, isIdentifier n.1.toList = true ∧ isIdentifier n.2.toList = true)
    {rest : List Char} :
    Scans ρ p (laid p (names.flatMap (printImported pos temp)) ++ rest)
      (Stmt.speltList (names.map fun (imported, name) =>
        .declare unknown name (.member unknown (.ident unknown temp) imported)))
      (placed p (names.flatMap (printImported pos temp))) rest := by
  induction names generalizing p with
  | nil => exact .done
  | cons n names ih =>
    obtain ⟨hi, hn⟩ := h n List.mem_cons_self
    rw [List.flatMap_cons, laid_append, placed_append, List.append_assoc]
    exact (scans_imported hu ht hi hn).append (ih fun m hm => h m (List.mem_cons_of_mem _ hm))

/-- `exports.exported = ` in front of some expression -/
theorem scans_exportTarget {exported : String} (h : isIdentifier exported.toList = true)
    {K : List Spelt} {rest es : List Char}
    (hr : Scans ρ ((((p.right "exports".toList.length).right ".".toList.length).right
      exported.toList.length).right " = ".toList.length) rest K q es) :
    Scans ρ p ("exports".toList ++ (".".toList ++ (exported.toList ++ (" = ".toList ++ rest))))
      ((Expr.member unknown (.ident unknown "exports") exported).spelt ++ mark .assign :: K)
      q es := by
  have hs (p : Pos) : Sourced ρ p (some unknown) := .some (hu p)
  rw [Expr.spelt, spelt_ident (isIdentifier_written "exports" (by decide))]
  exact scans_word (isIdentifier_written "exports" (by decide)) (apart_dot h _).1 (hs _)
    (scans_dot (hs _) (scans_word h (apart_space _).1 .none (scans_assign hr)))

theorem scans_export {exported name : String} (he : isIdentifier exported.toList = true)
    (hn : isIdentifier name.toList = true) {rest : List Char} :
    Scans ρ p (laid p (printExport exported name) ++ rest)
      (exportAssignment unknown exported (.ident unknown name)).spelt
      (placed p (printExport exported name)) rest := by
  simp only [printExport, exportAssignment, Stmt.spelt, spelt_ident hn, laid, laid_str, placed,
    placed_str, List.append_nil, List.append_assoc]
  exact scans_exportTarget hu he (scans_word hn (apart_semi _).1 (.some (hu _)) (scans_semi .done))

theorem scans_exported {exported name : String} (he : isIdentifier exported.toList = true)
    (hn : isIdentifier name.toList = true) {pos : Pos} {rest : List Char} :
    Scans ρ p (laid p (printExported pos exported name) ++ rest)
      (exportAssignment unknown exported (.ident unknown name)).spelt
      (placed p (printExported pos exported name)) rest := by
  simp only [printExported, laid, laid_str, placed, placed_str, List.append_assoc]
  exact scans_space (scans_export hu he hn)

/-- Assignments behind each other, the first one of which begins an export by names. -/
theorem scans_exportedList {pairs : List (String × String)} {pos : Pos}
    (h : ∀ n ∈ pairs, isIdentifier n.1.toList = true ∧ isIdentifier n.2.toList = true)
    {rest : List Char} :
    Scans ρ p
      (laid p (pairs.flatMap fun (name, exported) => printExported pos exported name) ++ rest)
      (Stmt.speltList (pairs.map fun (name, exported) =>
        exportAssignment unknown exported (.ident unknown name)))
      (placed p (pairs.flatMap fun (name, exported) => printExported pos exported name)) rest := by
  induction pairs generalizing p with
  | nil => exact .done
  | cons n pairs ih =>
    obtain ⟨hn, he⟩ := h n List.mem_cons_self
    rw [List.flatMap_cons, laid_append, placed_append, List.append_assoc]
    exact (scans_exported hu he hn).append (ih fun m hm => h m (List.mem_cons_of_mem _ hm))

theorem scans_importDeclaration {clause : ImportClause} (h : clause.Built) {temp : String}
    (ht : isIdentifier temp.toList = true) (pos : Pos) (source : String) {rest : List Char} :
    Scans ρ p (laid p (printImport pos temp source clause) ++ rest)
      (Stmt.speltList (lowerImport unknown temp source clause))
      (placed p (printImport pos temp source clause)) rest := by
  cases clause with
  | sideEffect =>
    simp only [printImport, lowerImport, Stmt.speltList, Stmt.spelt, laid, laid_append, laid_str,
      placed, placed_append, placed_str, List.cons_append, List.append_assoc, List.append_nil]
    exact scans_lead ((scans_require hu).append (scans_semi .done))
  | default_ name =>
    have hname : isIdentifier name.toList = true := h.1
    have hs (p : Pos) : Sourced ρ p (some unknown) := .some (hu p)
    simp only [printImport, lowerImport, Stmt.speltList, Stmt.spelt, Expr.spelt, laid, laid_append,
      laid_str, placed, placed_append, placed_str, List.cons_append, List.append_assoc,
      List.append_nil, Expr.speltList]
    have htext : " = __importDefault(".toList =
        " = ".toList ++ ("__importDefault".toList ++ "(".toList) := rfl
    have hend : ");".toList = ")".toList ++ ";".toList := rfl
    have hdefault := isIdentifier_written "__importDefault" (by decide)
    rw [htext, hend, if_pos hdefault]
    simp only [Expr.needsParens, Spelt.parenthesize, Bool.false_eq_true, if_false,
      List.append_assoc, List.nil_append, List.cons_append, Pos.right_append]
    exact scans_lead (scans_let (hs _) (scans_word hname (apart_space _).1 .none (scans_assign
      (scans_word hdefault (apart_lparen _).1 (hs _) (scans_lparen (hs _)
        ((scans_require hu).append (scans_rparen (scans_semi .done))))))))
  | namespace_ name =>
    have hname : isIdentifier name.toList = true := h.1
    simp only [printImport, lowerImport, Stmt.speltList, laid, laid_append, laid_str, placed,
      placed_append, placed_str, List.cons_append, List.append_assoc, List.append_nil]
    exact scans_lead (scans_declareRequire hu hname)
  | named names =>
    have hnames : ∀ n ∈ names, isIdentifier n.1.toList = true ∧ isIdentifier n.2.toList = true :=
      fun n hn => ⟨(h n hn).1.1, (h n hn).2.1⟩
    simp only [printImport, lowerImport, Stmt.speltList, laid, laid_append, laid_str, placed,
      placed_append, placed_str, List.cons_append, List.append_assoc, List.nil_append]
    exact scans_lead ((scans_declareRequire hu ht).append (scans_importedList hu ht hnames))

theorem scans_exportDeclaration {form : ExportForm} (h : form.Built) {pos : Pos}
    (hn : Noted ρ p (printExportForm pos form)) {rest : List Char} :
    Scans ρ p (laid p (printExportForm pos form) ++ rest)
      (Stmt.speltList (lowerExportAt unknown pos form)) (placed p (printExportForm pos form))
      rest := by
  cases form with
  | default_ value =>
    have hdefault := isIdentifier_written "default" (by decide)
    have htext : "exports.default = ".toList =
        "exports".toList ++ (".".toList ++ ("default".toList ++ " = ".toList)) := rfl
    simp only [printExportForm, lowerExportAt, lowerExport, exportAssignment, Stmt.speltList,
      Stmt.spelt, laid, laid_append, laid_str, placed, placed_append, placed_str,
      List.cons_append, List.append_assoc, List.append_nil] at hn ⊢
    have hvalue : Noted ρ ((p.lead pos).right "exports.default = ".toList.length) value.print :=
      Noted.left hn.2
    rw [htext] at hvalue ⊢
    simp only [List.append_assoc, Pos.right_append] at hvalue ⊢
    exact scans_lead (scans_exportTarget hu hdefault
      ((Expr.scans (e := value) h hvalue (apart_semi _)).append (scans_semi .done)))
  | fn function isDefault =>
    obtain ⟨hsome, hbuilt⟩ := h
    obtain ⟨name, hname⟩ := Option.isSome_iff_exists.mp hsome
    have hword : IsName name := by
      obtain ⟨_, _, _, _⟩ := function
      exact hbuilt.1 name hname
    have he : isIdentifier (if isDefault then "default" else name).toList = true := by
      cases isDefault with
      | true => exact (Reader.isPropertyName_spelling .default_).1
      | false => exact hword.1
    simp only [printExportForm, lowerExportAt, lowerExport, hname, Stmt.speltList, Stmt.spelt, laid,
      laid_append, placed, placed_append, List.cons_append, List.append_assoc,
      List.append_nil] at hn ⊢
    exact scans_lead ((Function.scans hbuilt (Noted.left (P := function.print) hn.2)).append
      (scans_exported hu he hword.1))
  | declare name value =>
    obtain ⟨hname, hvalue⟩ := h
    have hdeclare : Stmt.Built (.declare pos name value) := ⟨hname.1, hvalue⟩
    have hprint : printExportForm pos (.declare name value) =
        (Stmt.declare pos name value).print ++ printExported pos name name := rfl
    simp only [hprint, lowerExportAt, Stmt.speltList, laid_append, placed_append,
      List.append_assoc, List.append_nil] at hn ⊢
    exact (Stmt.scans hdeclare hn.left).append (scans_exported hu hname.1 hname.1)
  | names pairs =>
    have hpairs : ∀ n ∈ pairs, isIdentifier n.1.toList = true ∧ isIdentifier n.2.toList = true :=
      fun n hn => ⟨(h n hn).1.1, (h n hn).2.1⟩
    cases pairs with
    | nil =>
      simp only [printExportForm, lowerExportAt, lowerExport, laid, placed, List.append_nil]
      exact scans_lead .done
    | cons n pairs =>
      obtain ⟨hname, he⟩ := hpairs n List.mem_cons_self
      simp only [printExportForm, lowerExportAt, lowerExport, List.map, Stmt.speltList, laid,
        laid_append, placed, placed_append, List.cons_append, List.append_assoc]
      exact scans_lead ((scans_export hu he hname).append
        (scans_exportedList hu fun m hm => hpairs m (List.mem_cons_of_mem _ hm)))

/-- A printed item is read as the tokens of the statements that it stands for. -/
theorem Item.scans {item : Item} (h : item.Built) {temps : Nat}
    (hn : Noted ρ p (item.print temps)) {rest : List Char} :
    Scans ρ p (laid p (item.print temps) ++ rest) (Stmt.speltList (item.lowerAt unknown temps))
      (placed p (item.print temps)) rest := by
  cases item with
  | stmt s =>
    simp only [Item.print, Item.lowerAt, Stmt.speltList, List.append_nil] at hn ⊢
    exact Stmt.scans h hn
  | import_ pos clause source =>
    exact scans_importDeclaration hu h (isIdentifier_importTemp temps) pos source
  | export_ pos form => exact scans_exportDeclaration hu h hn

end

theorem isPropertyName_default : Reader.IsPropertyName "default" :=
  Reader.isPropertyName_spelling .default_

theorem Stmt.speltList_append (ss ts : List Stmt) :
    Stmt.speltList (ss ++ ts) = Stmt.speltList ss ++ Stmt.speltList ts := by
  induction ss with
  | nil => rfl
  | cons s ss ih => simp only [List.cons_append, Stmt.speltList, ih, List.append_assoc]

theorem scans_printFrom {items : List Item} (h : ∀ item ∈ items, item.Built)
    {unknown : Item → Pos} (hu : ∀ item p, ρ p (unknown item)) {temps : Nat}
    (hn : Noted ρ p (printFrom temps items)) {rest : List Char} :
    Scans ρ p (laid p (printFrom temps items) ++ rest)
      (Stmt.speltList (lowerFromAt unknown temps items)) (placed p (printFrom temps items))
      rest := by
  induction items generalizing temps p with
  | nil => exact .done
  | cons item items ih =>
    simp only [printFrom, lowerFromAt, laid_append, placed_append, Stmt.speltList_append,
      List.append_assoc] at hn ⊢
    exact (Item.scans (hu item) (h item List.mem_cons_self) hn.left).append
      (ih (fun i hi => h i (List.mem_cons_of_mem _ hi)) hn.right)

/-- The code of a program is read as the tokens of the core program that it stands for. -/
theorem scans_code {items : List Item} (h : ∀ item ∈ items, item.Built) {unknown : Item → Pos}
    (hu : ∀ item p, ρ p (unknown item)) (hn : Noted ρ .start (printProgram items)) :
    ∃ q, Scans ρ .start (layOut (printProgram items)).code
      (Stmt.speltList (lowerAt unknown items)) q [] := by
  refine ⟨placed .start (printProgram items), ?_⟩
  rw [code_layOut, ← List.append_nil (laid _ _)]
  exact scans_printFrom h hu hn

/-! ## What an item stands for is a tree of the grammar -/

theorem isName_require : IsName "require" :=
  ⟨isIdentifier_written _ (by decide), rfl⟩

theorem isName_importDefault : IsName "__importDefault" :=
  ⟨isIdentifier_written _ (by decide), rfl⟩

theorem built_requireCall (pos : Pos) (source : String) : (requireCall pos source).Built :=
  ⟨isName_require, trivial, trivial⟩

theorem isName_importTemp (n : Nat) : IsName (importTemp n) := by
  refine ⟨isIdentifier_importTemp n, ?_⟩
  have hhead : (importTemp n).toList.head? = some '_' := by
    rw [importTemp, String.toList_append]
    rfl
  unfold Keyword.ofWord?
  split <;> first
    | rfl
    | (rename_i heq; rw [heq] at hhead; exact absurd hhead (by decide))

theorem isName_exports : IsName "exports" :=
  ⟨isIdentifier_written _ (by decide), rfl⟩

theorem built_exportAssignment {pos : Pos} {exported : String} {value : Expr}
    (he : Reader.IsPropertyName exported) (hv : value.Built) :
    (exportAssignment pos exported value).Built :=
  ⟨trivial, ⟨isName_exports, he⟩, hv⟩

theorem built_lowerImport {clause : ImportClause} (h : clause.Built) (temps : Nat) (pos : Pos)
    (source : String) : ∀ s ∈ lowerImport pos (importTemp temps) source clause, s.Built := by
  intro s hs
  cases clause with
  | sideEffect =>
    rw [lowerImport, List.mem_singleton] at hs
    rw [hs]
    exact built_requireCall pos source
  | default_ name =>
    rw [lowerImport, List.mem_singleton] at hs
    rw [hs]
    exact ⟨h.1, isName_importDefault, built_requireCall pos source, trivial⟩
  | namespace_ name =>
    rw [lowerImport, List.mem_singleton] at hs
    rw [hs]
    exact ⟨h.1, built_requireCall pos source⟩
  | named names =>
    rw [lowerImport, List.mem_cons, List.mem_map] at hs
    rcases hs with rfl | ⟨n, hn, rfl⟩
    · exact ⟨isIdentifier_importTemp temps, built_requireCall pos source⟩
    · exact ⟨(h n hn).2.1, isName_importTemp temps, (h n hn).1⟩

theorem built_lowerExport {form : ExportForm} (h : form.Built) (unknown pos : Pos) :
    ∀ s ∈ lowerExportAt unknown pos form, s.Built := by
  intro s hs
  cases form with
  | default_ value =>
    simp only [lowerExportAt, lowerExport, List.mem_singleton] at hs
    rw [hs]
    exact built_exportAssignment isPropertyName_default h
  | fn function isDefault =>
    obtain ⟨hsome, hbuilt⟩ := h
    obtain ⟨name, hname⟩ := Option.isSome_iff_exists.mp hsome
    have hn : IsName name := by
      obtain ⟨_, _, _, _⟩ := function
      exact hbuilt.1 name hname
    have he : Reader.IsPropertyName (if isDefault then "default" else name) := by
      cases isDefault with
      | true => exact isPropertyName_default
      | false => exact Reader.isPropertyName_of_isName hn
    simp only [lowerExportAt, lowerExport, hname, List.mem_cons, List.not_mem_nil,
      or_false] at hs
    rcases hs with rfl | rfl
    · exact ⟨hsome, hbuilt⟩
    · exact built_exportAssignment he hn
  | declare name value =>
    obtain ⟨hname, hvalue⟩ := h
    simp only [lowerExportAt, List.mem_cons, List.not_mem_nil, or_false] at hs
    rcases hs with rfl | rfl
    · exact ⟨hname.1, hvalue⟩
    · exact built_exportAssignment (Reader.isPropertyName_of_isName hname) hname
  | names pairs =>
    simp only [lowerExportAt, lowerExport, List.mem_map] at hs
    obtain ⟨n, hn, rfl⟩ := hs
    exact built_exportAssignment (h n hn).2 (h n hn).1

theorem built_lowerAt {items : List Item} (h : ∀ item ∈ items, item.Built)
    (unknown : Item → Pos) : Stmt.BuiltList (lowerAt unknown items) := by
  have hfrom : ∀ temps, ∀ s ∈ lowerFromAt unknown temps items, s.Built := by
    induction items with
    | nil => exact fun _ s hs => absurd hs List.not_mem_nil
    | cons item items ih =>
      intro temps s hs
      have hitem := h item List.mem_cons_self
      rw [lowerFromAt, List.mem_append] at hs
      rcases hs with hs | hs
      · cases item with
        | stmt t =>
          rw [Item.lowerAt, List.mem_singleton] at hs
          rw [hs]
          exact hitem
        | import_ pos clause source => exact built_lowerImport hitem temps _ source s hs
        | export_ pos form => exact built_lowerExport hitem _ pos s hs
      · exact ih (fun i hi => h i (List.mem_cons_of_mem _ hi)) _ s hs
  exact (Stmt.builtList_iff _).mpr (hfrom 0)

/-- The core program that a surface program stands for is one that the grammar gives. -/
theorem built_lower {items : List Item} (h : ∀ item ∈ items, item.Built) :
    Stmt.BuiltList (lower items) := lowerAt_pos items ▸ built_lowerAt h Item.pos

end Hotload.Syntax
