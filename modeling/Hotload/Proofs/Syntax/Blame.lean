import Mathlib
import Hotload.Proofs.Syntax.Precedence
import Hotload.Proofs.Syntax.Segments

/-!
# Where a text is refused

A reader stops at a token to come or at an expression that it has read, and an expression is told by a
token of it. So whatever holds of the positions of all tokens holds of the position of every fault.

* `Blames`: a reader that stops at positions of tokens only.
* `Nested.Blaming`: the readers of a nesting level do.
* `Dialect.Refuses`: a text is refused.
* `Points`: positions of the characters of a text and of its end.
* `points_of_refuses`: a text is refused for one of them.
-/

namespace Hotload.Syntax

open Reader

/-! ## Readers that stop at tokens -/

variable {P : Pos → Prop}

/-- The tokens to come have positions with the property, and so has the start of the text. -/
structure Cursor.On (P : Pos → Prop) (c : Cursor) : Prop where
  start : P .start
  rest : ∀ l ∈ c.rest, P l.pos

namespace Cursor.On

variable {c c' : Cursor}

theorem pos (h : c.On P) : P c.pos := by
  unfold Cursor.pos
  split
  · exact h.start
  · rename_i l ls hrest
    exact h.rest l (by rw [hrest]; exact List.mem_cons_self)

theorem advance (h : c.On P) : c.advance.On P :=
  ⟨h.start, fun l hl => h.rest l ((Cursor.took_advance_zero c).suffix.subset hl)⟩

end Cursor.On

section

variable {α β : Type} {Q : α → Prop} {R : β → Prop}

/-- If all tokens to come have positions with the property `P`, then so has the fault at which the
reader stops, or else what it gives has the property `Q`. -/
def Blames (P : Pos → Prop) (Q : α → Prop) (x : Reader α) : Prop :=
  ∀ c : Cursor, c.On P →
    (∀ e, x c = .error e → P e.pos) ∧ ∀ a c', x c = .ok (a, c') → c'.On P ∧ Q a

namespace Blames

theorem pure {a : α} (h : Q a) : Blames P Q (Pure.pure a) := by
  refine fun c hc => ⟨nofun, ?_⟩
  rintro a c' ⟨⟩
  exact ⟨hc, h⟩

theorem fail (fault : Fault) {pos : Pos} (h : P pos) : Blames P Q (Reader.fail fault pos) := by
  refine fun c hc => ⟨?_, nofun⟩
  rintro e ⟨⟩
  exact h

theorem unexpected (expected : Expected) : Blames P Q (Reader.unexpected expected) := by
  refine fun c hc => ⟨?_, nofun⟩
  rintro e ⟨⟩
  exact hc.pos

theorem bind {x : Reader α} {k : α → Reader β} (hx : Blames P Q x) (hk : ∀ a, Q a → Blames P R (k a)) :
    Blames P R (x >>= k) := by
  intro c hc
  obtain ⟨herror, hok⟩ := hx c hc
  rw [bind_apply]
  cases hxc : x c with
  | error e =>
    refine ⟨?_, nofun⟩
    rintro e' ⟨⟩
    exact herror e hxc
  | ok r =>
    obtain ⟨hc', ha⟩ := hok r.1 r.2 hxc
    exact hk r.1 ha r.2 hc'

theorem token {k : Token → Reader β} (h : ∀ t, Blames P R (k t)) : Blames P R (Reader.token >>= k) :=
  fun c => h c.token c

theorem here {k : Pos → Reader β} (h : ∀ pos, P pos → Blames P R (k pos)) :
    Blames P R (Reader.here >>= k) :=
  fun c hc => h c.pos hc.pos c hc

theorem get {k : Cursor → Reader β} (h : ∀ c, Blames P R (k c)) :
    Blames P R ((MonadState.get : Reader Cursor) >>= k) :=
  fun c => h c c

theorem check {m : Mark} {k : Bool → Reader β} (h : ∀ b, Blames P R (k b)) :
    Blames P R (Reader.check m >>= k) :=
  fun c => h (c.token.isMark m) c

theorem checkKeyword {w : Keyword} {k : Bool → Reader β} (h : ∀ b, Blames P R (k b)) :
    Blames P R (Reader.checkKeyword w >>= k) :=
  fun c => h (c.token.isKeyword w) c

theorem passed : Blames P (fun _ => True) Reader.advance := by
  refine fun c hc => ⟨nofun, ?_⟩
  rintro a c' ⟨⟩
  exact ⟨hc.advance, trivial⟩

theorem advance {k : Unit → Reader β} (h : Blames P R (k ())) : Blames P R (Reader.advance >>= k) :=
  fun c hc => h c.advance hc.advance

theorem eat {m : Mark} {k : Bool → Reader β} (h : ∀ b, Blames P R (k b)) :
    Blames P R (Reader.eat m >>= k) := by
  intro c hc
  rw [eat_bind]
  split
  · exact h true c.advance hc.advance
  · exact h false c hc

theorem expect {m : Mark} {k : Unit → Reader β} (h : Blames P R (k ())) :
    Blames P R (Reader.expect m >>= k) := by
  intro c hc
  rw [expect_bind]
  split
  · exact h c.advance hc.advance
  · refine ⟨?_, nofun⟩
    rintro e ⟨⟩
    exact hc.pos

theorem expectKeyword {w : Keyword} {k : Unit → Reader β} (h : Blames P R (k ())) :
    Blames P R (Reader.expectKeyword w >>= k) := by
  intro c hc
  rw [expectKeyword_bind]
  split
  · exact h c.advance hc.advance
  · refine ⟨?_, nofun⟩
    rintro e ⟨⟩
    exact hc.pos

theorem rounds {σ : Type} {round : σ → Reader (Round σ)} {I : σ → Prop}
    (h : ∀ s, I s → Blames P (fun r => I r.state) (round s)) (ls : List Lexeme) {s : σ} (hs : I s) :
    Blames P I (Reader.rounds round ls s) := by
  induction ls generalizing s with
  | nil =>
    refine (h s hs).bind fun r hr => ?_
    cases r with
    | again s' => exact .pure hr
    | done s' => exact .pure hr
  | cons l ls ih =>
    refine (h s hs).bind fun r hr => ?_
    cases r with
    | again s' => exact ih hr
    | done s' => exact .pure hr

/-- What every round keeps holds after the repetition, wherever it ends. -/
theorem loop {σ : Type} {round : σ → Reader (Round σ)} {I : σ → Prop}
    (h : ∀ s, I s → Blames P (fun r => I r.state) (round s)) {s : σ} (hs : I s) :
    Blames P I (Reader.loop round s) :=
  .get fun c => rounds h c.rest hs

theorem list {round : List α → Reader (Round (List α))}
    (h : ∀ found, Blames P (fun _ => True) (round found)) :
    Blames P (fun _ => True) (do
      let found ← Reader.loop round []
      return found.reverse) :=
  (loop (I := fun _ => True) (fun found _ => h found) trivial).bind fun _ _ => .pure trivial

theorem commaList {item : Reader α} (h : Blames P Q item) (close : Mark) :
    Blames P (fun _ => True) (Reader.commaList close item) := by
  refine list fun found => .check fun b => ?_
  split
  · exact .pure trivial
  · refine h.bind fun x _ => .eat fun b => ?_
    split
    · exact .pure trivial
    · exact .pure trivial

end Blames

end

/-! ## The grammar -/

theorem blames_ident (e : Expected) : Blames P (fun _ => True) (ident e) := by
  refine .token fun t => ?_
  split
  · exact .advance (.pure trivial)
  · exact .unexpected e

theorem blames_string (e : Expected) : Blames P (fun _ => True) (Reader.string e) := by
  refine .token fun t => ?_
  split
  · exact .advance (.pure trivial)
  · exact .unexpected e

theorem blames_propertyName : Blames P (fun _ => True) propertyName := by
  refine .token fun t => ?_
  split
  · exact .advance (.pure trivial)
  · exact .advance (.pure trivial)
  · exact .unexpected _

theorem blames_endStatement : Blames P (fun _ => True) endStatement := by
  refine .eat fun b => ?_
  split
  · exact .pure trivial
  · refine .get fun c => ?_
    split
    · exact .pure trivial
    · exact .unexpected _

theorem blames_skipAnnotation : Blames P (fun _ => True) skipAnnotation := by
  have hbrackets : Blames P (fun _ => True) (loop bracketsRound ()) := by
    refine .loop (I := fun _ => True) (fun _ _ => .check fun b => .get fun c => ?_) trivial
    split
    · exact .advance (.advance (.pure trivial))
    · exact .pure trivial
  refine .eat fun b => ?_
  split
  · refine .token fun t => ?_
    split
    · exact .advance hbrackets
    · exact .advance hbrackets
    · exact Blames.bind (Q := fun _ => True) (.unexpected _) fun _ _ => hbrackets
  · exact .pure trivial

/-- The expression is told by a position with the property. -/
def Expr.At (P : Pos → Prop) (e : Expr) : Prop := P e.pos

/-- A chain of operators is told by an operand. -/
theorem Chained.at_ {n : Nat} {e : Expr} (h : Chained (Expr.At P) n e) : e.At P := by
  induction h with
  | operand h => exact h
  | binary _ _ _ ih => exact ih

namespace Nested

/-- The readers stop at positions of tokens, and their expressions are told by such positions. -/
structure Blaming (P : Pos → Prop) (inner : Nested) : Prop where
  block : Blames P (fun _ => True) inner.block
  conditional : Blames P (fun _ => True) inner.conditional
  operand : Blames P (Expr.At P) inner.operand

variable {inner : Nested} (h : inner.Blaming P)

include h

theorem blames_binary (levels least : Nat) : Blames P (Expr.At P) (inner.binary levels least) := by
  induction levels generalizing least with
  | zero => exact h.operand
  | succ levels ih =>
    refine h.operand.bind fun first hfirst => .loop (fun lhs hlhs => .token fun t => ?_) hfirst
    split
    · exact .pure hlhs
    · split
      · exact .pure hlhs
      · exact .advance ((ih _).bind fun rhs _ => .pure hlhs)

theorem blames_expression : Blames P (Expr.At P) inner.expression := blames_binary h _ _

theorem blames_function : Blames P (fun _ => True) inner.function := by
  have htail (pos : Pos) (name : Option String) : Blames P (fun _ => True) (do
      expect .lparen
      let params ← commaList .rparen parameter
      expect .rparen
      skipAnnotation
      let body ← inner.block
      return Function.mk pos name params body) := by
    have hparameter : Blames P (fun _ => True) parameter :=
      (blames_ident _).bind fun _ _ => blames_skipAnnotation.bind fun _ _ => .pure trivial
    refine .expect ((Blames.commaList hparameter _).bind fun params _ => .expect ?_)
    refine blames_skipAnnotation.bind fun _ _ => h.block.bind fun body _ => .pure trivial
  refine .here fun pos hpos => .expectKeyword (.token fun t => ?_)
  split
  · exact .advance (htail pos _)
  · exact htail pos none

theorem blames_field : Blames P (fun _ => True) inner.field := by
  have htail (pos : Pos) (key : String) : Blames P (fun _ => True) (do
      if ← eat .colon then
        return (key, ← inner.expression)
      else
        return (key, .ident pos key)) := by
    refine .eat fun b => ?_
    split
    · exact (blames_expression h).bind fun _ _ => .pure trivial
    · exact .pure trivial
  refine .here fun pos _ => .token fun t => ?_
  split
  · exact .advance (htail pos _)
  · exact blames_propertyName.bind fun key _ => htail pos key

theorem blames_arguments (close : Mark) : Blames P (fun _ => True) (inner.arguments close) :=
  (Blames.commaList (blames_expression h) close).bind fun _ _ => .expect (.pure trivial)

theorem blames_primary : Blames P (Expr.At P) inner.primary := by
  refine .here fun pos hpos => .token fun t => ?_
  split
  · exact .advance (.pure hpos)
  · exact .advance (.pure hpos)
  · exact .advance (.pure hpos)
  · exact .advance (.pure hpos)
  · exact .advance (.pure hpos)
  · exact .advance (.pure hpos)
  · exact (blames_function h).bind fun _ _ => .pure hpos
  · exact .advance ((blames_expression h).bind fun e he => .expect (.pure he))
  · exact .advance ((blames_arguments h _).bind fun _ _ => .pure hpos)
  · exact .advance ((Blames.commaList (blames_field h) _).bind fun _ _ => .expect (.pure hpos))
  · exact .unexpected _

theorem blames_accesses : Blames P (Expr.At P) inner.accesses := by
  refine (blames_primary h).bind fun e he => .loop (fun e he => .here fun pos hpos => .token fun t => ?_) he
  split
  · exact .advance ((blames_arguments h _).bind fun _ _ => .pure hpos)
  · exact .advance (blames_propertyName.bind fun _ _ => .pure hpos)
  · exact .advance ((blames_expression h).bind fun _ _ => .expect (.pure hpos))
  · exact .pure he

theorem blames_operandBody : Blames P (Expr.At P) inner.operandBody := by
  refine .here fun pos hpos => .token fun t => ?_
  split
  · exact .advance (h.operand.bind fun _ _ => .pure hpos)
  · exact .advance (h.operand.bind fun _ _ => .pure hpos)
  · exact blames_accesses h

theorem blames_declaration : Blames P (fun _ => True) inner.declaration := by
  refine (blames_ident _).bind fun _ _ => blames_skipAnnotation.bind fun _ _ => .expect ?_
  exact (blames_expression h).bind fun _ _ => blames_endStatement.bind fun _ _ => .pure trivial

/-- What is no target of an assignment is blamed for the expression that it is. -/
theorem blames_expressionStatement (pos : Pos) :
    Blames P (fun _ => True) (inner.expressionStatement pos) := by
  refine (blames_expression h).bind fun e he => .eat fun b => ?_
  have hassign : Blames P (fun _ => True) (do
      let value ← inner.expression
      endStatement
      return Stmt.assign pos e value) :=
    (blames_expression h).bind fun _ _ => blames_endStatement.bind fun _ _ => .pure trivial
  split
  · split
    · exact hassign
    · exact hassign
    · exact hassign
    · exact .fail _ he
  · exact blames_endStatement.bind fun _ _ => .pure trivial

theorem blames_statement : Blames P (fun _ => True) inner.statement := by
  refine .here fun pos hpos => .token fun t => ?_
  split
  · exact .advance ((blames_declaration h).bind fun _ _ => .pure trivial)
  · refine .get fun c => ?_
    split
    · exact (blames_function h).bind fun _ _ => .pure trivial
    · exact blames_expressionStatement h pos
  · refine .advance (.check fun b => ?_)
    split
    · exact blames_endStatement.bind fun _ _ => .pure trivial
    · refine .check fun b => ?_
      split
      · exact .pure trivial
      · refine (blames_expression h).bind fun value _ => .check fun b => ?_
        split
        · exact .pure trivial
        · exact blames_endStatement.bind fun _ _ => .pure trivial
  · refine .advance ((blames_expression h).bind fun _ _ => ?_)
    exact blames_endStatement.bind fun _ _ => .pure trivial
  · exact h.conditional
  · exact blames_expressionStatement h pos

theorem blames_blockBody (dialect : Dialect) : Blames P (fun _ => True) (inner.blockBody dialect) := by
  refine .expect (Blames.bind (Q := fun _ => True) ?_ fun _ _ => .advance (.pure trivial))
  refine .loop (I := fun _ => True) (fun found _ => .check fun b => ?_) trivial
  split
  · exact .pure trivial
  · refine .token fun t => ?_
    split
    · exact .unexpected _
    · exact .advance (.pure trivial)
    · exact .here fun pos hpos => .fail _ hpos
    · exact .here fun pos hpos => .fail _ hpos
    · exact (blames_statement h).bind fun _ _ => .pure trivial

theorem blames_conditionalBody : Blames P (fun _ => True) inner.conditionalBody := by
  refine .here fun pos _ => .expectKeyword (.expect ?_)
  refine (blames_expression h).bind fun cond _ => .expect (h.block.bind fun body _ => ?_)
  refine .checkKeyword fun b => ?_
  split
  · refine .advance (.checkKeyword fun b => ?_)
    split
    · exact h.conditional.bind fun _ _ => .pure trivial
    · exact h.block.bind fun _ _ => .pure trivial
  · exact .pure trivial

omit h

theorem blaming_ofDepth (P : Pos → Prop) (dialect : Dialect) (depth : Nat) :
    (ofDepth dialect depth).Blaming P := by
  induction depth with
  | zero =>
    exact ⟨.here fun _ hpos => .fail _ hpos, .here fun _ hpos => .fail _ hpos,
      .here fun _ hpos => .fail _ hpos⟩
  | succ depth ih => exact ⟨blames_blockBody ih dialect, blames_conditionalBody ih, blames_operandBody ih⟩

/-! ### Programs -/

theorem blames_nameList {first second : Reader String} (hfirst : Blames P (fun _ => True) first)
    (hsecond : Blames P (fun _ => True) second) :
    Blames P (fun _ => True) (nameList (paired first second)) := by
  refine .expect (Blames.bind (Q := fun _ => True) (.commaList (Q := fun _ => True) ?_ _)
    fun _ _ => .expect (.pure trivial))
  refine hfirst.bind fun name _ => .checkKeyword fun b => ?_
  split
  · exact .advance (hsecond.bind fun _ _ => .pure trivial)
  · exact .pure trivial

theorem blames_importClause : Blames P (fun _ => True) importClause := by
  refine .token fun t => ?_
  split
  · exact .advance (.pure trivial)
  · exact .advance (.expectKeyword ((blames_ident _).bind fun _ _ => .pure trivial))
  · exact (blames_nameList blames_propertyName (blames_ident _)).bind fun _ _ => .pure trivial
  · exact .unexpected _

theorem blames_importDeclaration : Blames P (fun _ => True) importDeclaration := by
  refine .here fun pos _ => .expectKeyword (.token fun t => ?_)
  split
  · exact .advance (blames_endStatement.bind fun _ _ => .pure trivial)
  · refine blames_importClause.bind fun _ _ => .expectKeyword ?_
    exact (blames_string _).bind fun _ _ => blames_endStatement.bind fun _ _ => .pure trivial

variable {inner : Nested}

theorem blames_exportForm (h : inner.Blaming P) : Blames P (fun _ => True) inner.exportForm := by
  refine .token fun t => ?_
  split
  · refine .advance (.checkKeyword fun b => .get fun c => ?_)
    split
    · exact (blames_function h).bind fun _ _ => .pure trivial
    · refine (blames_expression h).bind fun _ _ => ?_
      exact blames_endStatement.bind fun _ _ => .pure trivial
  · refine .get fun c => ?_
    split
    · exact (blames_function h).bind fun _ _ => .pure trivial
    · exact .here fun pos hpos => .fail _ hpos
  · exact .advance ((blames_declaration h).bind fun _ _ => .pure trivial)
  · exact (blames_nameList (blames_ident _) blames_propertyName).bind fun _ _ => blames_endStatement.bind fun _ _ => .pure trivial
  · exact .unexpected _

theorem blames_coreElement (h : inner.Blaming P) : Blames P (fun _ => True) inner.coreElement := by
  refine .token fun t => ?_
  split
  · exact .here fun pos hpos => .fail _ hpos
  · exact .here fun pos hpos => .fail _ hpos
  · exact blames_statement h

theorem blames_surfaceElement (h : inner.Blaming P) :
    Blames P (fun _ => True) inner.surfaceElement := by
  refine .token fun t => ?_
  split
  · exact blames_importDeclaration
  · refine .here fun pos _ => .expectKeyword ?_
    exact (blames_exportForm h).bind fun _ _ => .pure trivial
  · exact (blames_statement h).bind fun _ _ => .pure trivial

theorem blames_elements {α : Type} {element : Reader α} (h : Blames P (fun _ => True) element) :
    Blames P (fun _ => True) (elements element) := by
  refine .list fun found => .token fun t => ?_
  split
  · exact .pure trivial
  · exact .advance (.pure trivial)
  · exact h.bind fun _ _ => .pure trivial

end Nested

/-! ## Texts -/

/-- The text is no program of the dialect, for this fault. -/
def Dialect.Refuses (source : List Char) (e : SyntaxError) : Dialect → Prop
  | core => parseCore source = .error e
  | surface => parseSurface source = .error e

/-- The position is that of a character or of the end of the text, and it is not inside a line ending of
two characters. -/
def Points (source : List Char) (p : Pos) : Prop :=
  ∃ front rest, source = front ++ rest ∧ p = .behind front ∧
    (rest.head? = some '\n' → front.getLast? ≠ some '\r')

theorem points_start (source : List Char) : Points source .start :=
  ⟨[], source, rfl, rfl, fun _ => nofun⟩

theorem Within.points {source : List Char} {p : Pos} (h : Within .start source p) :
    Points source p := by
  obtain ⟨front, rest, rfl, rfl, hlast⟩ := h
  refine ⟨front, rest, rfl, Pos.after_behind [] front, fun hhead => ?_⟩
  rw [hlast hhead]
  exact nofun

theorem points_of_mem_lexemes {source : List Char} {ls : List Lexeme}
    (h : lexemes .start source = .ok ls) : ∀ l ∈ ls, Points source l.pos := by
  obtain ⟨segments, rfl, hfitting, rfl⟩ := @exists_fitting [] _ _ h
  intro l hl
  obtain ⟨front, rest, hsplit, hpos, hhead⟩ := pos_of_mem_lexemesBehind hfitting hl
  exact ⟨front, rest, hsplit, hpos, fun he => absurd he hhead⟩

/-- A reader stops where the lexer stops, or else at a token. -/
theorem points_of_run {α : Type} {reader : Reader α} {source : List Char} {e : SyntaxError}
    (h : Blames (Points source) (fun _ => True) reader) (he : reader.run source = .error e) :
    Points source e.pos := by
  rw [run_eq] at he
  cases hls : lexemes .start source with
  | error e' =>
    rw [hls] at he
    cases he
    exact (within_of_lexemes hls).points
  | ok ls =>
    have hon : (Cursor.mk none ls).On (Points source) := ⟨points_start source, points_of_mem_lexemes hls⟩
    rw [hls, Except.bind] at he
    cases hx : reader ⟨none, ls⟩ with
    | error e' =>
      rw [hx] at he
      cases he
      exact (h _ hon).1 e hx
    | ok r =>
      rw [hx] at he
      cases he

theorem points_of_refuses {dialect : Dialect} {source : List Char} {e : SyntaxError}
    (h : dialect.Refuses source e) : Points source e.pos := by
  cases dialect with
  | core => exact points_of_run (Nested.blames_elements
      (Nested.blames_coreElement (Nested.blaming_ofDepth _ .core maxNesting))) h
  | surface => exact points_of_run (Nested.blames_elements
      (Nested.blames_surfaceElement (Nested.blaming_ofDepth _ .surface maxNesting))) h

end Hotload.Syntax
