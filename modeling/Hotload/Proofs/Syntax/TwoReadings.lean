import Mathlib
import Hotload.Proofs.Syntax.Grammar

/-!
# Two readings side by side

Two runs of the grammar over the same tokens give the same tree or both stop. The tokens may differ
in where the text ends, since no tree says where that is; and the readers may differ in how they
refuse a module declaration, since either way they stop.

* `Agree`: both computations stop, or what they give is related.
* `Cursor.Same`: cursors at the same tokens, wherever the text ends.
* `Nested.Concurs`: readers of a nesting level that agree.
* `concurs_ofDepth`: those of the two dialects do, at every nesting level.
-/

namespace Hotload.Syntax

/-- Both computations stop, or both give something and the relation holds of it. -/
inductive Agree {α β : Type} (R : α → β → Prop) :
    Except SyntaxError α → Except SyntaxError β → Prop
  | stopped (e e' : SyntaxError) : Agree R (.error e) (.error e')
  | given {a : α} {b : β} (h : R a b) : Agree R (.ok a) (.ok b)

namespace Agree

variable {α β γ δ : Type} {R : α → β → Prop} {S : γ → δ → Prop}

theorem bind {x : Except SyntaxError α} {y : Except SyntaxError β} {f : α → Except SyntaxError γ}
    {g : β → Except SyntaxError δ} (hx : Agree R x y) (hf : ∀ a b, R a b → Agree S (f a) (g b)) :
    Agree S (x.bind f) (y.bind g) := by
  cases hx with
  | stopped e e' => exact .stopped e e'
  | given h => exact hf _ _ h

theorem map {x : Except SyntaxError α} {y : Except SyntaxError β} {f : α → γ} {g : β → δ}
    (hx : Agree R x y) (hf : ∀ a b, R a b → S (f a) (g b)) : Agree S (x.map f) (y.map g) := by
  cases hx with
  | stopped e e' => exact .stopped e e'
  | given h => exact .given (hf _ _ h)

theorem of_error {e : SyntaxError} {y : Except SyntaxError β} (h : Agree R (.error e) y) :
    ∃ e', y = .error e' := by
  cases h with
  | stopped _ e' => exact ⟨e', rfl⟩

theorem of_ok {a : α} {y : Except SyntaxError β} (h : Agree R (.ok a) y) :
    ∃ b, y = .ok b ∧ R a b := by
  cases h with
  | given h => exact ⟨_, rfl, h⟩

/-- Computations that agree on equality give the same. -/
theorem ok_iff {x y : Except SyntaxError α} (h : Agree Eq x y) (a : α) : x = .ok a ↔ y = .ok a := by
  cases h with
  | stopped e e' => simp
  | given h => rw [h]

end Agree

/-- The same token at the same position, except that the text may end elsewhere. -/
structure Lexeme.Same (l l' : Lexeme) : Prop where
  token : l.token = l'.token
  pos : l.token.isEof = false → l.pos = l'.pos

/-- Cursors at the same tokens, except that the text may end elsewhere. -/
structure Cursor.Same (c c' : Cursor) : Prop where
  previous : c.previous = c'.previous
  rest : List.Forall₂ Lexeme.Same c.rest c'.rest

namespace Cursor

theorem Same.refl (c : Cursor) : c.Same c :=
  ⟨rfl, List.forall₂_same.mpr fun _ _ => ⟨rfl, fun _ => rfl⟩⟩

theorem same_cases {c c' : Cursor} (h : c.Same c') :
    (c.rest = [] ∧ c'.rest = []) ∨
      ∃ l l' ls ls', c.rest = l :: ls ∧ c'.rest = l' :: ls' ∧ l.Same l' ∧
        List.Forall₂ Lexeme.Same ls ls' := by
  obtain ⟨previous, ls⟩ := c
  obtain ⟨previous', ls'⟩ := c'
  cases h.rest with
  | nil => exact .inl ⟨rfl, rfl⟩
  | cons hl hls => exact .inr ⟨_, _, _, _, rfl, rfl, hl, hls⟩

variable {c c' : Cursor}

theorem Same.token (h : c.Same c') : c'.token = c.token := by
  rcases same_cases h with ⟨hc, hc'⟩ | ⟨l, l', ls, ls', hc, hc', hl, -⟩
  · simp only [Cursor.token, hc, hc']
  · simp only [Cursor.token, hc, hc', hl.token]

theorem Same.second (h : c.Same c') : c'.second = c.second := by
  rcases same_cases h with ⟨hc, hc'⟩ | ⟨l, l', ls, ls', hc, hc', -, hls⟩
  · simp only [Cursor.second, hc, hc', h.token]
  · cases hls with
    | nil => simp only [Cursor.second, hc, hc', h.token]
    | cons hl _ => simp only [Cursor.second, hc, hc', hl.token]

theorem Same.pos (h : c.Same c') (ht : c.token.isEof = false) : c'.pos = c.pos := by
  rcases same_cases h with ⟨hc, hc'⟩ | ⟨l, l', ls, ls', hc, hc', hl, -⟩
  · simp only [Cursor.pos, hc, hc']
  · simp only [Cursor.token, hc] at ht
    simp only [Cursor.pos, hc, hc', hl.pos ht]

theorem Same.advance (h : c.Same c') : c.advance.Same c'.advance := by
  rcases same_cases h with ⟨hc, hc'⟩ | ⟨l, l', ls, ls', hc, hc', hl, hls⟩
  · simpa only [Cursor.advance, hc, hc'] using h
  · simp only [Cursor.advance, hc, hc', ← hl.token]
    split
    · exact h
    · exact ⟨rfl, hls⟩

end Cursor

/-! ## Readers that agree -/

namespace Reader

variable {α β σ : Type}

/-- The same value, and cursors at the same tokens. -/
def SameResult (r r' : α × Cursor) : Prop := r.1 = r'.1 ∧ r.2.Same r'.2

/-- Wherever the readers read the same tokens, both stop, or they give the same value and go on at
the same tokens. -/
def Concurs (x y : Reader α) : Prop := ∀ c c', c.Same c' → Agree SameResult (x c) (y c')

namespace Concurs

theorem pure (a : α) : Concurs (Pure.pure a) (Pure.pure a) := fun _ _ h => .given ⟨rfl, h⟩

theorem fail (f f' : Fault) (p p' : Pos) :
    Concurs (Reader.fail f p : Reader α) (Reader.fail f' p') :=
  fun _ _ _ => .stopped _ _

theorem unexpected (e : Expected) : Concurs (Reader.unexpected e : Reader α) (Reader.unexpected e) :=
  fun _ _ _ => .stopped _ _

theorem bind {x y : Reader α} {f g : α → Reader β} (hx : Concurs x y)
    (hf : ∀ a, Concurs (f a) (g a)) : Concurs (x >>= f) (y >>= g) := by
  intro c c' h
  refine Agree.bind (hx c c' h) ?_
  rintro ⟨a, d⟩ ⟨b, d'⟩ ⟨rfl, hd⟩
  exact hf a d d' hd

theorem token : Concurs Reader.token Reader.token := fun _ _ h => .given ⟨h.token.symm, h⟩

theorem get {f g : Cursor → Reader β} (hf : ∀ c c', c.Same c' → Concurs (f c) (g c')) :
    Concurs (MonadState.get >>= f) (MonadState.get >>= g) :=
  fun c c' h => hf c c' h c c' h

/-- Where the text ends, nothing may come of the position. -/
theorem here {f g : Pos → Reader β} (hf : ∀ p, Concurs (f p) (g p))
    (heof : ∀ c c', c.Same c' → c.token = .eof → ∀ p p', Agree SameResult (f p c) (g p' c')) :
    Concurs (Reader.here >>= f) (Reader.here >>= g) := by
  intro c c' h
  change Agree SameResult (f c.pos c) (g c'.pos c')
  cases ht : c.token.isEof with
  | false =>
    rw [h.pos ht]
    exact hf c.pos c c' h
  | true =>
    refine heof c c' h ?_ _ _
    cases hc : c.token <;> simp_all [Token.isEof]

theorem advance : Concurs Reader.advance Reader.advance := fun _ _ h => .given ⟨rfl, h.advance⟩

theorem check (m : Mark) : Concurs (Reader.check m) (Reader.check m) :=
  .bind .token fun _ => .pure _

theorem checkKeyword (k : Keyword) : Concurs (Reader.checkKeyword k) (Reader.checkKeyword k) :=
  .bind .token fun _ => .pure _

theorem ite {b : Bool} {x y x' y' : Reader α} (ht : Concurs x x') (hf : Concurs y y') :
    Concurs (if b then x else y) (if b then x' else y') := by
  cases b
  · exact hf
  · exact ht

theorem eat (m : Mark) : Concurs (Reader.eat m) (Reader.eat m) :=
  .bind (.check m) fun _ => .ite (.bind .advance fun _ => .pure true) (.pure false)

theorem expect (m : Mark) : Concurs (Reader.expect m) (Reader.expect m) :=
  .bind (.check m) fun _ => .ite .advance (.unexpected _)

theorem expectKeyword (k : Keyword) : Concurs (Reader.expectKeyword k) (Reader.expectKeyword k) :=
  .bind (.checkKeyword k) fun _ => .ite .advance (.unexpected _)

theorem ident (e : Expected) : Concurs (Reader.ident e) (Reader.ident e) := by
  refine .bind .token fun t => ?_
  split
  · exact .bind .advance fun _ => .pure _
  · exact .unexpected e

theorem propertyName : Concurs Reader.propertyName Reader.propertyName := by
  refine .bind .token fun t => ?_
  split
  · exact .bind .advance fun _ => .pure _
  · exact .bind .advance fun _ => .pure _
  · exact .unexpected _

theorem endStatement : Concurs Reader.endStatement Reader.endStatement := by
  refine .bind (.eat _) fun b => .ite (.pure ()) ?_
  refine .get fun c c' h => ?_
  rw [← h.previous]
  split
  · exact .pure ()
  · exact .unexpected _

/-! ## Repetition -/

theorem rounds {round round' : σ → Reader (Round σ)} (h : ∀ s, Concurs (round s) (round' s))
    {ls ls' : List Lexeme} (hls : List.Forall₂ Lexeme.Same ls ls') (s : σ) :
    Concurs (Reader.rounds round ls s) (Reader.rounds round' ls' s) := by
  induction hls generalizing s with
  | nil =>
    refine .bind (h s) fun r => ?_
    cases r <;> exact .pure _
  | cons _ _ ih =>
    refine .bind (h s) fun r => ?_
    cases r with
    | again s' => exact ih s'
    | done s' => exact .pure s'

theorem loop {round round' : σ → Reader (Round σ)} (h : ∀ s, Concurs (round s) (round' s)) (s : σ) :
    Concurs (Reader.loop round s) (Reader.loop round' s) :=
  .get fun _ _ hc => .rounds h hc.rest s

theorem commaList {close : Mark} {item item' : Reader α} (h : Concurs item item') :
    Concurs (Reader.commaList close item) (Reader.commaList close item') := by
  refine .bind (.loop (fun found => ?_) []) fun found => .pure _
  refine .bind (.check close) fun b => .ite (.pure _) ?_
  refine .bind h fun x => .bind (.eat .comma) fun b => ?_
  exact .ite (.pure _) (.pure _)

theorem skipped : Concurs Reader.skipAnnotation Reader.skipAnnotation := by
  have hbrackets : Concurs (Reader.loop bracketsRound ()) (Reader.loop bracketsRound ()) := by
    refine .loop (fun _ => ?_) ()
    refine .bind (.check .lbracket) fun b => .get fun c c' h => ?_
    rw [h.second]
    exact .ite (.bind .advance fun _ => .bind .advance fun _ => .pure _) (.pure _)
  refine .bind (.eat .colon) fun b => .ite ?_ (.pure ())
  refine .bind .token fun t => ?_
  split
  · exact .bind .advance fun _ => hbrackets
  · exact .bind .advance fun _ => hbrackets
  · exact .bind (.unexpected _) fun _ => hbrackets

/-- Readers that stop with a fault at the next token agree. -/
theorem failHere (f f' : Fault) :
    Concurs (do Reader.fail f (← Reader.here) : Reader α) (do Reader.fail f' (← Reader.here)) :=
  .here (fun _ => .fail f f' _ _) fun _ _ _ _ _ _ => .stopped _ _

end Concurs

/-- The reader stops at this cursor. -/
def Stops (x : Reader α) (c : Cursor) : Prop := ∃ e, x c = .error e

theorem Stops.bind {x : Reader α} {c : Cursor} (h : Stops x c) (f : α → Reader β) :
    Stops (x >>= f) c := by
  obtain ⟨e, he⟩ := h
  exact ⟨e, by rw [bind_apply, he]; rfl⟩

theorem Stops.agree {x y : Reader α} {c c' : Cursor} (hx : Stops x c) (hy : Stops y c') :
    Agree SameResult (x c) (y c') := by
  obtain ⟨e, he⟩ := hx
  obtain ⟨e', he'⟩ := hy
  rw [he, he']
  exact .stopped e e'

theorem Stops.of_concurs {x y : Reader α} (h : Concurs x y) {c c' : Cursor} (hc : c.Same c')
    (hx : Stops x c) : Stops y c' := by
  obtain ⟨e, he⟩ := hx
  exact (he ▸ h c c' hc).of_error

theorem stops_expectKeyword (k : Keyword) {c : Cursor} (h : c.token = .eof) :
    Stops (expectKeyword k) c :=
  ⟨_, by rw [expectKeyword, checkKeyword_bind, h]; rfl⟩

theorem stops_propertyName {c : Cursor} (h : c.token = .eof) : Stops propertyName c :=
  ⟨_, by rw [propertyName, token_bind, h]; rfl⟩

end Reader

/-! ## The grammar -/

open Reader

namespace Nested

/-- The readers of two nesting levels agree, and no operand begins where the text ends. -/
structure Concurs (inner inner' : Nested) : Prop where
  block : inner.block.Concurs inner'.block
  conditional : inner.conditional.Concurs inner'.conditional
  operand : inner.operand.Concurs inner'.operand
  stops : ∀ c, c.token = .eof → Stops inner.operand c

namespace Concurs

variable {inner inner' : Nested} (h : inner.Concurs inner')

include h

theorem binary (levels least : Nat) :
    (inner.binary levels least).Concurs (inner'.binary levels least) := by
  induction levels generalizing least with
  | zero => exact h.operand
  | succ levels ih =>
    refine .bind h.operand fun first => .loop (fun lhs => .bind .token fun t => ?_) first
    split
    · exact .pure _
    · rename_i op _
      by_cases hlevel : op.level < least
      · rw [if_pos hlevel, if_pos hlevel]
        exact .pure _
      · rw [if_neg hlevel, if_neg hlevel]
        exact .bind .advance fun _ => .bind (ih _) fun rhs => .pure _

theorem expression : inner.expression.Concurs inner'.expression := h.binary _ _

theorem function : inner.function.Concurs inner'.function := by
  refine .here (fun pos => ?_) fun c c' hc ht p p' => ?_
  · have htail (name : Option String) : Reader.Concurs
        (do
          expect .lparen
          let params ← commaList .rparen parameter
          expect .rparen
          skipAnnotation
          return Function.mk pos name params (← inner.block))
        (do
          expect .lparen
          let params ← commaList .rparen parameter
          expect .rparen
          skipAnnotation
          return Function.mk pos name params (← inner'.block)) := by
      refine .bind (.expect .lparen) fun _ => .bind (.commaList ?_) fun params => ?_
      · exact .bind (.ident _) fun param => .bind .skipped fun _ => .pure _
      · refine .bind (.expect .rparen) fun _ => .bind .skipped fun _ => ?_
        exact .bind h.block fun body => .pure _
    refine .bind (.expectKeyword .fn) fun _ => .bind .token fun t => ?_
    split
    · exact .bind .advance fun _ => htail _
    · exact htail none
  · have ht' : c'.token = .eof := hc.token.trans ht
    exact ((stops_expectKeyword .fn ht).bind _).agree ((stops_expectKeyword .fn ht').bind _)

theorem field : inner.field.Concurs inner'.field := by
  have htail (pos : Pos) (key : String) : Reader.Concurs
      (do
        if ← eat .colon then return (key, ← inner.expression) else return (key, .ident pos key))
      (do
        if ← eat .colon then return (key, ← inner'.expression)
        else return (key, .ident pos key)) :=
    .bind (.eat .colon) fun _ => .ite (.bind h.expression fun _ => .pure _) (.pure _)
  refine .here (fun pos => .bind .token fun t => ?_) fun c c' hc ht p p' => ?_
  · split
    · exact .bind .advance fun _ => htail pos _
    · exact .bind .propertyName fun key => htail pos key
  · rw [token_bind, token_bind, hc.token, ht]
    have ht' : c'.token = .eof := hc.token.trans ht
    exact ((stops_propertyName ht).bind _).agree ((stops_propertyName ht').bind _)

theorem arguments (close : Mark) : (inner.arguments close).Concurs (inner'.arguments close) :=
  .bind (.commaList h.expression) fun _ => .bind (.expect close) fun _ => .pure _

theorem primary : inner.primary.Concurs inner'.primary := by
  refine .here (fun pos => .bind .token fun t => ?_) fun c c' hc ht p p' => ?_
  · split
    · exact .bind .advance fun _ => .pure _
    · exact .bind .advance fun _ => .pure _
    · exact .bind .advance fun _ => .pure _
    · exact .bind .advance fun _ => .pure _
    · exact .bind .advance fun _ => .pure _
    · exact .bind .advance fun _ => .pure _
    · exact .bind h.function fun _ => .pure _
    · refine .bind .advance fun _ => .bind h.expression fun e => ?_
      exact .bind (.expect .rparen) fun _ => .pure _
    · exact .bind .advance fun _ => .bind (h.arguments .rbracket) fun _ => .pure _
    · refine .bind .advance fun _ => .bind (.commaList h.field) fun fields => ?_
      exact .bind (.expect .rbrace) fun _ => .pure _
    · exact .unexpected _
  · have ht' : c'.token = .eof := hc.token.trans ht
    exact Stops.agree ⟨_, by rw [token_bind, ht]; rfl⟩ ⟨_, by rw [token_bind, ht']; rfl⟩

theorem accesses : inner.accesses.Concurs inner'.accesses := by
  refine .bind h.primary fun e => .loop (fun e => ?_) e
  refine .here (fun pos => .bind .token fun t => ?_) fun c c' hc ht p p' => ?_
  · split
    · exact .bind .advance fun _ => .bind (h.arguments .rparen) fun _ => .pure _
    · exact .bind .advance fun _ => .bind .propertyName fun _ => .pure _
    · refine .bind .advance fun _ => .bind h.expression fun index => ?_
      exact .bind (.expect .rbracket) fun _ => .pure _
    · exact .pure _
  · -- No call and no access begins here, so the expression is complete.
    rw [token_bind, token_bind, hc.token, ht]
    exact .given ⟨rfl, hc⟩

theorem operandBody : inner.operandBody.Concurs inner'.operandBody := by
  refine .here (fun pos => .bind .token fun t => ?_) fun c c' hc ht p p' => ?_
  · split
    · exact .bind .advance fun _ => .bind h.operand fun _ => .pure _
    · exact .bind .advance fun _ => .bind h.operand fun _ => .pure _
    · exact h.accesses
  · rw [token_bind, token_bind, hc.token, ht]
    exact h.accesses c c' hc

theorem declaration : inner.declaration.Concurs inner'.declaration := by
  refine .bind (.ident _) fun name => .bind .skipped fun _ => ?_
  refine .bind (.expect .assign) fun _ => .bind h.expression fun value => ?_
  exact .bind .endStatement fun _ => .pure _

theorem expressionStatement (pos : Pos) :
    (inner.expressionStatement pos).Concurs (inner'.expressionStatement pos) := by
  refine .bind h.expression fun e => .bind (.eat .assign) fun b => .ite ?_ ?_
  · have hassign : Reader.Concurs
        (do
          let value ← inner.expression
          endStatement
          return Stmt.assign pos e value)
        (do
          let value ← inner'.expression
          endStatement
          return Stmt.assign pos e value) :=
      .bind h.expression fun value => .bind .endStatement fun _ => .pure _
    split
    · exact hassign
    · exact hassign
    · exact hassign
    · exact .fail _ _ _ _
  · exact .bind .endStatement fun _ => .pure _

theorem stops_expressionStatement (pos : Pos) {c : Cursor} (ht : c.token = .eof) :
    Stops (inner.expressionStatement pos) c :=
  ((h.stops c ht).bind _).bind _

theorem stops_right (c : Cursor) (ht : c.token = .eof) : Stops inner'.operand c :=
  (h.stops c ht).of_concurs h.operand (.refl c)

theorem statement : inner.statement.Concurs inner'.statement := by
  refine .here (fun pos => .bind .token fun t => ?_) fun c c' hc ht p p' => ?_
  · split
    · exact .bind .advance fun _ => .bind h.declaration fun _ => .pure _
    · refine .get fun c c' hc => ?_
      rw [hc.second]
      exact .ite (.bind h.function fun _ => .pure _) (h.expressionStatement pos)
    · refine .bind .advance fun _ => .bind (.check .semi) fun _ => .ite ?_ ?_
      · exact .bind .endStatement fun _ => .pure _
      · refine .bind (.check .rbrace) fun _ => .ite (.pure _) ?_
        refine .bind h.expression fun value => .bind (.check .rbrace) fun _ => .ite (.pure _) ?_
        exact .bind .endStatement fun _ => .pure _
    · refine .bind .advance fun _ => .bind h.expression fun value => ?_
      exact .bind .endStatement fun _ => .pure _
    · exact h.conditional
    · exact h.expressionStatement pos
  · rw [token_bind, token_bind, hc.token, ht]
    have ht' : c'.token = .eof := hc.token.trans ht
    exact (h.stops_expressionStatement p ht).agree (((h.stops_right c' ht').bind _).bind _)

theorem blockBody (dialect dialect' : Dialect) :
    (inner.blockBody dialect).Concurs (inner'.blockBody dialect') := by
  refine .bind (.expect .lbrace) fun _ => .bind (.loop (fun found => ?_) []) fun found => ?_
  · refine .bind (.check .rbrace) fun _ => .ite (.pure _) (.bind .token fun t => ?_)
    split
    · exact .unexpected _
    · exact .bind .advance fun _ => .pure _
    · exact .failHere _ _
    · exact .failHere _ _
    · exact .bind h.statement fun _ => .pure _
  · exact .bind .advance fun _ => .pure _

theorem conditionalBody : inner.conditionalBody.Concurs inner'.conditionalBody := by
  refine .here (fun pos => .bind (.expectKeyword .if_) fun _ => ?_) fun c c' hc ht p p' => ?_
  · refine .bind (.expect .lparen) fun _ => .bind h.expression fun cond => ?_
    refine .bind (.expect .rparen) fun _ => .bind h.block fun thenBody => ?_
    refine .bind (.checkKeyword .else_) fun _ => .ite (.bind .advance fun _ => ?_) (.pure _)
    refine .bind (.checkKeyword .if_) fun _ => .ite ?_ ?_
    · exact .bind h.conditional fun _ => .pure _
    · exact .bind h.block fun _ => .pure _
  · have ht' : c'.token = .eof := hc.token.trans ht
    exact ((stops_expectKeyword .if_ ht).bind _).agree ((stops_expectKeyword .if_ ht').bind _)

theorem coreElement : inner.coreElement.Concurs inner'.coreElement := by
  refine .bind .token fun t => ?_
  split
  · exact .failHere _ _
  · exact .failHere _ _
  · exact h.statement

end Concurs

/-- Where the text ends, no operand begins. -/
theorem stops_operandBody (inner : Nested) {c : Cursor} (h : c.token = .eof) :
    Stops inner.operandBody c := by
  have hprimary : Stops inner.primary c :=
    ⟨_, by rw [primary, here_bind, token_bind, h]; rfl⟩
  obtain ⟨e, he⟩ := hprimary.bind (loop (accessRound inner))
  refine ⟨e, ?_⟩
  rw [operandBody, here_bind, token_bind, h]
  exact he

/-- Below the top level the dialects agree, whatever number of nesting levels is left. -/
theorem concurs_ofDepth (dialect dialect' : Dialect) (depth : Nat) :
    (ofDepth dialect depth).Concurs (ofDepth dialect' depth) := by
  induction depth with
  | zero => exact ⟨.failHere _ _, .failHere _ _, .failHere _ _, fun _ _ => ⟨_, rfl⟩⟩
  | succ depth ih =>
    exact ⟨ih.blockBody dialect dialect', ih.conditionalBody, ih.operandBody,
      fun _ => stops_operandBody _⟩

theorem concurs_elements {α : Type} {element element' : Reader α} (h : element.Concurs element') :
    (elements element).Concurs (elements element') := by
  refine .bind (.loop (fun found => ?_) []) fun found => .pure _
  refine .bind .token fun t => ?_
  split
  · exact .pure _
  · exact .bind .advance fun _ => .pure _
  · exact .bind h fun _ => .pure _

end Nested

/-- Over tokens that differ at most in where the text ends, readers that agree give the same. -/
theorem Reader.Concurs.start {α : Type} {x y : Reader α} (h : x.Concurs y) {ls ls' : List Lexeme}
    (hls : List.Forall₂ Lexeme.Same ls ls') :
    Agree Eq ((x ⟨none, ls⟩).map (·.1)) ((y ⟨none, ls'⟩).map (·.1)) :=
  (h ⟨none, ls⟩ ⟨none, ls'⟩ ⟨rfl, hls⟩).map fun _ _ hr => hr.1

/-- Over one text, readers that agree give the same. -/
theorem Reader.Concurs.run {α : Type} {x y : Reader α} (h : x.Concurs y) (source : List Char) :
    Agree Eq (x.run source) (y.run source) := by
  rw [run_eq, run_eq]
  cases lexemes .start source with
  | error e => exact .stopped e e
  | ok ls => exact h.start (Cursor.Same.refl ⟨none, ls⟩).rest

end Hotload.Syntax
