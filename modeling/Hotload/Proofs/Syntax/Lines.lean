import Mathlib
import Hotload.Proofs.Syntax.Grammar

/-!
# The lines of statements

The printer can go down to a line but not up, so it needs the statements of a program in the order
of their lines. Trees that come from a text are so ordered, at all nesting levels at once: a reader
starts a statement at the next token, and it passes tokens from left to right.

* `Expr.beginnings`, `Stmt.beginnings`, `Item.beginnings`: where the statements in a tree start.
* `Downward`: positions whose lines do not decrease.
* `Orders`: a reader that keeps the starts of statements in front of the tokens to come.
* `downward_of_parseSurface`: the statements of a program do not go up.
-/

namespace Hotload.Syntax

/-! ## Where statements start -/

mutual

/-- Where the statements in an expression start. -/
def Expr.beginnings : Expr → List Pos
  | .nil _ | .bool _ _ | .num _ _ | .str _ _ | .ident _ _ => []
  | .list _ items => Expr.beginningsList items
  | .object _ fields => Expr.beginningsFields fields
  | .fn _ function => function.beginnings
  | .call _ callee args => callee.beginnings ++ Expr.beginningsList args
  | .member _ object _ => object.beginnings
  | .index _ object index => object.beginnings ++ index.beginnings
  | .unary _ _ operand => operand.beginnings
  | .binary _ _ lhs rhs => lhs.beginnings ++ rhs.beginnings

/-- Where the statements in expressions start. -/
def Expr.beginningsList : List Expr → List Pos
  | [] => []
  | e :: es => e.beginnings ++ Expr.beginningsList es

/-- Where the statements in the values of fields start. -/
def Expr.beginningsFields : List (String × Expr) → List Pos
  | [] => []
  | (_, value) :: fields => value.beginnings ++ Expr.beginningsFields fields

/-- Where the statements of a function start. -/
def Function.beginnings : Function → List Pos
  | .mk _ _ _ body => Stmt.beginningsList body

/-- Where a statement starts, and behind it the statements in it. -/
def Stmt.beginnings : Stmt → List Pos
  | .declare pos _ value => pos :: value.beginnings
  | .fn pos function => pos :: function.beginnings
  | .return_ pos none => [pos]
  | .return_ pos (some value) => pos :: value.beginnings
  | .throw_ pos value => pos :: value.beginnings
  | .if_ pos cond thenBody none => pos :: cond.beginnings ++ Stmt.beginningsList thenBody
  | .if_ pos cond thenBody (some elseBody) =>
    pos :: cond.beginnings ++ Stmt.beginningsList thenBody ++ Stmt.beginningsList elseBody
  | .assign pos target value => pos :: target.beginnings ++ value.beginnings
  | .expr pos value => pos :: value.beginnings

/-- Where statements and the statements in them start. -/
def Stmt.beginningsList : List Stmt → List Pos
  | [] => []
  | s :: ss => s.beginnings ++ Stmt.beginningsList ss

end

/-- Where the statements in an export start. -/
def ExportForm.beginnings : ExportForm → List Pos
  | .default_ value | .declare _ value => value.beginnings
  | .fn function _ => function.beginnings
  | .names _ => []

/-- Where an item starts, and behind it the statements in it. -/
def Item.beginnings : Item → List Pos
  | .stmt s => s.beginnings
  | .import_ pos _ _ => [pos]
  | .export_ pos form => pos :: form.beginnings

theorem Expr.beginningsList_eq (es : List Expr) : Expr.beginningsList es = es.flatMap Expr.beginnings := by
  induction es with
  | nil => rfl
  | cons e es ih => rw [Expr.beginningsList, ih, List.flatMap_cons]

theorem Expr.beginningsFields_eq (fields : List (String × Expr)) :
    Expr.beginningsFields fields = fields.flatMap fun field => field.2.beginnings := by
  induction fields with
  | nil => rfl
  | cons field fields ih => rw [Expr.beginningsFields, ih, List.flatMap_cons]

theorem Stmt.beginningsList_eq (ss : List Stmt) : Stmt.beginningsList ss = ss.flatMap Stmt.beginnings := by
  induction ss with
  | nil => rfl
  | cons s ss ih => rw [Stmt.beginningsList, ih, List.flatMap_cons]

/-! ## Positions that do not go up -/

/-- The lines of the positions do not decrease. -/
def Downward (ps : List Pos) : Prop := ps.Pairwise (·.line ≤ ·.line)

theorem Downward.sublist {ps qs : List Pos} (h : Downward qs) (hs : ps.Sublist qs) :
    Downward ps := List.Pairwise.sublist hs h

/-- A position may be repeated. -/
theorem Downward.twice {ps qs : List Pos} {p : Pos} (h : Downward (ps ++ p :: qs)) :
    Downward (ps ++ p :: p :: qs) := by
  simp only [Downward, List.pairwise_append, List.pairwise_cons, List.mem_cons] at h ⊢
  obtain ⟨hps, ⟨hp, hqs⟩, hcross⟩ := h
  refine ⟨hps, ⟨?_, hp, hqs⟩, ?_⟩
  · rintro q (rfl | hq)
    · exact Nat.le_refl _
    · exact hp q hq
  · rintro x hx q (rfl | rfl | hq)
    · exact hcross x hx q (.inl rfl)
    · exact hcross x hx q (.inl rfl)
    · exact hcross x hx q (.inr hq)

theorem Pos.line_le_next (p : Pos) (c : Char) : p.line ≤ (p.next c).line := by
  unfold Pos.next
  split
  · exact Nat.le_succ p.line
  · exact Nat.le_refl p.line

theorem skipTrivia_line {t : Trivia} {p p' : Pos} {cs ds : List Char}
    (h : skipTrivia t p cs = .ok (p', ds)) : p.line ≤ p'.line := by
  have hnext := Pos.line_le_next
  fun_induction skipTrivia t p cs with
  | case1 => simp at h
  | case2 | case6 =>
    cases h
    exact Nat.le_refl _
  | case3 p cs ih => exact (hnext p '/').trans ((hnext _ '/').trans (ih h))
  | case4 p cs ih => exact (hnext p '/').trans ((hnext _ '*').trans (ih h))
  | case5 p c cs _ _ _ ih => exact (hnext p c).trans (ih h)
  | case7 p cs ih => exact (hnext p '\n').trans (ih h)
  | case8 p c cs _ ih => exact (hnext p c).trans (ih h)
  | case9 _ p cs ih => exact (hnext p '*').trans ((hnext _ '/').trans (ih h))
  | case10 start p c cs _ ih => exact (hnext p c).trans (ih h)

/-- The tokens of a text do not go up. -/
theorem lexemes_downward {p : Pos} {cs : List Char} {ls : List Lexeme}
    (h : lexemes p cs = .ok ls) : Downward (p :: ls.map Lexeme.pos) := by
  induction hn : cs.length using Nat.strong_induction_on generalizing p cs ls with
  | _ n ih =>
    rw [lexemes_eq] at h
    split at h
    · simp at h
    · rename_i p' hs
      cases h
      simpa [Downward] using skipTrivia_line hs
    · rename_i p' c cs' hs
      split at h
      · simp at h
      · rename_i s ht
        have hlen := skipTrivia_length hs
        have hrest := scanToken_length ht
        simp only [List.length_cons] at hlen
        cases hls : lexemes (p'.right s.spelling.length) s.rest with
        | error e => simp [hls, Except.map] at h
        | ok ls' =>
          simp only [hls, Except.map, Except.ok.injEq] at h
          subst h
          -- A token does not leave its line, so the tokens behind it are not above its start.
          have htail : Downward (p' :: ls'.map Lexeme.pos) := by
            have := ih s.rest.length (by omega) hls rfl
            simpa [Downward, Pos.right] using this
          have hle := skipTrivia_line hs
          simp only [Downward, List.map_cons, List.pairwise_cons, List.mem_cons] at htail ⊢
          refine ⟨?_, htail⟩
          rintro q (rfl | hq)
          · exact hle
          · exact hle.trans (htail.1 q hq)

/-! ## Readers that keep the order -/

/-- The starts of statements and behind them the tokens to come do not go up. -/
def Cursor.After (c : Cursor) (S : List Pos) : Prop := Downward (S ++ c.rest.map Lexeme.pos)

namespace Cursor.After

variable {c c' : Cursor} {S : List Pos}

theorem took {k : Nat} (h : c.After S) (ht : c.Took k c') : c'.After S :=
  Downward.sublist h ((List.Sublist.refl S).append (ht.suffix.sublist.map _))

/-- A statement starts at the next token. -/
theorem start (h : c.After S) (hc : c.rest ≠ []) : c.After (S ++ [c.pos]) := by
  obtain ⟨l, ls, hl⟩ := List.exists_cons_of_ne_nil hc
  have hpos : c.pos = l.pos := by rw [Cursor.pos, hl]
  unfold Cursor.After at h ⊢
  rw [hl, List.map_cons] at h ⊢
  rw [hpos, List.append_assoc]
  exact h.twice

end Cursor.After

section

variable {α β : Type} {c : Cursor} {S : List Pos} {f : α → List Pos}

/-- If the tokens to come at `c` are behind the starts `S`, and the reader succeeds, then those to
come behind it are behind the starts that `f` tells. -/
def Orders (c : Cursor) (S : List Pos) (f : α → List Pos) (x : Reader α) : Prop :=
  c.After S → ∀ a c', x c = .ok (a, c') → c'.After (f a)

namespace Orders

theorem pure {a : α} (h : f a = S) : Orders c S f (pure a) := by
  rintro hc a c' ⟨⟩
  rwa [h]

theorem unexpected (e : Expected) : Orders c S f (Reader.unexpected e) := by
  rintro _ a c' ⟨⟩

theorem fail (fault : Fault) (pos : Pos) : Orders c S f (Reader.fail fault pos) := by
  rintro _ a c' ⟨⟩

/-- Where no statement starts, it is enough that tokens are passed from left to right. -/
theorem silent {x : Reader α} {n : Nat} {P : α → Prop} (h : TakesAt c n P x) :
    Orders c S (fun _ => S) x :=
  fun hc a c' hr => hc.took (h a c' hr).1

theorem sublist {x : Reader α} {g : α → List Pos} (h : Orders c S f x)
    (hg : ∀ a, (g a).Sublist (f a)) : Orders c S g x :=
  fun hc a c' hr =>
    Downward.sublist (h hc a c' hr) ((hg a).append (List.Sublist.refl _))

/-- A statement starts at the next token if any token is taken. -/
theorem start {x : Reader α} {P : α → Prop} (ht : TakesAt c 1 P x)
    (h : Orders c (S ++ [c.pos]) f x) : Orders c S f x := by
  intro hc a c' hr
  refine h (hc.start fun hnil => ?_) a c' hr
  have hlen := (ht a c' hr).1.length
  rw [hnil, List.length_nil] at hlen
  omega

variable {g : β → List Pos}

theorem token {k : Token → Reader β} (h : Orders c S g (k c.token)) :
    Orders c S g (Reader.token >>= k) := h

theorem here {k : Pos → Reader β} (h : Orders c S g (k c.pos)) :
    Orders c S g (Reader.here >>= k) := h

theorem get {k : Cursor → Reader β} (h : Orders c S g (k c)) :
    Orders c S g ((MonadState.get : Reader Cursor) >>= k) := h

theorem check {m : Mark} {k : Bool → Reader β} (h : Orders c S g (k (c.token.isMark m))) :
    Orders c S g (Reader.check m >>= k) := h

theorem checkKeyword {w : Keyword} {k : Bool → Reader β}
    (h : Orders c S g (k (c.token.isKeyword w))) :
    Orders c S g (Reader.checkKeyword w >>= k) := h

theorem bind {x : Reader α} {k : α → Reader β} (hx : Orders c S f x)
    (hk : ∀ a c', Orders c' (f a) g (k a)) : Orders c S g (x >>= k) := by
  intro hc b c' hr
  rw [Reader.bind_apply] at hr
  cases hxc : x c with
  | error e => simp [hxc, Except.bind] at hr
  | ok r =>
    simp only [hxc, Except.bind] at hr
    exact hk r.1 r.2 (hx hc r.1 r.2 hxc) b c' hr

/-- A reader in which no statement starts, and what comes behind it. -/
theorem next {x : Reader α} {k : α → Reader β} {n : Nat} {P : α → Prop} (hx : TakesAt c n P x)
    (hk : ∀ a c', Orders c' S g (k a)) : Orders c S g (x >>= k) :=
  (silent hx).bind hk

theorem advance {k : Unit → Reader β} (h : Orders c.advance S g (k ())) :
    Orders c S g (Reader.advance >>= k) :=
  fun hc => h (hc.took (Cursor.took_advance_zero c))

theorem eat {m : Mark} {k : Bool → Reader β} (ht : Orders c.advance S g (k true))
    (hf : Orders c S g (k false)) : Orders c S g (Reader.eat m >>= k) := by
  intro hc b c' hr
  rw [Reader.eat_bind] at hr
  split at hr
  · exact ht (hc.took (Cursor.took_advance_zero c)) b c' hr
  · exact hf hc b c' hr

theorem expect {m : Mark} {k : Unit → Reader β} (h : Orders c.advance S g (k ())) :
    Orders c S g (Reader.expect m >>= k) := by
  intro hc b c' hr
  rw [Reader.expect_bind] at hr
  split at hr
  · exact h (hc.took (Cursor.took_advance_zero c)) b c' hr
  · cases hr

theorem expectKeyword {w : Keyword} {k : Unit → Reader β} (h : Orders c.advance S g (k ())) :
    Orders c S g (Reader.expectKeyword w >>= k) := by
  intro hc b c' hr
  rw [Reader.expectKeyword_bind] at hr
  split at hr
  · exact h (hc.took (Cursor.took_advance_zero c)) b c' hr
  · cases hr

/-- What every round keeps holds after the repetition. -/
theorem loop {σ : Type} {round : σ → Reader (Reader.Round σ)} {I : σ → List Pos}
    (h : Reader.Advances round)
    (hr : ∀ s c, Orders c (I s) (fun r => I r.state) (round s)) (s : σ) (c : Cursor) :
    Orders c (I s) I (Reader.loop round s) := fun hc _ _ hl =>
  Reader.loop_ok (I := fun s c => c.After (I s)) h (fun s c r c' hs => hr s c hs r c') hc hl

/-- The starts in a list are those in what its rounds add. -/
theorem collect {pick : Reader (Reader.Pick α)} (h : Reader.Pick.Advances pick)
    (hp : ∀ c S, Orders c S (fun r => S ++ r.added.flatMap f) pick) (c : Cursor) (S : List Pos) :
    Orders c S (fun xs => S ++ xs.flatMap f) (Reader.collect pick) := by
  intro hc xs c' hr
  refine Reader.collect_ok (I := fun xs c => c.After (S ++ xs.flatMap f)) h ?_ (by simpa using hc) hr
  intro xs c r c' hxs hpick
  rw [List.flatMap_append, ← List.append_assoc]
  exact hp c _ hxs r c' hpick

theorem commaList {close : Mark} {item : Reader α} {P : α → Prop}
    (ht : ∀ c, TakesAt c 0 P item) (h : ∀ c S, Orders c S (fun x => S ++ f x) item) (c : Cursor)
    (S : List Pos) :
    Orders c S (fun xs => S ++ xs.flatMap f) (Reader.commaList close item) := by
  rw [Reader.commaList_eq_collect]
  refine collect (Reader.advances_commaPick ht) (fun c S => .check ?_) c S
  split
  · exact .pure (List.append_nil S)
  · refine (h c S).bind fun x c' => .eat (.pure ?_) (.pure ?_) <;>
      simp [Reader.Pick.added]

/-- A round that adds what a reader gives. -/
theorem more {x : Reader α} (h : Orders c S (fun a => S ++ f a) x) :
    Orders c S (fun r : Reader.Pick α => S ++ r.added.flatMap f) (do return .more (← x)) :=
  h.bind fun a _ => .pure (by rw [Reader.Pick.added, List.flatMap_singleton])

end Orders

end

/-! ## The readers of the grammar -/

open Reader

namespace Nested

/-- The readers of a nesting level pass over the statements in their trees from left to right. -/
structure Ordered (inner : Nested) : Prop where
  block : ∀ c S, Orders c S (fun ss => S ++ Stmt.beginningsList ss) inner.block
  conditional : ∀ c S, Orders c S (fun s => S ++ s.beginnings) inner.conditional
  operand : ∀ c S, Orders c S (fun e => S ++ e.beginnings) inner.operand

section

variable {inner : Nested} (hb : inner.Builds) (h : inner.Ordered) (c : Cursor) (S : List Pos)

include h in
theorem orders_chainPick :
    Orders c S (fun r => S ++ r.added.flatMap fun r => r.2.beginnings) (chainPick inner) := by
  refine .token ?_
  split
  · exact .pure (List.append_nil S)
  · exact .advance ((h.operand _ S).bind fun rhs c' => .pure (by simp [Pick.added]))

include hb h

theorem orders_expression : Orders c S (fun e => S ++ e.beginnings) inner.expression := by
  rw [expression_eq hb.shrinks]
  refine (h.operand c S).bind fun first c₁ => ?_
  refine (Orders.collect (advances_chainPick hb.shrinks) (orders_chainPick h) c₁ _).bind fun rest c₂ => ?_
  refine .pure ?_
  rw [flatMap_assemble (f := Expr.beginnings) (fun _ _ _ _ => rfl), List.append_assoc]

theorem orders_arguments (close : Mark) :
    Orders c S (fun es => S ++ Expr.beginningsList es) (inner.arguments close) := by
  refine (Orders.commaList (f := Expr.beginnings)
    (fun c => (takesAt_expression hb c).mono (Nat.zero_le 1)) (orders_expression hb h) c S).bind
      fun items c' => .expect (.pure ?_)
  rw [Expr.beginningsList_eq]

omit hb in
theorem orders_function : Orders c S (fun f => S ++ f.beginnings) inner.function := by
  have htail (pos : Pos) (name : Option String) (c : Cursor) :
      Orders c S (fun f => S ++ f.beginnings) (do
        expect .lparen
        let params ← commaList .rparen parameter
        expect .rparen
        skipAnnotation
        let body ← inner.block
        return Function.mk pos name params body) := by
    refine .expect (.next (takesAt_commaList takesAt_parameter _) fun params c₁ => .expect ?_)
    refine .next (takesAt_skipped _) fun _ c₂ => ?_
    exact (h.block c₂ S).bind fun body c₃ => .pure rfl
  refine .here (.expectKeyword (.token ?_))
  split
  · exact .advance (htail _ _ _)
  · exact htail _ _ _

theorem orders_field : Orders c S (fun field => S ++ field.2.beginnings) inner.field := by
  have htail (pos : Pos) (key : String) (c : Cursor) :
      Orders c S (fun field => S ++ field.2.beginnings) (do
        if ← eat .colon then
          return (key, ← inner.expression)
        else
          return (key, .ident pos key)) :=
    .eat ((orders_expression hb h _ S).bind fun value c' => .pure rfl)
      (.pure (List.append_nil S))
  refine .here (.token ?_)
  split
  · exact .advance (htail _ _ _)
  · exact .next (takesAt_propertyName c) fun key c' => htail _ _ _

theorem orders_primary : Orders c S (fun e => S ++ e.beginnings) inner.primary := by
  have hleaf {e : Expr} (he : e.beginnings = []) : S ++ e.beginnings = S := by rw [he, List.append_nil]
  refine .here (.token ?_)
  split
  · exact .advance (.pure (hleaf rfl))
  · exact .advance (.pure (hleaf rfl))
  · exact .advance (.pure (hleaf rfl))
  · exact .advance (.pure (hleaf rfl))
  · exact .advance (.pure (hleaf rfl))
  · exact .advance (.pure (hleaf rfl))
  · exact (orders_function h c S).bind fun f c' => .pure rfl
  · exact .advance ((orders_expression hb h _ S).bind fun e c' => .expect (.pure rfl))
  · exact .advance ((orders_arguments hb h _ S .rbracket).bind fun items c' => .pure rfl)
  · refine .advance ((Orders.commaList (f := fun field => field.2.beginnings)
      (fun c => (takesAt_field hb c).mono (Nat.zero_le 1)) (orders_field hb h) _ S).bind
        fun fields c' => .expect (.pure ?_))
    rw [Expr.beginnings, Expr.beginningsFields_eq]
  · exact .unexpected _

omit S in
theorem orders_accessRound (e : Expr) (S : List Pos) :
    Orders c (S ++ e.beginnings) (fun r => S ++ r.state.beginnings) (accessRound inner e) := by
  refine .here (.token ?_)
  split
  · refine .advance ((orders_arguments hb h _ _ .rparen).bind fun args c' => .pure ?_)
    rw [List.append_assoc]
    rfl
  · exact .advance (.next (takesAt_propertyName _) fun name c' => .pure rfl)
  · refine .advance ((orders_expression hb h _ _).bind fun index c' => .expect (.pure ?_))
    rw [List.append_assoc]
    rfl
  · exact .pure rfl

theorem orders_operandBody : Orders c S (fun e => S ++ e.beginnings) inner.operandBody := by
  refine .here (.token ?_)
  split
  · exact .advance ((h.operand _ S).bind fun operand c' => .pure rfl)
  · exact .advance ((h.operand _ S).bind fun operand c' => .pure rfl)
  · rw [accesses_eq]
    refine (orders_primary hb h c S).bind fun e c' => ?_
    exact Orders.loop (I := fun e => S ++ e.beginnings) (advances_accessRound hb)
      (fun e c => orders_accessRound hb h c e S) e c'

/-! ## Statements -/

theorem orders_declaration : Orders c S (fun r => S ++ r.2.beginnings) inner.declaration := by
  refine .next (takesAt_ident _ c) fun name c₁ => .next (takesAt_skipped c₁) fun _ c₂ => ?_
  refine .expect ((orders_expression hb h _ S).bind fun value c₃ => ?_)
  exact .next (takesAt_endStatement c₃) fun _ c₄ => .pure rfl

theorem orders_expressionStatement (pos : Pos) :
    Orders c (S ++ [pos]) (fun s => S ++ s.beginnings) (inner.expressionStatement pos) := by
  refine (orders_expression hb h c _).bind fun e c₁ => .eat ?_ ?_
  · have hassign : Orders c₁.advance (S ++ [pos] ++ e.beginnings) (fun s => S ++ s.beginnings) (do
        let value ← inner.expression
        endStatement
        return Stmt.assign pos e value) := by
      refine (orders_expression hb h _ _).bind fun value c₂ => ?_
      refine .next (takesAt_endStatement c₂) fun _ c₃ => .pure ?_
      simp [Stmt.beginnings]
    rw [if_pos rfl]
    split
    · exact hassign
    · exact hassign
    · exact hassign
    · exact .fail _ _
  · refine .next (takesAt_endStatement c₁) fun _ c₂ => .pure ?_
    simp [Stmt.beginnings]

theorem orders_statement : Orders c S (fun s => S ++ s.beginnings) inner.statement := by
  have hsingle (pos : Pos) (ps : List Pos) : S ++ pos :: ps = S ++ [pos] ++ ps := by simp
  refine .start (takesAt_statement hb c) (.here (.token ?_))
  split
  · refine .advance ((orders_declaration hb h _ _).bind fun r c' => .pure ?_)
    exact hsingle _ _
  · refine .get ?_
    split
    · exact (orders_function h c _).bind fun f c' => .pure (hsingle _ _)
    · exact orders_expressionStatement hb h c S _
  · refine .advance (.check ?_)
    split
    · exact .next (takesAt_endStatement _) fun _ c' => .pure rfl
    · refine .check ?_
      split
      · exact .pure rfl
      · refine (orders_expression hb h _ _).bind fun value c' => .check ?_
        split
        · exact .pure (hsingle _ _)
        · exact .next (takesAt_endStatement _) fun _ c'' => .pure (hsingle _ _)
  · refine .advance ((orders_expression hb h _ _).bind fun value c' => ?_)
    exact .next (takesAt_endStatement _) fun _ c'' => .pure (hsingle _ _)
  · refine (h.conditional c _).sublist fun s => ?_
    rw [List.append_assoc]
    exact (List.Sublist.refl S).append (List.sublist_append_right _ _)
  · exact orders_expressionStatement hb h c S _

theorem orders_blockPick (dialect : Dialect) :
    Orders c S (fun r => S ++ r.added.flatMap Stmt.beginnings) (blockPick dialect inner) := by
  refine .check ?_
  split
  · exact .pure (List.append_nil S)
  · refine .token ?_
    split
    · exact .unexpected _
    · exact .advance (.pure (List.append_nil S))
    · exact .here (.fail _ _)
    · exact .here (.fail _ _)
    · exact .more (orders_statement hb h c S)

theorem orders_blockBody (dialect : Dialect) :
    Orders c S (fun ss => S ++ Stmt.beginningsList ss) (inner.blockBody dialect) := by
  rw [blockBody_eq]
  refine .expect ((Orders.collect (advances_of_cases (blockPick_cases hb dialect))
    (fun c S => orders_blockPick hb h c S dialect) _ S).bind fun body c' => ?_)
  refine .advance (.pure ?_)
  rw [Stmt.beginningsList_eq]

theorem orders_conditionalBody :
    Orders c S (fun s => S ++ s.beginnings) inner.conditionalBody := by
  refine .start (takesAt_conditionalBody hb c) (.here (.expectKeyword (.expect ?_)))
  refine (orders_expression hb h _ _).bind fun cond c₁ => .expect ?_
  refine (h.block _ _).bind fun thenBody c₂ => .checkKeyword ?_
  split
  · refine .advance (.checkKeyword ?_)
    split
    · refine (h.conditional _ _).bind fun nested c₃ => .pure ?_
      simp [Stmt.beginnings, Stmt.beginningsList]
    · refine (h.block _ _).bind fun elseBody c₃ => .pure ?_
      simp [Stmt.beginnings]
  · refine .pure ?_
    simp [Stmt.beginnings]

end

/-- The readers of every nesting level pass over the statements in their trees from left to
right. -/
theorem ordered_ofDepth (dialect : Dialect) (depth : Nat) : (ofDepth dialect depth).Ordered := by
  induction depth with
  | zero =>
    exact ⟨fun _ _ => .here (.fail _ _), fun _ _ => .here (.fail _ _),
      fun _ _ => .here (.fail _ _)⟩
  | succ depth ih =>
    have hb := builds_ofDepth dialect depth
    exact ⟨fun c S => orders_blockBody hb ih c S dialect, orders_conditionalBody hb ih,
      orders_operandBody hb ih⟩

/-! ## Programs -/

section

variable {inner : Nested} (hb : inner.Builds) (h : inner.Ordered) (c : Cursor) (S : List Pos)

theorem orders_importDeclaration :
    Orders c S (fun item => S ++ item.beginnings) importDeclaration := by
  refine .start (takesAt_importDeclaration c) (.here (.expectKeyword (.token ?_)))
  split
  · exact .advance (.next (takesAt_endStatement _) fun _ c' => .pure rfl)
  · refine .next (takesAt_importClause _) fun clause c₁ => .expectKeyword ?_
    refine .next (takesAt_string _ _) fun source c₂ => ?_
    exact .next (takesAt_endStatement c₂) fun _ c₃ => .pure rfl

include hb h

theorem orders_exportForm : Orders c S (fun form => S ++ form.beginnings) inner.exportForm := by
  refine .token ?_
  split
  · refine .advance (.checkKeyword (.get ?_))
    split
    · exact (orders_function h _ S).bind fun f c' => .pure rfl
    · refine (orders_expression hb h _ S).bind fun value c' => ?_
      exact .next (takesAt_endStatement c') fun _ c'' => .pure rfl
  · refine .get ?_
    split
    · exact (orders_function h c S).bind fun f c' => .pure rfl
    · exact .here (.fail _ _)
  · exact .advance ((orders_declaration hb h _ S).bind fun r c' => .pure rfl)
  · refine .next (takesAt_exportedNames c) fun names c' => ?_
    exact .next (takesAt_endStatement c') fun _ c'' => .pure (List.append_nil S)
  · exact .unexpected _

theorem orders_exportDeclaration :
    Orders c S (fun item => S ++ item.beginnings) inner.exportDeclaration := by
  have htakes : TakesAt c 1 (fun _ => True) inner.exportDeclaration :=
    .here (.expectKeyword ((takesAt_exportForm hb _).bind fun _ _ => .pure fun _ _ _ => trivial))
  refine .start htakes (.here (.expectKeyword ?_))
  refine (orders_exportForm hb h _ _).bind fun form c' => .pure ?_
  simp [Item.beginnings]

theorem orders_surfaceElement :
    Orders c S (fun item => S ++ item.beginnings) inner.surfaceElement := by
  refine .token ?_
  split
  · exact orders_importDeclaration c S
  · exact orders_exportDeclaration hb h c S
  · exact (orders_statement hb h c S).bind fun s c' => .pure rfl

theorem orders_elements :
    Orders c S (fun items => S ++ items.flatMap Item.beginnings)
      (elements inner.surfaceElement) := by
  have hpick := elementPick_cases (takesAt_surfaceElement hb)
  rw [elements_eq]
  refine Orders.collect (advances_of_cases hpick) (fun c S => .token ?_) c S
  split
  · exact .pure (List.append_nil S)
  · exact .advance (.pure (List.append_nil S))
  · exact .more (orders_surfaceElement hb h c S)

end

end Nested

/-- The statements of a program do not go up, wherever they are nested. -/
theorem downward_of_parseSurface {source : List Char} {items : List Item}
    (h : parseSurface source = .ok items) : Downward (.start :: items.flatMap Item.beginnings) := by
  rw [parseSurface, run_eq] at h
  cases hls : lexemes .start source with
  | error e => simp [hls, Except.bind] at h
  | ok ls =>
    cases hx : Nested.elements (Nested.ofDepth .surface maxNesting).surfaceElement ⟨none, ls⟩ with
    | error e => simp [hls, hx, Except.bind, Except.map] at h
    | ok r =>
      simp only [hls, hx, Except.bind, Except.map, Except.ok.injEq] at h
      subst h
      have hafter : Cursor.After ⟨none, ls⟩ [.start] := lexemes_downward hls
      have := Nested.orders_elements (Nested.builds_ofDepth .surface maxNesting)
        (Nested.ordered_ofDepth .surface maxNesting) ⟨none, ls⟩ [.start] hafter r.1 r.2 hx
      exact Downward.sublist this (List.sublist_append_left _ _)

end Hotload.Syntax
