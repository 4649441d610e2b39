import Mathlib
import Hotload.Proofs.Syntax.Chain

/-!
# The trees that the grammar gives

What holds of every tree that comes from a text: its names are names, its numbers have no sign, an
operator stands at its left operand, and an assignment has a target. Every reader of the grammar
takes a token at least and gives such a tree.

* `Expr.Built`, `Function.Built`, `Stmt.Built`: the property.
* `Nested.Builds`: readers that give trees with the property.
* `builds_ofDepth`: the readers of every nesting level do.
-/

namespace Hotload.Syntax

/-- The expression may stand in front of an assignment sign. -/
def Expr.IsTarget : Expr → Prop
  | .ident .. | .member .. | .index .. => True
  | _ => False

mutual

/-- The expression is one that the grammar gives. A variable is a name, except that the key of a
field without a value may be any text. -/
def Expr.Built : Expr → Prop
  | .nil _ | .bool _ _ | .str _ _ => True
  | .num _ value => IsMagnitude value
  | .ident _ name => IsName name
  | .list _ items => Expr.BuiltList items
  | .object _ fields => Expr.BuiltFields fields
  | .fn pos function => pos = function.pos ∧ function.Built
  | .call _ callee args => callee.Built ∧ Expr.BuiltList args
  | .member _ object name => object.Built ∧ Reader.IsPropertyName name
  | .index _ object index => object.Built ∧ index.Built
  | .unary _ _ operand => operand.Built
  | .binary pos _ lhs rhs => pos = lhs.pos ∧ lhs.Built ∧ rhs.Built

/-- The expressions are ones that the grammar gives. -/
def Expr.BuiltList : List Expr → Prop
  | [] => True
  | e :: es => e.Built ∧ Expr.BuiltList es

/-- The fields of an object literal are ones that the grammar gives. -/
def Expr.BuiltFields : List (String × Expr) → Prop
  | [] => True
  | (key, value) :: fields =>
    ((∃ pos, value = .ident pos key) ∨ value.Built) ∧ Expr.BuiltFields fields

/-- The function is one that the grammar gives. -/
def Function.Built : Function → Prop
  | .mk _ name params body =>
    (∀ n, name = some n → IsName n) ∧ (∀ p ∈ params, IsName p) ∧ Stmt.BuiltList body

/-- The statement is one that the grammar gives. The variable that it declares is a word: the name
of an import may be a keyword. -/
def Stmt.Built : Stmt → Prop
  | .declare _ name value => isIdentifier name.toList = true ∧ value.Built
  | .fn _ function => function.name.isSome = true ∧ function.Built
  | .return_ _ none => True
  | .return_ _ (some value) => value.Built
  | .throw_ _ value => value.Built
  | .if_ _ cond thenBody none => cond.Built ∧ Stmt.BuiltList thenBody
  | .if_ _ cond thenBody (some elseBody) =>
    cond.Built ∧ Stmt.BuiltList thenBody ∧ Stmt.BuiltList elseBody
  | .assign _ target value => target.IsTarget ∧ target.Built ∧ value.Built
  | .expr _ value => value.Built

/-- The statements are ones that the grammar gives. -/
def Stmt.BuiltList : List Stmt → Prop
  | [] => True
  | s :: ss => s.Built ∧ Stmt.BuiltList ss

end

/-- A field of an object literal is one that the grammar gives. -/
def FieldBuilt (field : String × Expr) : Prop :=
  (∃ pos, field.2 = .ident pos field.1) ∨ field.2.Built

theorem Expr.builtList_iff (es : List Expr) : Expr.BuiltList es ↔ ∀ e ∈ es, e.Built := by
  induction es with
  | nil => simp [Expr.BuiltList]
  | cons e es ih => simp [Expr.BuiltList, ih]

theorem Expr.builtFields_iff (fields : List (String × Expr)) :
    Expr.BuiltFields fields ↔ ∀ field ∈ fields, FieldBuilt field := by
  induction fields with
  | nil => simp [Expr.BuiltFields]
  | cons field fields ih => simp [Expr.BuiltFields, FieldBuilt, ih]

theorem Stmt.builtList_iff (ss : List Stmt) : Stmt.BuiltList ss ↔ ∀ s ∈ ss, s.Built := by
  induction ss with
  | nil => simp [Stmt.BuiltList]
  | cons s ss ih => simp [Stmt.BuiltList, ih]

/-! ## Chains of operators -/

theorem built_reduce (level : Nat) {pending : Pending} {e : Expr}
    (hp : ∀ p ∈ pending, p.1.Built) (he : e.Built) :
    (∀ p ∈ (reduce level pending e).1, p.1.Built) ∧ (reduce level pending e).2.Built := by
  induction pending generalizing e with
  | nil => exact ⟨hp, he⟩
  | cons p pending ih =>
    obtain ⟨lhs, op⟩ := p
    have hlhs : lhs.Built := hp (lhs, op) List.mem_cons_self
    have hrest : ∀ p ∈ pending, p.1.Built := fun p h => hp p (List.mem_cons_of_mem _ h)
    rw [reduce]
    split
    · exact ih hrest ⟨rfl, hlhs, he⟩
    · exact ⟨hp, he⟩

theorem built_assembleFrom {pending : Pending} {e : Expr} {rest : List (BinaryOp × Expr)}
    (hp : ∀ p ∈ pending, p.1.Built) (he : e.Built) (hr : ∀ r ∈ rest, r.2.Built) :
    (assembleFrom pending e rest).Built := by
  induction rest generalizing pending e with
  | nil => exact (built_reduce 0 hp he).2
  | cons r rest ih =>
    obtain ⟨op, rhs⟩ := r
    obtain ⟨hp', he'⟩ := built_reduce op.level hp he
    rw [assembleFrom]
    refine ih ?_ (hr (op, rhs) List.mem_cons_self) fun r h => hr r (List.mem_cons_of_mem _ h)
    intro p h
    rcases List.mem_cons.1 h with rfl | h
    · exact he'
    · exact hp' p h

section

variable {τ : Type} {f : Expr → List τ} {g : BinaryOp → List τ}
  (hf : ∀ pos op lhs rhs, f (.binary pos op lhs rhs) = f lhs ++ (g op ++ f rhs))

include hf

theorem flatMap_reduce (level : Nat) (pending : Pending) (e : Expr) :
    ((reduce level pending e).1.reverse.flatMap fun p => f p.1 ++ g p.2) ++
        f (reduce level pending e).2 =
      (pending.reverse.flatMap fun p => f p.1 ++ g p.2) ++ f e := by
  induction pending generalizing e with
  | nil => rfl
  | cons p pending ih =>
    obtain ⟨lhs, op⟩ := p
    rw [reduce]
    split
    · rw [ih]
      simp [hf]
    · rfl

theorem flatMap_assembleFrom (pending : Pending) (e : Expr) (rest : List (BinaryOp × Expr)) :
    f (assembleFrom pending e rest) =
      (pending.reverse.flatMap fun p => f p.1 ++ g p.2) ++ f e ++
        rest.flatMap fun r => g r.1 ++ f r.2 := by
  have hzero (pending : Pending) (e : Expr) : (reduce 0 pending e).1 = [] := by
    induction pending generalizing e with
    | nil => rfl
    | cons p pending ih =>
      rw [reduce, if_pos (Nat.zero_le _)]
      exact ih _
  induction rest generalizing pending e with
  | nil =>
    have hreduce := flatMap_reduce hf 0 pending e
    rw [hzero] at hreduce
    rw [assembleFrom, ← hreduce]
    simp
  | cons r rest ih =>
    obtain ⟨op, rhs⟩ := r
    have hreduce := flatMap_reduce hf op.level pending e
    rw [assembleFrom, ih]
    simp [← hreduce]

/-- What the operands and the operators of a chain have, in their order, its tree has. -/
theorem flatMap_assemble_operators (first : Expr) (rest : List (BinaryOp × Expr)) :
    f (assemble first rest) = f first ++ rest.flatMap fun r => g r.1 ++ f r.2 :=
  flatMap_assembleFrom hf [] first rest

end

/-- What the operands of a chain have, in their order, its tree has. -/
theorem flatMap_assemble {τ : Type} {f : Expr → List τ}
    (hf : ∀ pos op lhs rhs, f (.binary pos op lhs rhs) = f lhs ++ f rhs) (first : Expr)
    (rest : List (BinaryOp × Expr)) :
    f (assemble first rest) = f first ++ rest.flatMap fun r => f r.2 :=
  flatMap_assemble_operators (g := fun _ => []) hf first rest

/-! ## The readers of a nesting level -/

open Reader

/-- A parameter of a function, the type annotation behind it passed over. -/
def parameter : Reader String := do
  let param ← ident .parameterName
  skipAnnotation
  return param

theorem takesAt_parameter (c : Cursor) : TakesAt c 0 IsName parameter := by
  refine ((takesAt_ident .parameterName c).mono (Nat.zero_le 1)).bind fun param c' => ?_
  exact (takesAt_skipped c').bind fun _ c'' => .pure fun _ _ hparam => hparam

namespace Nested

/-- The readers give trees of the grammar and take a token at least. -/
structure Builds (inner : Nested) : Prop where
  block : ∀ c, TakesAt c 1 Stmt.BuiltList inner.block
  conditional : ∀ c, TakesAt c 1 Stmt.Built inner.conditional
  operand : ∀ c, TakesAt c 1 Expr.Built inner.operand

variable {inner : Nested}

theorem Builds.shrinks (h : inner.Builds) : Shrinks inner.operand := fun c e c' hr =>
  Nat.le_of_succ_le (h.operand c e c' hr).1.length

theorem takesAt_chainPick (h : inner.Builds) (c : Cursor) :
    TakesAt c 0 (Pick.All fun r => r.2.Built) (chainPick inner) := by
  refine .token ?_
  split
  · exact .pure fun _ => trivial
  · rename_i op hop
    refine (TakesAt.advance (isEof_of_binaryOp? hop) ?_).mono (Nat.zero_le 1)
    refine ((h.operand _).mono (Nat.zero_le 1)).bind fun rhs c' => ?_
    exact .pure fun _ hrhs _ => hrhs

theorem takesAt_expression (h : inner.Builds) (c : Cursor) :
    TakesAt c 1 Expr.Built inner.expression := by
  rw [expression_eq h.shrinks]
  refine (h.operand c).bind fun first c' => ?_
  refine (takesAt_collect (advances_chainPick h.shrinks) (takesAt_chainPick h) c').bind
    fun rest c'' => ?_
  exact .pure fun _ hrest hfirst =>
    built_assembleFrom (fun _ hp => absurd hp List.not_mem_nil) hfirst hrest

/-! ## Operands -/

theorem takesAt_arguments (h : inner.Builds) (close : Mark) (c : Cursor) :
    TakesAt c 0 Expr.BuiltList (inner.arguments close) := by
  refine (takesAt_commaList (fun c => (takesAt_expression h c).mono (Nat.zero_le 1)) c).bind
    fun items c' => ?_
  refine (TakesAt.expect ?_).mono (Nat.zero_le 1)
  exact .pure fun _ _ hitems => (Expr.builtList_iff items).mpr hitems

/-- A name behind the keyword of a function is its name. -/
theorem advance_token_isIdent {c : Cursor} {k : Keyword} (hk : c.token.isKeyword k = true)
    (h : c.second.isIdent = true) : c.advance.token.isIdent = true := by
  have heof := Cursor.isEof_of_isKeyword hk
  unfold Cursor.second at h
  split at h
  · rename_i l l' ls hc
    have hl : l.token.isEof = false := by simpa [Cursor.token, hc] using heof
    simpa [Cursor.advance, hc, hl, Cursor.token] using h
  · cases hc : c.token <;> simp_all [Token.isKeyword, Token.isIdent]

theorem takesAt_function (h : inner.Builds) (c : Cursor) :
    TakesAt c 1 (fun f : Function => f.pos = c.pos ∧
      (c.second.isIdent = true → f.name.isSome = true) ∧ f.Built) inner.function := by
  have htail (pos : Pos) (name : Option String) (c : Cursor) :
      TakesAt c 0 (fun f : Function => (∀ n, name = some n → IsName n) →
        f.pos = pos ∧ f.name = name ∧ f.Built) (do
        expect .lparen
        let params ← commaList .rparen parameter
        expect .rparen
        skipAnnotation
        let body ← inner.block
        return .mk pos name params body) := by
    refine (TakesAt.expect ?_).mono (Nat.zero_le 1)
    refine (takesAt_commaList takesAt_parameter _).bind fun params c' => ?_
    refine (TakesAt.expect ?_).mono (Nat.zero_le 1)
    refine (takesAt_skipped _).bind fun _ c'' => ?_
    refine ((h.block _).mono (Nat.zero_le 1)).bind fun body c₃ => ?_
    exact .pure fun _ hbody _ _ hparams _ hname => ⟨rfl, rfl, hname, hparams, hbody⟩
  refine .here ?_
  by_cases hk : c.token.isKeyword .fn = true
  · refine .expectKeyword (.token ?_)
    split
    · rename_i name hn
      refine (TakesAt.advance (by rw [hn]; rfl) ?_).mono (Nat.zero_le 1)
      refine (htail c.pos (some name) _).imp fun f _ hf hc _ => ?_
      obtain ⟨hpos, hname, hbuilt⟩ := hf fun n hname => by
        cases hname
        have := hc.token
        rwa [hn] at this
      exact ⟨hpos, fun _ => by rw [hname]; rfl, hbuilt⟩
    · rename_i hn
      refine (htail c.pos none _).imp fun f _ hf _ => ?_
      obtain ⟨hpos, hname, hbuilt⟩ := hf fun n hname => by cases hname
      refine ⟨hpos, fun hsecond => ?_, hbuilt⟩
      have hident := advance_token_isIdent hk hsecond
      cases ht : c.advance.token <;> simp [ht, Token.isIdent] at hident
      exact absurd ht (hn _)
  · intro f c' hr
    rw [expectKeyword_bind, if_neg hk] at hr
    cases hr

theorem takesAt_field (h : inner.Builds) (c : Cursor) : TakesAt c 1 FieldBuilt inner.field := by
  have htail (pos : Pos) (key : String) (c : Cursor) : TakesAt c 0 FieldBuilt (do
      if ← eat .colon then
        return (key, ← inner.expression)
      else
        return (key, .ident pos key)) := by
    refine .eat (fun _ => ?_) (fun _ => .pure fun _ => ?_)
    · refine ((takesAt_expression h _).mono (Nat.zero_le 1)).bind fun value c'' => ?_
      exact .pure fun _ hvalue _ => Or.inr hvalue
    · exact Or.inl ⟨_, rfl⟩
  refine .here (.token ?_)
  split
  · rename_i key hkey
    exact .advance (by rw [hkey]; rfl) ((htail c.pos key _).imp fun _ _ hf _ => hf)
  · exact (takesAt_propertyName c).bind fun key c' => (htail c.pos key c').imp fun _ _ hf _ => hf

theorem takesAt_primary (h : inner.Builds) (c : Cursor) :
    TakesAt c 1 Expr.Built inner.primary := by
  refine .here (.token ?_)
  split
  · rename_i value ht
    refine .advance (by rw [ht]; rfl) (.pure fun _ hc => ?_)
    have := hc.token
    rwa [ht] at this
  · rename_i value ht
    exact .advance (by rw [ht]; rfl) (.pure fun _ _ => trivial)
  · rename_i name ht
    refine .advance (by rw [ht]; rfl) (.pure fun _ hc => ?_)
    have := hc.token
    rwa [ht] at this
  · rename_i ht
    exact .advance (by rw [ht]; rfl) (.pure fun _ _ => trivial)
  · rename_i ht
    exact .advance (by rw [ht]; rfl) (.pure fun _ _ => trivial)
  · rename_i ht
    exact .advance (by rw [ht]; rfl) (.pure fun _ _ => trivial)
  · refine (takesAt_function h c).bind fun f c' => .pure fun _ hf => ?_
    exact ⟨hf.1.symm, hf.2.2⟩
  · rename_i ht
    refine .advance (by rw [ht]; rfl) ?_
    refine ((takesAt_expression h _).mono (Nat.zero_le 1)).bind fun e c' => ?_
    refine (TakesAt.expect ?_).mono (Nat.zero_le 1)
    exact .pure fun _ _ he _ => he
  · rename_i ht
    refine .advance (by rw [ht]; rfl) ?_
    exact (takesAt_arguments h .rbracket _).bind fun items c' => .pure fun _ hitems _ => hitems
  · rename_i ht
    refine .advance (by rw [ht]; rfl) ?_
    refine (takesAt_commaList (fun c => (takesAt_field h c).mono (Nat.zero_le 1)) _).bind
      fun fields c' => ?_
    refine (TakesAt.expect ?_).mono (Nat.zero_le 1)
    exact .pure fun _ _ hfields _ => (Expr.builtFields_iff fields).mpr hfields
  · exact .unexpected _

/-- One call or access behind an expression. -/
def accessRound (inner : Nested) (e : Expr) : Reader (Round Expr) := do
  let pos ← here
  match ← token with
  | .mark .lparen =>
    advance
    return .again (.call pos e (← inner.arguments .rparen))
  | .mark .dot =>
    advance
    return .again (.member pos e (← propertyName))
  | .mark .lbracket =>
    advance
    let index ← inner.expression
    expect .rbracket
    return .again (.index pos e index)
  | _ => return .done e

theorem accesses_eq (inner : Nested) :
    inner.accesses = (do loop (accessRound inner) (← inner.primary)) := rfl

/-- A round passes nothing, or it takes a token and puts the expression into a call or an
access. -/
theorem accessRound_cases (h : inner.Builds) (e : Expr) (c : Cursor) :
    accessRound inner e c = .ok (.done e, c) ∨
      TakesAt c 1 (fun r => e.Built → r.state.Built) (accessRound inner e) := by
  have hdone (hr : accessRound inner e c = .ok (.done e, c)) :
      accessRound inner e c = .ok (.done e, c) ∨
        TakesAt c 1 (fun r => e.Built → r.state.Built) (accessRound inner e) := .inl hr
  cases ht : c.token with
  | mark m =>
    cases m with
    | lparen =>
      refine .inr (.here (.token ?_))
      rw [ht]
      refine TakesAt.advance (by rw [ht]; rfl) ?_
      exact (takesAt_arguments h .rparen _).bind fun args c' =>
        .pure fun _ hargs _ he => ⟨he, hargs⟩
    | dot =>
      refine .inr (.here (.token ?_))
      rw [ht]
      refine TakesAt.advance (by rw [ht]; rfl) ?_
      exact ((takesAt_propertyName _).mono (Nat.zero_le 1)).bind fun name c' =>
        .pure fun _ hname _ he => ⟨he, hname⟩
    | lbracket =>
      refine .inr (.here (.token ?_))
      rw [ht]
      refine TakesAt.advance (by rw [ht]; rfl) ?_
      refine ((takesAt_expression h _).mono (Nat.zero_le 1)).bind fun index c' => ?_
      refine (TakesAt.expect ?_).mono (Nat.zero_le 1)
      exact .pure fun _ _ hindex _ he => ⟨he, hindex⟩
    | _ =>
      refine hdone ?_
      rw [accessRound, here_bind, token_bind, ht]
      rfl
  | _ =>
    refine hdone ?_
    rw [accessRound, here_bind, token_bind, ht]
    rfl

theorem takesAt_accessRound (h : inner.Builds) (e : Expr) (c : Cursor) :
    TakesAt c 0 (fun r => e.Built → r.state.Built) (accessRound inner e) := by
  rcases accessRound_cases h e c with hdone | htakes
  · intro r c' hr
    rw [hdone] at hr
    cases hr
    exact ⟨.refl c, fun _ he => he⟩
  · exact htakes.mono (Nat.zero_le 1)

theorem advances_accessRound (h : inner.Builds) : Advances (accessRound inner) := by
  intro e c e' c' hr
  rcases accessRound_cases h e c with hdone | htakes
  · rw [hdone] at hr
    cases hr
  · exact (htakes _ _ hr).1.length

theorem takesAt_accesses (h : inner.Builds) (c : Cursor) :
    TakesAt c 1 Expr.Built inner.accesses := by
  rw [accesses_eq]
  refine (takesAt_primary h c).bind fun e c' => ?_
  exact (takesAt_loop (advances_accessRound h) (takesAt_accessRound h) e c').imp
    fun e' _ he' he => he' he

theorem takesAt_operandBody (h : inner.Builds) (c : Cursor) :
    TakesAt c 1 Expr.Built inner.operandBody := by
  refine .here (.token ?_)
  split
  · rename_i ht
    refine .advance (by rw [ht]; rfl) ?_
    refine ((h.operand _).mono (Nat.zero_le 1)).bind fun operand c' => ?_
    exact .pure fun _ hoperand _ => hoperand
  · rename_i ht
    refine .advance (by rw [ht]; rfl) ?_
    refine ((h.operand _).mono (Nat.zero_le 1)).bind fun operand c' => ?_
    exact .pure fun _ hoperand _ => hoperand
  · exact takesAt_accesses h c

/-! ## Statements -/

theorem takesAt_declaration (h : inner.Builds) (c : Cursor) :
    TakesAt c 1 (fun r : String × Expr => IsName r.1 ∧ r.2.Built) inner.declaration := by
  refine (takesAt_ident _ c).bind fun name c₁ => ?_
  refine (takesAt_skipped c₁).bind fun _ c₂ => ?_
  refine (TakesAt.expect ?_).mono (Nat.zero_le 1)
  refine ((takesAt_expression h _).mono (Nat.zero_le 1)).bind fun value c₃ => ?_
  refine (takesAt_endStatement c₃).bind fun _ c₄ => ?_
  exact .pure fun _ _ hvalue _ _ hname => ⟨hname, hvalue⟩

theorem takesAt_expressionStatement (h : inner.Builds) (pos : Pos) (c : Cursor) :
    TakesAt c 1 Stmt.Built (inner.expressionStatement pos) := by
  refine (takesAt_expression h c).bind fun e c₁ => .eat (fun _ => ?_) (fun _ => ?_)
  · rw [if_pos rfl]
    have hassign (ht : e.IsTarget) : TakesAt c₁.advance 0
        (fun s : Stmt => c₁.Lexical → e.Built → s.Built) (do
          let value ← inner.expression
          endStatement
          return .assign pos e value) := by
      refine ((takesAt_expression h _).mono (Nat.zero_le 1)).bind fun value c₂ => ?_
      refine (takesAt_endStatement c₂).bind fun _ c₃ => ?_
      exact .pure fun _ _ hvalue _ he => ⟨ht, he, hvalue⟩
    split
    · exact hassign trivial
    · exact hassign trivial
    · exact hassign trivial
    · exact .fail _ _
  · refine (takesAt_endStatement c₁).bind fun _ c₂ => ?_
    exact .pure fun _ _ he => he

theorem takesAt_statement (h : inner.Builds) (c : Cursor) :
    TakesAt c 1 Stmt.Built inner.statement := by
  refine .here (.token ?_)
  split
  · rename_i ht
    refine .advance (by rw [ht]; rfl) ?_
    refine ((takesAt_declaration h _).mono (Nat.zero_le 1)).bind fun r c' => ?_
    exact .pure fun _ hr _ => ⟨hr.1.1, hr.2⟩
  · refine .get ?_
    split
    · rename_i hsecond
      refine (takesAt_function h c).bind fun f c' => .pure fun _ hf => ?_
      exact ⟨hf.2.1 hsecond, hf.2.2⟩
    · exact takesAt_expressionStatement h _ c
  · rename_i ht
    refine .advance (by rw [ht]; rfl) (.check ?_)
    split
    · exact (takesAt_endStatement _).bind fun _ c' => .pure fun _ _ _ => trivial
    · refine .check ?_
      split
      · exact .pure fun _ _ => trivial
      · refine ((takesAt_expression h _).mono (Nat.zero_le 1)).bind fun value c' => .check ?_
        split
        · exact .pure fun _ hvalue _ => hvalue
        · refine (takesAt_endStatement c').bind fun _ c'' => ?_
          exact .pure fun _ _ hvalue _ => hvalue
  · rename_i ht
    refine .advance (by rw [ht]; rfl) ?_
    refine ((takesAt_expression h _).mono (Nat.zero_le 1)).bind fun value c' => ?_
    refine (takesAt_endStatement c').bind fun _ c'' => ?_
    exact .pure fun _ _ hvalue _ => hvalue
  · exact h.conditional c
  · exact takesAt_expressionStatement h _ c

/-! ## Blocks -/

/-- A round of the statements in braces. -/
def blockPick (dialect : Dialect) (inner : Nested) : Reader (Pick Stmt) := do
  if ← check .rbrace then return .stop
  match ← token with
  | .eof => unexpected (.mark .rbrace)
  | .mark .semi =>
    advance
    return .skip
  | .keyword .import_ => fail (dialect.refusal .import_) (← here)
  | .keyword .export_ => fail (dialect.refusal .export_) (← here)
  | _ => return .more (← inner.statement)

theorem again_eq_more {α : Type} (x : Reader α) (found : List α) (c : Cursor) :
    (do return .again ((← x) :: found) : Reader (Round (List α))) c =
      ((do return .more (← x) : Reader (Pick α)) c).map fun r => (r.1.onto found, r.2) := by
  rw [bind_apply, bind_apply]
  cases x c <;> rfl

theorem blockBody_eq (dialect : Dialect) (inner : Nested) :
    inner.blockBody dialect = (do
      expect .lbrace
      let body ← collect (blockPick dialect inner)
      advance
      return body) := by
  unfold blockBody
  congr 1
  funext _
  rw [collect, bind_assoc]
  congr 1
  congr 1
  funext found c
  have hmore := again_eq_more inner.statement found c
  rw [Pick.round_eq, blockPick, check_bind, check_bind]
  split
  · rfl
  · rw [token_bind, token_bind]
    cases ht : c.token with
    | mark m =>
      cases m with
      | semi => rfl
      | _ => exact hmore
    | keyword k =>
      cases k with
      | import_ => rfl
      | export_ => rfl
      | _ => exact hmore
    | eof => rfl
    | _ => exact hmore

theorem takesAt_more {α : Type} {x : Reader α} {P : α → Prop} {c : Cursor} (h : TakesAt c 1 P x) :
    TakesAt c 1 (Pick.All P) (do return .more (← x)) :=
  h.bind fun _ _ => .pure fun _ hx => hx

/-- A round of a block stops, or it takes a token. -/
theorem blockPick_cases (h : inner.Builds) (dialect : Dialect) (c : Cursor) :
    blockPick dialect inner c = .ok (.stop, c) ∨
      TakesAt c 1 (Pick.All Stmt.Built) (blockPick dialect inner) := by
  by_cases hm : c.token.isMark .rbrace = true
  · left
    rw [blockPick, check_bind, if_pos hm]
    rfl
  · refine .inr (.check ?_)
    rw [if_neg hm]
    refine .token ?_
    split
    · exact .unexpected _
    · rename_i ht
      refine .advance (by rw [ht]; rfl) ?_
      exact .pure fun _ _ => trivial
    · exact .here (.fail _ _)
    · exact .here (.fail _ _)
    · exact takesAt_more (takesAt_statement h c)

theorem advances_of_cases {α : Type} {pick : Reader (Pick α)} {P : α → Prop}
    (h : ∀ c, pick c = .ok (.stop, c) ∨ TakesAt c 1 (Pick.All P) pick) : Pick.Advances pick := by
  intro c r c' hr
  rcases h c with hstop | htakes
  · rw [hstop] at hr
    cases hr
    exact Nat.le_refl _
  · have := (htakes r c' hr).1.length
    cases r <;> simp only [Pick.least] <;> omega

theorem takesAt_of_cases {α : Type} {pick : Reader (Pick α)} {P : α → Prop} {c : Cursor}
    (h : pick c = .ok (.stop, c) ∨ TakesAt c 1 (Pick.All P) pick) :
    TakesAt c 0 (Pick.All P) pick := by
  rcases h with hstop | htakes
  · intro r c' hr
    rw [hstop] at hr
    cases hr
    exact ⟨.refl c, fun _ => trivial⟩
  · exact htakes.mono (Nat.zero_le 1)

theorem takesAt_blockBody (h : inner.Builds) (dialect : Dialect) (c : Cursor) :
    TakesAt c 1 Stmt.BuiltList (inner.blockBody dialect) := by
  have hpick := blockPick_cases h dialect
  rw [blockBody_eq]
  refine .expect ?_
  refine (takesAt_collect (advances_of_cases hpick) (fun c => takesAt_of_cases (hpick c)) _).bind
    fun body c' => ?_
  refine (takesAt_advance c').bind fun _ c'' => ?_
  exact .pure fun _ _ hbody _ => (Stmt.builtList_iff body).mpr hbody

theorem takesAt_conditionalBody (h : inner.Builds) (c : Cursor) :
    TakesAt c 1 Stmt.Built inner.conditionalBody := by
  refine .here (.expectKeyword ?_)
  refine (TakesAt.expect ?_).mono (Nat.zero_le 1)
  refine ((takesAt_expression h _).mono (Nat.zero_le 1)).bind fun cond c₁ => ?_
  refine (TakesAt.expect ?_).mono (Nat.zero_le 1)
  refine ((h.block _).mono (Nat.zero_le 1)).bind fun thenBody c₂ => .checkKeyword ?_
  split
  · rename_i hk
    refine (TakesAt.advance (Cursor.isEof_of_isKeyword hk) (.checkKeyword ?_)).mono (Nat.zero_le 1)
    split
    · refine ((h.conditional _).mono (Nat.zero_le 1)).bind fun nested c₃ => ?_
      exact .pure fun _ hnested _ hthen _ hcond _ _ => ⟨hcond, hthen, hnested, trivial⟩
    · refine ((h.block _).mono (Nat.zero_le 1)).bind fun elseBody c₃ => ?_
      exact .pure fun _ helse _ hthen _ hcond _ _ => ⟨hcond, hthen, helse⟩
  · exact .pure fun _ hthen _ hcond _ _ => ⟨hcond, hthen⟩

/-- The readers of every nesting level give trees of the grammar. -/
theorem builds_ofDepth (dialect : Dialect) (depth : Nat) : (ofDepth dialect depth).Builds := by
  induction depth with
  | zero => exact ⟨fun _ => .here (.fail _ _), fun _ => .here (.fail _ _), fun _ => .here (.fail _ _)⟩
  | succ depth ih =>
    exact ⟨takesAt_blockBody ih dialect, takesAt_conditionalBody ih, takesAt_operandBody ih⟩

/-! ## Programs -/

/-- A round of the elements of a program. -/
def elementPick {α : Type} (element : Reader α) : Reader (Pick α) := do
  match ← token with
  | .eof => return .stop
  | .mark .semi =>
    advance
    return .skip
  | _ => return .more (← element)

theorem elements_eq {α : Type} (element : Reader α) :
    elements element = collect (elementPick element) := by
  unfold elements collect
  congr 1
  congr 1
  funext found c
  have hmore := again_eq_more element found c
  rw [Pick.round_eq, elementPick, token_bind, token_bind]
  cases ht : c.token with
  | mark m =>
    cases m with
    | semi => rfl
    | _ => exact hmore
  | eof => rfl
  | _ => exact hmore

theorem elementPick_cases {α : Type} {element : Reader α} {P : α → Prop}
    (h : ∀ c, TakesAt c 1 P element) (c : Cursor) :
    elementPick element c = .ok (.stop, c) ∨
      TakesAt c 1 (Pick.All P) (elementPick element) := by
  cases ht : c.token with
  | mark m =>
    refine .inr (.token ?_)
    rw [ht]
    cases m with
    | semi =>
      refine .advance (by rw [ht]; rfl) ?_
      exact .pure fun _ _ => trivial
    | _ => exact takesAt_more (h c)
  | eof =>
    left
    rw [elementPick, token_bind, ht]
    rfl
  | _ =>
    refine .inr (.token ?_)
    rw [ht]
    exact takesAt_more (h c)

theorem takesAt_elements {α : Type} {element : Reader α} {P : α → Prop}
    (h : ∀ c, TakesAt c 1 P element) (c : Cursor) :
    TakesAt c 0 (fun xs => ∀ x ∈ xs, P x) (elements element) := by
  have hpick := elementPick_cases h
  rw [elements_eq]
  exact takesAt_collect (advances_of_cases hpick) (fun c => takesAt_of_cases (hpick c)) c

theorem takesAt_coreElement (h : inner.Builds) (c : Cursor) :
    TakesAt c 1 Stmt.Built inner.coreElement := by
  refine .token ?_
  split
  · exact .here (.fail _ _)
  · exact .here (.fail _ _)
  · exact takesAt_statement h c

end Nested

/-- The names that an import binds are words, and all but those in braces are names. -/
def ImportClause.Built : ImportClause → Prop
  | .sideEffect => True
  | .default_ name | .namespace_ name => IsName name
  | .named names => ∀ n ∈ names, IsPropertyName n.1 ∧ IsPropertyName n.2

/-- The export is one that the grammar gives. -/
def ExportForm.Built : ExportForm → Prop
  | .default_ value => value.Built
  | .fn function _ => function.name.isSome = true ∧ function.Built
  | .declare name value => IsName name ∧ value.Built
  | .names pairs => ∀ n ∈ pairs, IsName n.1 ∧ IsPropertyName n.2

/-- The item is one that the grammar gives. -/
def Item.Built : Item → Prop
  | .stmt s => s.Built
  | .import_ _ clause _ => clause.Built
  | .export_ _ form => form.Built

namespace Nested

variable {inner : Nested}

/-- A pair of names has what its parts have. -/
theorem takesAt_paired {first second : Reader String} {P Q : String → Prop}
    (hfirst : ∀ c, TakesAt c 1 P first) (hsecond : ∀ c, TakesAt c 1 Q second)
    (hpq : ∀ name, P name → Q name) (c : Cursor) :
    TakesAt c 0 (fun n => P n.1 ∧ Q n.2) (paired first second) := by
  refine ((hfirst c).mono (Nat.zero_le 1)).bind fun name c' => .checkKeyword ?_
  split
  · rename_i hk
    refine (TakesAt.advance (Cursor.isEof_of_isKeyword hk) ?_).mono (Nat.zero_le 1)
    refine ((hsecond _).mono (Nat.zero_le 1)).bind fun alias_ c'' => ?_
    exact .pure fun _ halias _ hname => ⟨hname, halias⟩
  · exact .pure fun _ hname => ⟨hname, hpq name hname⟩

theorem takesAt_nameList {P : String × String → Prop} {pair : Reader (String × String)}
    (h : ∀ c, TakesAt c 0 P pair) (c : Cursor) :
    TakesAt c 0 (fun names => ∀ n ∈ names, P n) (nameList pair) := by
  refine (TakesAt.expect ?_).mono (Nat.zero_le 1)
  refine (takesAt_commaList h _).bind fun names c' => ?_
  refine (TakesAt.expect ?_).mono (Nat.zero_le 1)
  exact .pure fun _ _ hnames _ => hnames

theorem takesAt_importedNames (c : Cursor) :
    TakesAt c 0 (fun names => ∀ n ∈ names, IsPropertyName n.1 ∧ IsPropertyName n.2)
      importedNames :=
  takesAt_nameList (takesAt_paired takesAt_propertyName
    (fun c => (takesAt_ident .importedName c).imp fun _ _ => isPropertyName_of_isName)
    fun _ => id) c

theorem takesAt_exportedNames (c : Cursor) :
    TakesAt c 0 (fun names => ∀ n ∈ names, IsName n.1 ∧ IsPropertyName n.2) exportedNames :=
  takesAt_nameList (takesAt_paired (takesAt_ident .exportedName) takesAt_propertyName
    fun _ => isPropertyName_of_isName) c

theorem takesAt_importClause (c : Cursor) :
    TakesAt c 0 ImportClause.Built importClause := by
  refine .token ?_
  split
  · rename_i name ht
    refine (TakesAt.advance (by rw [ht]; rfl) ?_).mono (Nat.zero_le 1)
    refine .pure fun _ hc => ?_
    have := hc.token
    rwa [ht] at this
  · rename_i ht
    refine (TakesAt.advance (by rw [ht]; rfl) ?_).mono (Nat.zero_le 1)
    refine (TakesAt.expectKeyword ?_).mono (Nat.zero_le 1)
    refine ((takesAt_ident _ _).mono (Nat.zero_le 1)).bind fun name c' => ?_
    exact .pure fun _ hname _ _ => hname
  · exact (takesAt_importedNames c).bind fun names c' => .pure fun _ hnames => hnames
  · exact .unexpected _

theorem takesAt_importDeclaration (c : Cursor) :
    TakesAt c 1 Item.Built importDeclaration := by
  refine .here (.expectKeyword (.token ?_))
  split
  · rename_i source ht
    refine (TakesAt.advance (by rw [ht]; rfl) ?_).mono (Nat.zero_le 1)
    refine (takesAt_endStatement _).bind fun _ c' => ?_
    exact .pure fun _ _ _ _ => trivial
  · refine (takesAt_importClause _).bind fun clause c₁ => ?_
    refine (TakesAt.expectKeyword ?_).mono (Nat.zero_le 1)
    refine ((takesAt_string _ _).mono (Nat.zero_le 1)).bind fun source c₂ => ?_
    refine (takesAt_endStatement c₂).bind fun _ c₃ => ?_
    exact .pure fun _ _ _ _ hclause _ => hclause

theorem takesAt_exportForm (h : inner.Builds) (c : Cursor) :
    TakesAt c 0 ExportForm.Built inner.exportForm := by
  refine .token ?_
  split
  · rename_i ht
    refine (TakesAt.advance (by rw [ht]; rfl) (.checkKeyword (.get ?_))).mono (Nat.zero_le 1)
    split
    · rename_i hsecond
      rw [Bool.and_eq_true] at hsecond
      refine ((takesAt_function h _).mono (Nat.zero_le 1)).bind fun f c' => ?_
      exact .pure fun _ hf _ => ⟨hf.2.1 hsecond.2, hf.2.2⟩
    · refine ((takesAt_expression h _).mono (Nat.zero_le 1)).bind fun value c' => ?_
      refine (takesAt_endStatement c').bind fun _ c'' => ?_
      exact .pure fun _ _ hvalue _ => hvalue
  · refine .get ?_
    split
    · rename_i hsecond
      refine ((takesAt_function h c).mono (Nat.zero_le 1)).bind fun f c' => ?_
      exact .pure fun _ hf => ⟨hf.2.1 hsecond, hf.2.2⟩
    · exact .here (.fail _ _)
  · rename_i ht
    refine (TakesAt.advance (by rw [ht]; rfl) ?_).mono (Nat.zero_le 1)
    refine ((takesAt_declaration h _).mono (Nat.zero_le 1)).bind fun r c' => ?_
    exact .pure fun _ hr _ => hr
  · refine (takesAt_exportedNames c).bind fun names c' => ?_
    refine (takesAt_endStatement c').bind fun _ c'' => ?_
    exact .pure fun _ _ hnames => hnames
  · exact .unexpected _

theorem takesAt_surfaceElement (h : inner.Builds) (c : Cursor) :
    TakesAt c 1 Item.Built inner.surfaceElement := by
  refine .token ?_
  split
  · exact takesAt_importDeclaration c
  · refine .here (.expectKeyword ?_)
    exact (takesAt_exportForm h _).bind fun form c' => .pure fun _ hform _ => hform
  · exact (takesAt_statement h c).bind fun s c' => .pure fun _ hs => hs

end Nested

/-! ## Texts -/

theorem run_eq {α : Type} (reader : Reader α) (source : List Char) :
    reader.run source = (lexemes .start source).bind fun ls =>
      (reader ⟨none, ls⟩).map (·.1) := by
  rw [Reader.run, tokenize_eq]
  cases lexemes .start source with
  | error e => rfl
  | ok ls =>
    simp only [bind, Except.bind, StateT.run]
    cases reader ⟨none, ls⟩ <;> rfl

/-- What holds of everything that a reader gives holds of what it gives for a text. -/
theorem of_run {α : Type} {reader : Reader α} {source : List Char} {a : α} {n : Nat}
    {P : α → Prop} (h : ∀ c, TakesAt c n P reader) (hr : reader.run source = .ok a) : P a := by
  rw [run_eq] at hr
  cases hls : lexemes .start source with
  | error e => simp [hls, Except.bind] at hr
  | ok ls =>
    cases hx : reader ⟨none, ls⟩ with
    | error e => simp [hls, hx, Except.bind, Except.map] at hr
    | ok r =>
      simp only [hls, hx, Except.bind, Except.map, Except.ok.injEq] at hr
      rw [← hr]
      exact (h ⟨none, ls⟩ r.1 r.2 hx).2 (lexemes_lexical hls)

/-- Every tree of a surface program is one that the grammar gives. -/
theorem built_of_parseSurface {source : List Char} {items : List Item}
    (h : parseSurface source = .ok items) : ∀ item ∈ items, item.Built :=
  of_run (Nested.takesAt_elements
    (Nested.takesAt_surfaceElement (Nested.builds_ofDepth .surface maxNesting))) h

end Hotload.Syntax
