import Mathlib
import Hotload.Proofs.Syntax.Dialects
import Hotload.Proofs.Syntax.ReadBack

/-!
# Precedence of operators

What tree a chain of operands and operators stands for. An operator has operators of its own level
and above on its left, and operators of greater levels only on its right. A tree of this kind is
told by its operands and operators in the order in which they are written, so nothing else is left
to choose.

* `Chained`: trees by the least level of their operators.
* `chained_assemble`: the tree that the reader builds from a chain.
* `Expr.inOrder`, `Expr.Leveled`: an expression from left to right, and the rule of its operators.
* `erase_eq_of_inOrder_eq`: there is one tree at most for a chain.
* `parse_chain`: the tree of a text that is a chain of variables.
-/

namespace Hotload.Syntax

open Reader

/-! ## Trees by levels -/

/-- The expression is an operand, or an operator of at least this level between two such trees: one
with operators of its level and above on the left, one with greater ones on the right. -/
inductive Chained (P : Expr → Prop) : Nat → Expr → Prop where
  | operand {level : Nat} {e : Expr} (h : P e) : Chained P level e
  | binary {level : Nat} {op : BinaryOp} {lhs rhs : Expr} (hop : level ≤ op.level)
    (hlhs : Chained P op.level lhs) (hrhs : Chained P (op.level + 1) rhs) :
    Chained P level (.binary lhs.pos op lhs rhs)

variable {P : Expr → Prop}

theorem Chained.mono {m n : Nat} {e : Expr} (h : Chained P n e) (hm : m ≤ n) : Chained P m e := by
  cases h with
  | operand h => exact .operand h
  | binary hop hlhs hrhs => exact .binary (hm.trans hop) hlhs hrhs

/-- What holds of operands and passes to operators between them holds of the tree. -/
theorem Chained.all {Q : Expr → Prop} {n : Nat} {e : Expr} (h : Chained P n e)
    (hoperand : ∀ e, P e → Q e)
    (hbinary : ∀ pos op lhs rhs, Q lhs → Q rhs → Q (.binary pos op lhs rhs)) : Q e := by
  induction h with
  | operand h => exact hoperand _ h
  | binary _ _ _ ihl ihr => exact hbinary _ _ _ _ ihl ihr

namespace Pending

/-- The levels of the pending operators rise, and their left operands are as they have to be. -/
def Rising (P : Expr → Prop) : Pending → Prop
  | [] => True
  | (lhs, op) :: pending => Chained P op.level lhs ∧ level pending ≤ op.level ∧ Rising P pending

end Pending

/-- Closing operators over a tree that may stand on their right keeps the others rising, and what
is closed may stand on the left of an operator of the given level. -/
theorem chained_reduce {level n : Nat} {pending : Pending} {e : Expr}
    (hp : Pending.Rising P pending) (he : Chained P n e) (hn : Pending.level pending ≤ n)
    (hlevel : level ≤ n) :
    Pending.Rising P (reduce level pending e).1 ∧
      Pending.level (reduce level pending e).1 ≤ level ∧
      Chained P level (reduce level pending e).2 := by
  induction pending generalizing e n with
  | nil => exact ⟨trivial, Nat.zero_le level, he.mono hlevel⟩
  | cons p pending ih =>
    obtain ⟨lhs, op⟩ := p
    obtain ⟨hlhs, hbelow, hrising⟩ := hp
    rw [reduce]
    split
    · rename_i hop
      have hclosed : Chained P op.level (.binary lhs.pos op lhs e) :=
        .binary (Nat.le_refl _) hlhs (he.mono hn)
      exact ih hrising hclosed hbelow hop
    · rename_i hop
      exact ⟨⟨hlhs, hbelow, hrising⟩, Nat.lt_of_not_le hop, he.mono hlevel⟩

theorem chained_assembleFrom {pending : Pending} {e : Expr} {rest : List (BinaryOp × Expr)}
    (hp : Pending.Rising P pending) (he : P e) (hrest : ∀ r ∈ rest, P r.2) :
    Chained P 0 (assembleFrom pending e rest) := by
  induction rest generalizing pending e with
  | nil => exact (chained_reduce hp (.operand he) (Nat.le_refl _) (Nat.zero_le _)).2.2
  | cons r rest ih =>
    obtain ⟨op, rhs⟩ := r
    have hoperand : Chained P (max (Pending.level pending) op.level) e := .operand he
    obtain ⟨hrising, hbelow, hlhs⟩ :=
      chained_reduce hp hoperand (Nat.le_max_left _ _) (Nat.le_max_right _ _)
    rw [assembleFrom]
    exact ih ⟨hlhs, hbelow, hrising⟩ (hrest (op, rhs) List.mem_cons_self)
      fun r h => hrest r (List.mem_cons_of_mem _ h)

/-- The tree of a chain of operands has its operators at their levels. -/
theorem chained_assemble {first : Expr} {rest : List (BinaryOp × Expr)} (hfirst : P first)
    (hrest : ∀ r ∈ rest, P r.2) : Chained P 0 (assemble first rest) := by
  have hrising : Pending.Rising P [] := trivial
  exact chained_assembleFrom hrising hfirst hrest

/-! ## From left to right -/

/-- The operands and the operators of an expression as they are written. -/
def Expr.inOrder : Expr → List (Expr ⊕ BinaryOp)
  | .binary _ op lhs rhs => lhs.inOrder ++ .inr op :: rhs.inOrder
  | e => [.inl e]

/-- The operators between the operands of an expression. -/
def Expr.operators (e : Expr) : List BinaryOp := e.inOrder.filterMap Sum.getRight?

/-- No operator on the left of another is of a lower level, and none on its right is of a lower
level or the same. -/
def Expr.Leveled : Expr → Prop
  | .binary _ op lhs rhs =>
    (∀ o ∈ lhs.operators, op.level ≤ o.level) ∧ (∀ o ∈ rhs.operators, op.level < o.level) ∧
      lhs.Leveled ∧ rhs.Leveled
  | _ => True

theorem Expr.mem_operators {e : Expr} {op : BinaryOp} :
    op ∈ e.operators ↔ .inr op ∈ e.inOrder := by
  simp [Expr.operators, Sum.getRight?_eq_some_iff]

theorem Expr.operators_binary (pos : Pos) (op : BinaryOp) (lhs rhs : Expr) :
    (Expr.binary pos op lhs rhs).operators = lhs.operators ++ op :: rhs.operators := by
  simp [Expr.operators, Expr.inOrder]

theorem inOrder_assemble (first : Expr) (rest : List (BinaryOp × Expr)) :
    (assemble first rest).inOrder =
      first.inOrder ++ rest.flatMap fun r => .inr r.1 :: r.2.inOrder :=
  flatMap_assemble_operators (f := Expr.inOrder) (g := fun op => [.inr op])
    (fun _ _ _ _ => rfl) first rest

/-- The expression is no operator between operands. -/
def Expr.IsOperand (e : Expr) : Prop := e.inOrder = [.inl e]

theorem Expr.isOperand_or (e : Expr) :
    e.IsOperand ∨ ∃ pos op lhs rhs, e = .binary pos op lhs rhs := by
  cases e with
  | binary pos op lhs rhs => exact .inr ⟨pos, op, lhs, rhs, rfl⟩
  | _ => exact .inl rfl

theorem Expr.IsOperand.operators {e : Expr} (h : e.IsOperand) : e.operators = [] := by
  have hinOrder : e.inOrder = [.inl e] := h
  rw [Expr.operators, hinOrder]
  rfl

theorem Expr.IsOperand.leveled {e : Expr} (h : e.IsOperand) : e.Leveled := by
  cases e with
  | binary pos op lhs rhs =>
    have hop : op ∈ (Expr.binary pos op lhs rhs).operators := by
      rw [Expr.operators_binary]
      exact List.mem_append_right _ List.mem_cons_self
    rw [h.operators] at hop
    exact absurd hop List.not_mem_nil
  | _ => trivial

theorem Chained.operators (hP : ∀ e, P e → e.IsOperand) {n : Nat} {e : Expr} (h : Chained P n e) :
    ∀ o ∈ e.operators, n ≤ o.level := by
  induction h with
  | operand he => simp [(hP _ he).operators]
  | @binary n op lhs rhs hop _ _ ihl ihr =>
    intro o ho
    rw [Expr.operators_binary, List.mem_append, List.mem_cons] at ho
    rcases ho with ho | rfl | ho
    · exact hop.trans (ihl o ho)
    · exact hop
    · exact hop.trans (Nat.le_of_succ_le (ihr o ho))

theorem Chained.leveled (hP : ∀ e, P e → e.IsOperand) {n : Nat} {e : Expr} (h : Chained P n e) :
    e.Leveled := by
  induction h with
  | operand he => exact (hP _ he).leveled
  | binary _ hlhs hrhs ihl ihr => exact ⟨hlhs.operators hP, hrhs.operators hP, ihl, ihr⟩

/-! ## One tree for a chain -/

theorem append_cons_inj {α : Type} {as bs as' bs' : List α} {x x' : α}
    (h : as ++ x :: bs = as' ++ x' :: bs') (hleft : ¬ (x ∈ as' ∧ x' ∈ bs))
    (hright : ¬ (x' ∈ as ∧ x ∈ bs')) : as = as' ∧ x = x' ∧ bs = bs' := by
  rcases List.append_eq_append_iff.mp h with ⟨cs, rfl, hcs⟩ | ⟨cs, rfl, hcs⟩
  · cases cs with
    | nil => simpa using hcs
    | cons c cs =>
      obtain ⟨rfl, rfl⟩ := List.cons.inj hcs
      exact absurd ⟨by simp, by simp⟩ hleft
  · cases cs with
    | nil => simpa [eq_comm] using hcs
    | cons c cs =>
      obtain ⟨rfl, rfl⟩ := List.cons.inj hcs
      exact absurd ⟨by simp, by simp⟩ hright

/-- Two trees whose operators keep the rule are the same tree if they are written the same. -/
theorem erase_eq_of_inOrder_eq {e e' : Expr} (h : e.Leveled) (h' : e'.Leveled)
    (heq : e.inOrder = e'.inOrder) : e.erase = e'.erase := by
  induction hn : e.inOrder.length using Nat.strong_induction_on generalizing e e' with
  | _ n ih =>
    rcases e.isOperand_or with ho | ⟨pos, op, lhs, rhs, rfl⟩
    · rcases e'.isOperand_or with ho' | ⟨pos', op', lhs', rhs', rfl⟩
      · rw [ho, ho'] at heq
        rw [Sum.inl.inj (List.singleton_inj.mp heq)]
      · have hop' : op' ∈ e.operators := by
          rw [Expr.mem_operators, heq, ← Expr.mem_operators, Expr.operators_binary]
          simp
        rw [ho.operators] at hop'
        exact absurd hop' List.not_mem_nil
    · rcases e'.isOperand_or with ho' | ⟨pos', op', lhs', rhs', rfl⟩
      · have hop : op ∈ e'.operators := by
          rw [Expr.mem_operators, ← heq, ← Expr.mem_operators, Expr.operators_binary]
          simp
        rw [ho'.operators] at hop
        exact absurd hop List.not_mem_nil
      · obtain ⟨hl, hr, hlhs, hrhs⟩ := h
        obtain ⟨hl', hr', hlhs', hrhs'⟩ := h'
        -- Of two operators that stand in each other's operands one would have to be both of a
        -- lower level than the other and not.
        obtain ⟨heql, hop, heqr⟩ := append_cons_inj heq
          (fun ⟨hm, hm'⟩ => absurd (hl' op (Expr.mem_operators.mpr hm))
            (Nat.not_le.mpr (hr op' (Expr.mem_operators.mpr hm'))))
          (fun ⟨hm, hm'⟩ => absurd (hl op' (Expr.mem_operators.mpr hm))
            (Nat.not_le.mpr (hr' op (Expr.mem_operators.mpr hm'))))
        simp only [Expr.inOrder, List.length_append, List.length_cons] at hn
        have hleft := ih lhs.inOrder.length (by omega) hlhs hlhs' heql rfl
        have hright := ih rhs.inOrder.length (by omega) hrhs hrhs' heqr rfl
        simp only [Expr.erase, Sum.inr.inj hop, hleft, hright]

theorem Expr.inOrder_erase (e : Expr) :
    e.erase.inOrder = e.inOrder.map (Sum.map Expr.erase id) := by
  induction e using Expr.inOrder.induct with
  | case1 pos op lhs rhs ihl ihr => simp [Expr.erase, Expr.inOrder, ihl, ihr]
  | case2 e he =>
    cases e with
    | binary pos op lhs rhs => exact absurd rfl (he pos op lhs rhs)
    | _ => rfl

/-! ## Texts that are chains of variables -/

/-- The tokens of a chain of variables. -/
def chainTokens (first : String) (rest : List (BinaryOp × String)) : List Token :=
  .ident first :: rest.flatMap fun r => [.mark r.1.mark, .ident r.2]

/-- No call and no access begins with the token. -/
def Token.EndsAccesses (t : Token) : Prop :=
  t ≠ .mark .lparen ∧ t ≠ .mark .dot ∧ t ≠ .mark .lbracket

namespace Cursor

/-- The tokens still to come, without their positions. -/
def tokens (c : Cursor) : List Token := c.rest.map Lexeme.token

variable {c : Cursor} {t : Token} {ts : List Token}

theorem token_of_tokens (h : c.tokens = t :: ts) : c.token = t := by
  unfold tokens at h
  unfold token
  cases hc : c.rest with
  | nil => simp [hc] at h
  | cons l ls => simp_all

theorem tokens_advance (h : c.tokens = t :: ts) (ht : t.isEof = false) : c.advance.tokens = ts := by
  have htoken : c.token = t := token_of_tokens h
  obtain ⟨l, hl⟩ := advance_rest (htoken ▸ ht)
  unfold tokens at h ⊢
  rw [hl] at h
  exact (List.cons.inj h).2

end Cursor

namespace Nested

variable {c : Cursor} {ts : List Token}

theorem accessRound_done {inner : Nested} (h : c.token.EndsAccesses) (e : Expr) :
    accessRound inner e c = .ok (.done e, c) := by
  obtain ⟨hlparen, hdot, hlbracket⟩ := h
  rw [accessRound, here_bind, token_bind]
  cases ht : c.token with
  | mark m =>
    cases m with
    | lparen => exact absurd ht hlparen
    | dot => exact absurd ht hdot
    | lbracket => exact absurd ht hlbracket
    | _ => rfl
  | _ => rfl

theorem operand_variable (dialect : Dialect) (depth : Nat) {name : String}
    (hc : c.token = .ident name) (hends : c.advance.token.EndsAccesses) :
    (ofDepth dialect (depth + 1)).operand c = .ok (.ident c.pos name, c.advance) := by
  have hprimary : (ofDepth dialect depth).primary c = .ok (.ident c.pos name, c.advance) := by
    rw [primary, here_bind, token_bind, hc]
    rfl
  have hbody : (ofDepth dialect (depth + 1)).operand c = (ofDepth dialect depth).accesses c := by
    change (ofDepth dialect depth).operandBody c = _
    rw [operandBody, here_bind, token_bind, hc]
  rw [hbody, accesses_apply, hprimary]
  change loop _ _ _ = _
  rw [loop_eq (advances_accessRound (builds_ofDepth dialect depth)), accessRound_done hends]
  rfl

theorem endsAccesses_mark (op : BinaryOp) : (Token.mark op.mark).EndsAccesses := by
  cases op <;> exact ⟨by simp [BinaryOp.mark], by simp [BinaryOp.mark], by simp [BinaryOp.mark]⟩

/-- What stands behind a variable in a chain ends its operand. -/
theorem endsAccesses_chain {rest : List (BinaryOp × String)}
    (hc : c.tokens = (rest.flatMap fun r => [.mark r.1.mark, .ident r.2]) ++ .mark .semi :: ts) :
    c.token.EndsAccesses := by
  cases rest with
  | nil =>
    rw [Cursor.token_of_tokens hc]
    exact ⟨by simp, by simp, by simp⟩
  | cons r rest =>
    rw [Cursor.token_of_tokens hc]
    exact endsAccesses_mark r.1

/-- The operators and variables of a chain are read in their order up to the semicolon. -/
theorem collect_variables (rest : List (BinaryOp × String))
    (hc : c.tokens = (rest.flatMap fun r => [.mark r.1.mark, .ident r.2]) ++ .mark .semi :: ts) :
    ∃ found c', c'.tokens = .mark .semi :: ts ∧
      found.map (Prod.map id Expr.erase) = rest.map (Prod.map id (Expr.ident .start)) ∧
      ∀ dialect depth, collect (chainPick (ofDepth dialect (depth + 1))) c = .ok (found, c') := by
  induction rest generalizing c with
  | nil =>
    refine ⟨[], c, hc, rfl, fun dialect depth => ?_⟩
    rw [collect_eq (advances_chainPick (builds_ofDepth dialect (depth + 1)).shrinks), chainPick_eq,
      Cursor.token_of_tokens hc]
    rfl
  | cons r rest ih =>
    obtain ⟨op, name⟩ := r
    have hop : c.token = .mark op.mark := Cursor.token_of_tokens hc
    have hname := Cursor.tokens_advance hc rfl
    have hrest := Cursor.tokens_advance hname rfl
    obtain ⟨found, c', hc', hfound, hcollect⟩ := ih hrest
    refine ⟨(op, .ident c.advance.pos name) :: found, c', hc', ?_, fun dialect depth => ?_⟩
    · rw [List.map_cons, hfound]
      rfl
    · rw [collect_eq (advances_chainPick (builds_ofDepth dialect (depth + 1)).shrinks), chainPick_eq, hop,
        binaryOp?_mark]
      simp only [operand_variable dialect depth (Cursor.token_of_tokens hname)
        (endsAccesses_chain hrest), Except.map, Except.bind, hcollect]

/-- A chain of variables and a semicolon are a statement. -/
theorem statement_chain (first : String) (rest : List (BinaryOp × String))
    (hc : c.tokens = chainTokens first rest ++ .mark .semi :: ts) :
    ∃ found c', c'.tokens = ts ∧
      found.map (Prod.map id Expr.erase) = rest.map (Prod.map id (Expr.ident .start)) ∧
      ∀ dialect depth, 0 < depth → (ofDepth dialect depth).statement c =
        .ok (.expr c.pos (assemble (.ident c.pos first) found), c') := by
  have hfirst : c.token = .ident first := Cursor.token_of_tokens hc
  have hrest := Cursor.tokens_advance hc rfl
  obtain ⟨found, c', hc', hfound, hcollect⟩ := collect_variables rest hrest
  refine ⟨found, c'.advance, Cursor.tokens_advance hc' rfl, hfound, fun dialect depth hdepth => ?_⟩
  obtain ⟨depth, rfl⟩ := Nat.exists_eq_add_of_lt hdepth
  rw [Nat.zero_add]
  have hexpression : (ofDepth dialect (depth + 1)).expression c =
      .ok (assemble (.ident c.pos first) found, c') := by
    rw [expression_eq (builds_ofDepth dialect (depth + 1)).shrinks, bind_apply,
      operand_variable dialect depth hfirst (endsAccesses_chain hrest)]
    simp only [Except.bind, bind_apply, hcollect, pure_apply]
  rw [statement, here_bind, token_bind, hfirst]
  simp only [expressionStatement, endStatement, bind_apply, hexpression, Except.bind, eat_apply,
    Cursor.token_of_tokens hc', Token.isMark, reduceCtorEq, decide_false, decide_true,
    Bool.false_eq_true, if_false, if_true, pure_apply]

end Nested

/-- The tree of a chain of variables has its operands and operators in the order of the chain. -/
theorem inOrder_variables {pos : Pos} {first : String} {rest : List (BinaryOp × String)}
    {found : List (BinaryOp × Expr)}
    (h : found.map (Prod.map id Expr.erase) = rest.map (Prod.map id (Expr.ident .start))) :
    (assemble (.ident pos first) found).erase.inOrder =
      .inl (.ident .start first) :: rest.flatMap fun r => [.inr r.1, .inl (.ident .start r.2)] := by
  have herase (v : BinaryOp × Expr) :
      (Sum.inr v.1 :: v.2.inOrder).map (Sum.map Expr.erase id) = .inr v.1 :: v.2.erase.inOrder := by
    rw [List.map_cons, Expr.inOrder_erase]
    rfl
  have hrest : (found.flatMap fun v => Sum.inr v.1 :: v.2.erase.inOrder) =
      rest.flatMap fun r => [.inr r.1, .inl (.ident .start r.2)] := by
    have hmap := congrArg (List.flatMap fun v => Sum.inr v.1 :: v.2.inOrder) h
    simpa only [List.flatMap_map, Prod.map_fst, Prod.map_snd, id_eq, Expr.inOrder] using hmap
  rw [Expr.inOrder_erase, inOrder_assemble, List.map_append, List.map_flatMap]
  simp only [herase, hrest]
  rfl

/-- Operands that are variables without their positions are variables. -/
theorem isOperand_variables {rest : List (BinaryOp × String)} {found : List (BinaryOp × Expr)}
    (h : found.map (Prod.map id Expr.erase) = rest.map (Prod.map id (Expr.ident .start))) :
    ∀ v ∈ found, v.2.IsOperand := by
  intro v hv
  have hmem := List.mem_map_of_mem (f := Prod.map id Expr.erase) hv
  rw [h] at hmem
  obtain ⟨r, -, hr⟩ := List.mem_map.mp hmem
  have herase : .ident .start r.2 = v.2.erase := congrArg Prod.snd hr
  rcases v.2.isOperand_or with ho | ⟨pos, op, lhs, rhs, hv⟩
  · exact ho
  · rw [hv] at herase
    cases herase

/-- Both dialects read a chain of variables as the tree that is assembled from it. -/
theorem parse_variables {first : String} {rest : List (BinaryOp × String)} {source : List Char}
    {ls : List Lexeme} (hsource : tokenize source = .ok ls)
    (htokens : ls.map Lexeme.token = chainTokens first rest ++ [.mark .semi, .eof]) :
    ∃ pos found,
      found.map (Prod.map id Expr.erase) = rest.map (Prod.map id (Expr.ident .start)) ∧
      parseCore source = .ok [.expr pos (assemble (.ident pos first) found)] ∧
      parseSurface source = .ok [.stmt (.expr pos (assemble (.ident pos first) found))] := by
  have hc : Cursor.tokens ⟨none, ls⟩ = chainTokens first rest ++ [.mark .semi, .eof] := htokens
  have hfirst : Cursor.token ⟨none, ls⟩ = .ident first := Cursor.token_of_tokens hc
  have hbegins : Nested.BeginsStatement (Cursor.token ⟨none, ls⟩) := by
    rw [hfirst]
    exact ⟨by simp, by simp⟩
  obtain ⟨found, c', hc', hfound, hstatement⟩ := Nested.statement_chain first rest hc
  have hend : c'.token = .eof := Cursor.token_of_tokens hc'
  have hread (dialect : Dialect) := hstatement dialect maxNesting (by decide)
  refine ⟨Cursor.pos ⟨none, ls⟩, found, hfound, ?_, ?_⟩
  · refine run_eq_ok_iff.mpr ⟨ls, c', hsource, ?_⟩
    have hbuilds := Nested.builds_ofDepth .core maxNesting
    rw [Nested.elements_cons (Nested.takesAt_coreElement hbuilds) (by simp [hfirst])
      (by simp [hfirst]), Nested.coreElement_statement hbegins, hread .core]
    simp only [Except.bind]
    rw [Nested.elements_end (Nested.takesAt_coreElement hbuilds) hend]
    rfl
  · refine run_eq_ok_iff.mpr ⟨ls, c', hsource, ?_⟩
    have hbuilds := Nested.builds_ofDepth .surface maxNesting
    rw [Nested.elements_cons (Nested.takesAt_surfaceElement hbuilds) (by simp [hfirst])
      (by simp [hfirst]), Nested.surfaceElement_statement hbegins, hread .surface]
    simp only [Except.bind, Except.map]
    rw [Nested.elements_end (Nested.takesAt_surfaceElement hbuilds) hend]

/-- A chain of variables in a text: its operators have spaces around them. -/
def chainCode (first : String) (rest : List (BinaryOp × String)) : List Char :=
  first.toList ++ ((rest.flatMap fun r =>
    ' ' :: (r.1.mark.spelling.toList ++ ' ' :: r.2.toList)) ++ [';'])

theorem lexemes_variable {name : String} (hname : IsName name) {cs : List Char}
    (hcs : EndsWord cs) {ts : List Token}
    (h : ∀ p, ∃ ls, lexemes p cs = .ok ls ∧ ls.map Lexeme.token = ts) (p : Pos) :
    ∃ ls, lexemes p (name.toList ++ cs) = .ok ls ∧ ls.map Lexeme.token = .ident name :: ts := by
  have hword : Token.ofWord (String.ofList name.toList) = .ident name := by
    rw [String.ofList_toList, Token.ofWord, hname.2]
  obtain ⟨ls, hls, hts⟩ := h (p.right name.toList.length)
  refine ⟨⟨.ident name, p⟩ :: ls, ?_, by rw [List.map_cons, hts]⟩
  rw [leads_word hname.1 hcs p, hls, hword]
  rfl

/-- The tokens of the text of a chain are those of the chain. -/
theorem lexemes_chainCode {first : String} {rest : List (BinaryOp × String)}
    (hfirst : IsName first) (hrest : ∀ r ∈ rest, IsName r.2) (p : Pos) :
    ∃ ls, lexemes p (chainCode first rest) = .ok ls ∧
      ls.map Lexeme.token = chainTokens first rest ++ [.mark .semi, .eof] := by
  induction rest generalizing first p with
  | nil =>
    refine lexemes_variable hfirst (fun c hc => ?_) (fun p => ?_) p
    · cases hc
      decide
    · have hsemi : Leads (.mark .semi) 1 [';'] [] := leads_mark .semi trivial
      exact ⟨[⟨.mark .semi, p⟩, ⟨.eof, p.right 1⟩], hsemi p, rfl⟩
  | cons r rest ih =>
    obtain ⟨op, name⟩ := r
    obtain ⟨hname, hrest⟩ := List.forall_mem_cons.mp hrest
    refine lexemes_variable hfirst (fun c hc => ?_) (fun p => ?_) p
    · cases hc
      decide
    · have hmark (rest : List Char) : op.mark.EndsBefore (' ' :: rest) := by
        cases op <;> simp [BinaryOp.mark, Mark.EndsBefore]
      obtain ⟨ls, hls, hts⟩ :=
        ih hname hrest (((p.next ' ').right op.mark.spelling.toList.length).next ' ')
      refine ⟨⟨.mark op.mark, p.next ' '⟩ :: ls, ?_, by rw [List.map_cons, hts]; rfl⟩
      simp only [List.flatMap_cons, List.cons_append, List.append_assoc]
      rw [lexemes_blank (by decide), leads_mark op.mark (hmark _), lexemes_blank (by decide)]
      simp only [chainCode] at hls
      rw [hls]
      rfl

/-- A chain of variables is read in either dialect. Its tree has the chain's operands and operators
in their order, and is the only tree that has them and whose operators keep the rule: none of a
lower level on the left, none of a lower level or the same on the right. -/
theorem parse_chain (first : String) (rest : List (BinaryOp × String)) {source : List Char}
    {ls : List Lexeme} (hsource : tokenize source = .ok ls)
    (htokens : ls.map Lexeme.token = chainTokens first rest ++ [.mark .semi, .eof]) :
    ∃ pos e, parseCore source = .ok [.expr pos e] ∧
      parseSurface source = .ok [.stmt (.expr pos e)] ∧
      e.erase.inOrder =
        .inl (.ident .start first) :: (rest.flatMap fun r =>
          [.inr r.1, .inl (.ident .start r.2)]) ∧
      e.Leveled ∧ ∀ e' : Expr, e'.Leveled → e'.inOrder = e.inOrder → e'.erase = e.erase := by
  obtain ⟨pos, found, hfound, hcore, hsurface⟩ := parse_variables hsource htokens
  have hchained : Chained Expr.IsOperand 0 (assemble (.ident pos first) found) :=
    chained_assemble rfl (isOperand_variables hfound)
  have hleveled := hchained.leveled fun _ he => he
  exact ⟨pos, _, hcore, hsurface, inOrder_variables hfound, hleveled,
    fun e' he' heq => erase_eq_of_inOrder_eq he' hleveled heq⟩

theorem parse_chain_of_three :
    ∃ ls, tokenize "a + b * c;".toList = .ok ls ∧
      ls.map Lexeme.token = chainTokens "a" [(.add, "b"), (.mul, "c")] ++ [.mark .semi, .eof] ∧
      ∃ pos e, parseCore "a + b * c;".toList = .ok [.expr pos e] ∧
        parseSurface "a + b * c;".toList = .ok [.stmt (.expr pos e)] ∧
        e.erase.inOrder = [.inl (.ident .start "a"), .inr .add, .inl (.ident .start "b"),
          .inr .mul, .inl (.ident .start "c")] ∧
        e.Leveled ∧ ∀ e' : Expr, e'.Leveled → e'.inOrder = e.inOrder → e'.erase = e.erase := by
  have ha : IsName "a" := ⟨by decide, by decide⟩
  have hrest : ∀ r ∈ [(BinaryOp.add, "b"), (.mul, "c")], IsName r.2 := by
    simp only [List.forall_mem_cons, IsName]
    decide
  have hcode : "a + b * c;".toList = chainCode "a" [(.add, "b"), (.mul, "c")] := by decide
  obtain ⟨ls, hls, htokens⟩ := lexemes_chainCode ha hrest .start
  rw [hcode]
  exact ⟨ls, hls, htokens, parse_chain "a" [(.add, "b"), (.mul, "c")] hls htokens⟩

end Hotload.Syntax
