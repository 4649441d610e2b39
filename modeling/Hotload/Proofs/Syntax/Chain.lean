import Mathlib
import Hotload.Proofs.Syntax.Reading

/-!
# Chains of operators

The operators of an expression are read level by level: what stands on the right of an operator is read by
a call of its own, which leaves the operators of lower levels to the calls around it. All these calls
together read one chain of operands with operators between them, and what they build can be built from
the chain afterwards, with the operators whose right operands are still open on a stack.

* `assemble`: the tree of a chain.
* `Nested.binaryTail`: what a call reads behind its first operand.
* `Nested.binaryTail_chainRest`: the calls that are open read the chain from where they are.
* `Nested.expression_eq`: an expression is a chain.
-/

namespace Hotload.Syntax

open Reader

/-! ## The tree of a chain -/

/-- Operators whose right operand is still open, each with its left operand, innermost first. -/
abbrev Pending := List (Expr × BinaryOp)

/-- The least level of an operator on the right of the pending ones. -/
def Pending.level : Pending → Nat
  | [] => 0
  | (_, op) :: _ => op.level + 1

/-- Closes the pending operators of at least this level over an operand. -/
def reduce (level : Nat) : Pending → Expr → Pending × Expr
  | [], e => ([], e)
  | (lhs, op) :: pending, e =>
    if level ≤ op.level then reduce level pending (.binary lhs.pos op lhs e)
    else ((lhs, op) :: pending, e)

/-- Continues a chain whose last operand is `e`. -/
def assembleFrom (pending : Pending) (e : Expr) : List (BinaryOp × Expr) → Expr
  | [] => (reduce 0 pending e).2
  | (op, rhs) :: rest =>
    let (pending, lhs) := reduce op.level pending e
    assembleFrom ((lhs, op) :: pending) rhs rest

/-- The tree of a first operand and the operators and operands after it. -/
def assemble (first : Expr) (rest : List (BinaryOp × Expr)) : Expr := assembleFrom [] first rest

theorem reduce_of_level_le {pending : Pending} {level : Nat} (h : pending.level ≤ level) (e : Expr) :
    reduce level pending e = (pending, e) := by
  cases pending with
  | nil => rfl
  | cons p pending => exact if_neg (Nat.not_le.2 h)

theorem BinaryOp.level_lt (op : BinaryOp) : op.level < levels := by
  cases op <;> decide

/-- The reader leaves no more tokens than there were. -/
def Reader.Shrinks {α : Type} (x : Reader α) : Prop :=
  ∀ c a c', x c = .ok (a, c') → c'.rest.length ≤ c.rest.length

namespace Nested

variable {inner : Nested} {levels least : Nat} {pending : Pending} {c c' : Cursor} {e e' : Expr}

theorem isEof_of_binaryOp? {t : Token} {op : BinaryOp} (h : binary.binaryOp? t = some op) :
    t.isEof = false := by
  cases t <;> simp_all [binary.binaryOp?, Token.isEof]

theorem length_advance {op : BinaryOp} (h : binary.binaryOp? c.token = some op) :
    c.advance.rest.length < c.rest.length :=
  (Cursor.took_advance (isEof_of_binaryOp? h)).length

/-! ## The chain in one go -/

/-- A round of a chain of operators. -/
def chainPick (inner : Nested) : Reader (Pick (BinaryOp × Expr)) := do
  match binary.binaryOp? (← token) with
  | none => return .stop
  | some op =>
    advance
    let rhs ← inner.operand
    return .more (op, rhs)

theorem chainPick_eq (c : Cursor) :
    chainPick inner c =
      match binary.binaryOp? c.token with
      | none => .ok (.stop, c)
      | some op => (inner.operand c.advance).map fun r => (.more (op, r.1), r.2) := by
  rw [chainPick, token_bind]
  split
  · rename_i hop
    rw [hop]
    rfl
  · rename_i op hop
    simp only [hop]
    rw [advance_bind, bind_apply]
    cases inner.operand c.advance <;> rfl

theorem advances_chainPick (h : Shrinks inner.operand) : Pick.Advances (chainPick inner) := by
  intro c r c' hr
  rw [chainPick_eq] at hr
  split at hr
  · cases hr
    exact Nat.le_refl _
  · rename_i op hop
    cases hi : inner.operand c.advance with
    | error e => simp [hi, Except.map] at hr
    | ok r₁ =>
      have h1 := h c.advance r₁.1 r₁.2 hi
      have h2 := length_advance hop
      simp only [hi, Except.map, Except.ok.injEq, Prod.mk.injEq] at hr
      obtain ⟨rfl, rfl⟩ := hr
      simp only [Pick.least]
      omega

/-- The rest of a chain whose last operand is `e`, and the tree of it all. -/
def chainRest (inner : Nested) (pending : Pending) (e : Expr) : Reader Expr := do
  let rest ← collect (chainPick inner)
  return assembleFrom pending e rest

theorem chainRest_eq (h : Shrinks inner.operand) (pending : Pending) (e : Expr) (c : Cursor) :
    inner.chainRest pending e c =
      match binary.binaryOp? c.token with
      | none => .ok ((reduce 0 pending e).2, c)
      | some op => (inner.operand c.advance).bind fun r =>
          inner.chainRest (((reduce op.level pending e).2, op) :: (reduce op.level pending e).1)
            r.1 r.2 := by
  rw [chainRest, bind_apply, collect_eq (advances_chainPick h), chainPick_eq]
  cases binary.binaryOp? c.token with
  | none => rfl
  | some op =>
    cases inner.operand c.advance with
    | error e => rfl
    | ok r =>
      simp only [Except.map, Except.bind, chainRest, bind_apply]
      cases collect (chainPick inner) r.2 <;> rfl

/-- Where no operator follows that binds tighter, the innermost pending one has its right operand. -/
theorem chainRest_close (h : Shrinks inner.operand) {lhs : Expr} {op : BinaryOp}
    (hnext : ∀ o, binary.binaryOp? c.token = some o → o.level ≤ op.level) :
    inner.chainRest ((lhs, op) :: pending) e c =
      inner.chainRest pending (.binary lhs.pos op lhs e) c := by
  have hreduce {level : Nat} (hlevel : level ≤ op.level) :
      reduce level ((lhs, op) :: pending) e = reduce level pending (.binary lhs.pos op lhs e) :=
    if_pos hlevel
  rw [chainRest_eq h, chainRest_eq h]
  cases hop : binary.binaryOp? c.token with
  | none => simp only [hreduce (Nat.zero_le _)]
  | some o => simp only [hreduce (hnext o hop)]

/-! ## The chain call by call -/

/-- A round of a call: an operator of its levels, and what stands on the right of it. -/
def binaryRound (inner : Nested) (levels least : Nat) (lhs : Expr) : Reader (Round Expr) := do
  match binary.binaryOp? (← token) with
  | none => return .done lhs
  | some op =>
    if op.level < least then return .done lhs
    else
      advance
      let rhs ← inner.binary levels (op.level + 1)
      return .again (.binary lhs.pos op lhs rhs)

/-- What a call reads behind its first operand. -/
def binaryTail (inner : Nested) : Nat → Nat → Expr → Reader Expr
  | 0, _, e => pure e
  | levels + 1, least, e => loop (inner.binaryRound levels least) e

theorem binary_eq (inner : Nested) (levels least : Nat) :
    inner.binary levels least = inner.operand >>= inner.binaryTail levels least := by
  cases levels with
  | zero => exact (bind_pure inner.operand).symm
  | succ levels => rfl

theorem binaryRound_eq (levels least : Nat) (lhs : Expr) (c : Cursor) :
    inner.binaryRound levels least lhs c =
      match binary.binaryOp? c.token with
      | none => .ok (.done lhs, c)
      | some op =>
        if op.level < least then .ok (.done lhs, c)
        else (inner.binary levels (op.level + 1) c.advance).map fun r =>
          (.again (.binary lhs.pos op lhs r.1), r.2) := by
  rw [binaryRound, token_bind]
  cases binary.binaryOp? c.token with
  | none => rfl
  | some op =>
    dsimp only
    split
    · rfl
    · rw [advance_bind, bind_apply]
      cases inner.binary levels (op.level + 1) c.advance <;> rfl

theorem advances_binaryRound (h : ∀ least, Shrinks (inner.binary levels least)) (least : Nat) :
    Advances (inner.binaryRound levels least) := by
  intro lhs c e c' hr
  rw [binaryRound_eq] at hr
  split at hr
  · cases hr
  · rename_i op hop
    split at hr
    · cases hr
    · cases hrhs : inner.binary levels (op.level + 1) c.advance with
      | error e => simp [hrhs, Except.map] at hr
      | ok r =>
        have hlength := h _ c.advance r.1 r.2 hrhs
        simp only [hrhs, Except.map, Except.ok.injEq, Prod.mk.injEq] at hr
        obtain ⟨-, rfl⟩ := hr
        exact hlength.trans_lt (length_advance hop)

theorem shrinks_binaryRound (h : ∀ least, Shrinks (inner.binary levels least)) (least : Nat)
    (lhs : Expr) : Shrinks (inner.binaryRound levels least lhs) := by
  intro c r c' hr
  cases r with
  | again e => exact (advances_binaryRound h least lhs c e c' hr).le
  | done e =>
    rw [binaryRound_eq] at hr
    split at hr
    · cases hr
      exact Nat.le_refl _
    · rename_i op hop
      split at hr
      · cases hr
        exact Nat.le_refl _
      · cases hrhs : inner.binary levels (op.level + 1) c.advance <;> simp [hrhs, Except.map] at hr

theorem shrinks_binary (h : Shrinks inner.operand) (levels least : Nat) :
    Shrinks (inner.binary levels least) := by
  induction levels generalizing least with
  | zero => exact h
  | succ levels ih =>
    intro c e c' hr
    rw [binary_eq, bind_apply] at hr
    cases hfirst : inner.operand c with
    | error e => simp [hfirst, Except.bind] at hr
    | ok r =>
      obtain ⟨first, c₁⟩ := r
      simp only [hfirst, Except.bind] at hr
      have hround : ∀ lhs c₂ r c₃, c₂.rest.length ≤ c₁.rest.length →
          inner.binaryRound levels least lhs c₂ = .ok (r, c₃) → c₃.rest.length ≤ c₁.rest.length :=
        fun lhs c₂ r c₃ hc hr => (shrinks_binaryRound ih least lhs c₂ r c₃ hr).trans hc
      have htail := loop_ok (I := fun _ c₂ => c₂.rest.length ≤ c₁.rest.length)
        (advances_binaryRound ih least) hround (Nat.le_refl _) hr
      exact htail.trans (h c first c₁ hfirst)

/-- Behind what a call reads no operator of its levels follows. -/
theorem level_lt_of_binaryTail (h : Shrinks inner.operand) (hlevels : BinaryOp.levels ≤ levels + least)
    (hr : inner.binaryTail levels least e c = .ok (e', c')) :
    c'.rest.length ≤ c.rest.length ∧
      ∀ op, binary.binaryOp? c'.token = some op → op.level < least := by
  cases levels with
  | zero =>
    cases hr
    exact ⟨Nat.le_refl _, fun op _ => op.level_lt.trans_le (by omega)⟩
  | succ levels =>
    have hbinary := shrinks_binary h levels
    refine loop_ends (I := fun _ c₁ => c₁.rest.length ≤ c.rest.length)
      (F := fun _ c₁ => c₁.rest.length ≤ c.rest.length ∧
        ∀ op, binary.binaryOp? c₁.token = some op → op.level < least)
      (advances_binaryRound hbinary least) (fun lhs c₁ s c₂ hc hround =>
        (shrinks_binaryRound hbinary least lhs c₁ _ c₂ hround).trans hc)
      (fun lhs c₁ s c₂ hc hround => ?_) (Nat.le_refl _) hr
    refine ⟨(shrinks_binaryRound hbinary least lhs c₁ _ c₂ hround).trans hc, fun op hop => ?_⟩
    rw [binaryRound_eq] at hround
    split at hround
    · rename_i hnone
      cases hround
      cases hnone.symm.trans hop
    · rename_i o ho
      split at hround
      · rename_i hlevel
        cases hround
        cases ho.symm.trans hop
        exact hlevel
      · cases hrhs : inner.binary levels (o.level + 1) c₁.advance <;>
          simp [hrhs, Except.map] at hround

/-- The innermost open call and then the rest of the chain are all that was left of the chain. Every
pending operator is one that an open call has read. -/
theorem binaryTail_chainRest (h : Shrinks inner.operand)
    (hlevels : BinaryOp.levels ≤ levels + pending.level) (e : Expr) (c : Cursor) :
    (inner.binaryTail levels pending.level e >>= inner.chainRest pending) c =
      inner.chainRest pending e c := by
  induction hn : c.rest.length using Nat.strong_induction_on generalizing levels pending e c with
  | _ n ih =>
    subst hn
    cases levels with
    | zero => rfl
    | succ levels =>
      have hstep : inner.binaryTail (levels + 1) pending.level e =
        loop (inner.binaryRound levels pending.level) e := rfl
      rw [bind_apply, hstep, loop_eq (advances_binaryRound (shrinks_binary h levels) _),
        binaryRound_eq]
      cases hop : binary.binaryOp? c.token with
      | none => rfl
      | some op =>
        dsimp only
        by_cases hlevel : op.level < pending.level
        · rw [if_pos hlevel]
          rfl
        · rw [if_neg hlevel, binary_eq, bind_apply, chainRest_eq h, hop]
          simp only [reduce_of_level_le (Nat.not_lt.1 hlevel)]
          cases hfirst : inner.operand c.advance with
          | error e => rfl
          | ok r =>
            obtain ⟨first, c₁⟩ := r
            have hc₁ := (h _ _ _ hfirst).trans_lt (length_advance hop)
            -- The operator that was read is pending for the call on its right.
            have hinner : BinaryOp.levels ≤ levels + Pending.level ((e, op) :: pending) := by
              simp only [Pending.level]
              omega
            have hright := ih _ hc₁ hinner first c₁ rfl
            simp only [Except.bind]
            rw [← hright, bind_apply]
            change _ = (inner.binaryTail levels (op.level + 1) first c₁).bind _
            cases htail : inner.binaryTail levels (op.level + 1) first c₁ with
            | error e => rfl
            | ok r =>
              obtain ⟨rhs, c₂⟩ := r
              obtain ⟨hc₂, hnext⟩ := level_lt_of_binaryTail h hinner htail
              simp only [Except.map, Except.bind]
              rw [chainRest_close h fun o ho => Nat.le_of_lt_succ (hnext o ho)]
              exact ih _ (hc₂.trans_lt hc₁) hlevels (.binary e.pos op e rhs) c₂ rfl

/-- An expression is a chain of operands with operators between them. -/
theorem expression_eq (h : Shrinks inner.operand) :
    inner.expression = (do
      let first ← inner.operand
      let rest ← collect (chainPick inner)
      return assemble first rest) := by
  rw [expression, binary_eq]
  congr 1
  funext first c
  have hlevels : BinaryOp.levels ≤ BinaryOp.levels + Pending.level [] := Nat.le_refl _
  have hchain : (inner.binaryTail BinaryOp.levels 0 first >>= inner.chainRest []) c =
      inner.chainRest [] first c := (binaryTail_chainRest h hlevels first c :)
  rw [bind_apply] at hchain
  refine Eq.trans ?_ hchain
  cases htail : inner.binaryTail BinaryOp.levels 0 first c with
  | error e => rfl
  | ok r =>
    obtain ⟨e, c'⟩ := r
    obtain ⟨-, hnext⟩ := level_lt_of_binaryTail h (Nat.le_refl _) htail
    have hend : binary.binaryOp? c'.token = none := by
      rw [Option.eq_none_iff_forall_ne_some]
      exact fun op hop => Nat.not_lt_zero _ (hnext op hop)
    simp only [Except.bind]
    rw [chainRest_eq h, hend]
    rfl

end Nested

end Hotload.Syntax
