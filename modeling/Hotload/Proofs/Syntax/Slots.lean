import Mathlib
import Hotload.Proofs.Syntax.Precedence

/-!
# Where types may be written

A type annotation may stand behind the name that a `let` declares, behind a parameter and behind a
list of parameters. Which tokens these are can be told from left to right without a grammar: a
keyword behind a dot is the name of a property, and a list of parameters has names and commas only.

* `Spot.after`: what some tokens say about the place behind them.
* `IsAnnotation`: a colon, the name of a type and pairs of brackets.
* `Retyped`: the same tokens with annotations removed and inserted where they may stand.
* `Cursor.tokens_eq_of_advance`, `second_isIdent`: what a cursor shows of the tokens.
-/

namespace Hotload.Syntax

/-- What a type may be written behind. -/
inductive Slot where
  /-- The name of a declared variable. -/
  | variable_
  | parameter
  /-- The list of the parameters of a function. -/
  | result
deriving DecidableEq, Repr

/-- What the tokens so far say about the next one. -/
inductive Spot where
  | code
  /-- Behind a dot, where a keyword is a name. -/
  | property
  /-- Behind the keyword of a declaration. -/
  | let_
  /-- Behind the keyword of a function. -/
  | fn
  /-- Behind the name of a function. -/
  | fnName
  /-- Where a parameter or the end of the parameters is due. -/
  | params
  | slot (s : Slot)
  /-- Behind the colon of an annotation. -/
  | colon (s : Slot)
  /-- Behind a type, which more brackets may follow. -/
  | typed (s : Slot)
  /-- Behind the first bracket of a pair. -/
  | bracket (s : Slot)
deriving DecidableEq, Repr

/-- The spot behind a token of which nothing is known. -/
def Token.spot : Token → Spot
  | .mark .dot => .property
  | .keyword .let_ => .let_
  | .keyword .fn => .fn
  | _ => .code

/-- The spot behind the token that follows what may have a type. -/
def Slot.leave : Slot → Token → Spot
  | .parameter, .mark .comma => .params
  | .parameter, .mark .rparen => .slot .result
  | _, t => t.spot

/-- The token is the name of a type. -/
def Token.isTypeName : Token → Bool
  | .ident _ | .keyword .nil => true
  | _ => false

namespace Spot

/-- The spot behind one more token. -/
def step : Spot → Token → Spot
  | .property, _ => .code
  | .let_, .ident _ => .slot .variable_
  | .fn, .ident _ => .fnName
  | .fn, .mark .lparen => .params
  | .fnName, .mark .lparen => .params
  | .params, .ident _ => .slot .parameter
  | .params, .mark .rparen => .slot .result
  | .slot s, .mark .colon => .colon s
  | .slot s, t => s.leave t
  | .colon s, t => if t.isTypeName then .typed s else t.spot
  | .typed s, .mark .lbracket => .bracket s
  | .typed s, t => s.leave t
  | .bracket s, .mark .rbracket => .typed s
  | _, t => t.spot

/-- The spot behind some tokens. -/
def after : Spot → List Token → Spot := List.foldl step

example : Spot.code.after [.keyword .fn, .mark .lparen, .ident "a", .mark .rparen] =
    .slot .result := rfl

example : Spot.code.after [.mark .dot, .keyword .fn, .mark .lparen, .ident "a", .mark .rparen] =
    .code := rfl

/-- A type may be written at the spot. -/
def isSlot : Spot → Bool
  | .slot _ => true
  | _ => false

theorem after_append (q : Spot) (ts ts' : List Token) :
    q.after (ts ++ ts') = (q.after ts).after ts' := List.foldl_append

theorem step_slot {s : Slot} {t : Token} (h : t.isMark .colon = false) :
    (Spot.slot s).step t = s.leave t := by
  cases t with
  | mark m => cases m <;> first | rfl | cases h
  | _ => rfl

theorem step_typed {s : Slot} {t : Token} (h : t.isMark .lbracket = false) :
    (Spot.typed s).step t = s.leave t := by
  cases t with
  | mark m => cases m <;> first | rfl | cases h
  | _ => rfl

theorem spot_ne_colon (t : Token) (s : Slot) : t.spot ≠ .colon s := by
  unfold Token.spot
  split <;> nofun

theorem leave_ne_colon (s' : Slot) (t : Token) (s : Slot) : s'.leave t ≠ .colon s := by
  unfold Slot.leave
  split
  · nofun
  · nofun
  · exact spot_ne_colon t s

/-- A colon belongs to a type only behind what may have one. -/
theorem step_eq_colon {q : Spot} {t : Token} {s : Slot} (h : q.step t = .colon s) :
    q = .slot s ∧ t = .mark .colon := by
  unfold step at h
  split at h
  case h_8 => cases h; exact ⟨rfl, rfl⟩
  case h_9 => exact absurd h (leave_ne_colon _ _ _)
  case h_10 =>
    split at h
    · cases h
    · exact absurd h (spot_ne_colon _ _)
  case h_12 => exact absurd h (leave_ne_colon _ _ _)
  all_goals first | cases h | exact absurd h (spot_ne_colon _ _)

end Spot

/-! ## Annotations -/

/-- Pairs of brackets. -/
def brackets : Nat → List Token
  | 0 => []
  | n + 1 => .mark .lbracket :: .mark .rbracket :: brackets n

/-- A colon, the name of a type and pairs of brackets. -/
def IsAnnotation (ts : List Token) : Prop :=
  ∃ t n, t.isTypeName = true ∧ ts = .mark .colon :: t :: brackets n

/-- The tokens neither begin an annotation nor continue one. -/
def Unannotated : List Token → Prop
  | .mark .colon :: _ => False
  | .mark .lbracket :: .mark .rbracket :: _ => False
  | _ => True

/-- Two token sequences that differ in annotations at places where annotations may stand: some are
removed, some are inserted. The spot is the one in front of both. -/
inductive Retyped : Spot → List Token → List Token → Prop
  | nil (q : Spot) : Retyped q [] []
  | keep {q : Spot} {t : Token} {ts ts' : List Token} (h : Retyped (q.step t) ts ts') :
    Retyped q (t :: ts) (t :: ts')
  | remove {s : Slot} {a ts ts' : List Token} (ha : IsAnnotation a) (hts : Unannotated ts)
    (h : Retyped (.typed s) ts ts') : Retyped (.slot s) (a ++ ts) ts'
  | insert {s : Slot} {a ts ts' : List Token} (ha : IsAnnotation a) (hts : Unannotated ts)
    (h : Retyped (.typed s) ts ts') : Retyped (.slot s) ts (a ++ ts')

namespace Retyped

variable {q : Spot} {s : Slot} {a ts ts' : List Token}

theorem refl (q : Spot) (ts : List Token) : Retyped q ts ts := by
  induction ts generalizing q with
  | nil => exact .nil q
  | cons t ts ih => exact .keep (ih _)

/-- The tokens in front of a change stay. -/
theorem keepAll {pre : List Token} (h : Retyped (q.after pre) ts ts') :
    Retyped q (pre ++ ts) (pre ++ ts') := by
  induction pre generalizing q with
  | nil => exact h
  | cons t pre ih => exact .keep (ih h)

/-- An annotation removed where it may stand. -/
theorem of_remove {pre : List Token} (hq : q.after pre = .slot s) (ha : IsAnnotation a)
    (hts : Unannotated ts) : Retyped q (pre ++ (a ++ ts)) (pre ++ ts) :=
  keepAll (hq ▸ .remove ha hts (.refl _ ts))

/-- An annotation inserted where it may stand. -/
theorem of_insert {pre : List Token} (hq : q.after pre = .slot s) (ha : IsAnnotation a)
    (hts : Unannotated ts) : Retyped q (pre ++ ts) (pre ++ (a ++ ts)) :=
  keepAll (hq ▸ .insert ha hts (.refl _ ts))

/-- Apart from the places of annotations the next token is the same. -/
theorem cases_of_not_slot (hq : q.isSlot = false) (h : Retyped q ts ts') :
    (ts = [] ∧ ts' = []) ∨
      ∃ t us us', ts = t :: us ∧ ts' = t :: us' ∧ Retyped (q.step t) us us' := by
  cases h with
  | nil => exact .inl ⟨rfl, rfl⟩
  | keep h => exact .inr ⟨_, _, _, rfl, rfl, h⟩
  | remove => cases hq
  | insert => cases hq

/-- Behind a type both sides end the annotation or both go on with it. -/
theorem unannotated (h : Retyped (.typed s) ts ts') (hts : Unannotated ts) : Unannotated ts' := by
  rcases h.cases_of_not_slot rfl with ⟨rfl, rfl⟩ | ⟨t, us, us', rfl, rfl, hus⟩
  · exact hts
  · cases t with
    | mark m =>
      cases m with
      | lbracket =>
        have hbracket : Retyped (.bracket s) us us' := hus
        rcases hbracket.cases_of_not_slot rfl with ⟨rfl, rfl⟩ | ⟨u, vs, vs', rfl, rfl, -⟩
        · exact hts
        · cases u with
          | mark m => cases m <;> exact hts
          | _ => exact hts
      | colon => exact hts
      | _ => trivial
    | _ => trivial

end Retyped

/-! ## Cursors -/

namespace Cursor

theorem token_eq_head? (c : Cursor) : c.token = c.tokens.head?.getD .eof := by
  unfold token tokens
  cases c.rest <;> rfl

theorem tokens_eq_of_advance {c : Cursor} (h : c.token.isEof = false) :
    c.tokens = c.token :: c.advance.tokens := by
  obtain ⟨previous, rest⟩ := c
  cases rest with
  | nil => cases h
  | cons l ls =>
    have hl : l.token.isEof = false := h
    simp [tokens, token, advance, hl]

theorem advance_previous {c : Cursor} (h : c.token.isEof = false) :
    c.advance.previous = some c.token := by
  obtain ⟨previous, rest⟩ := c
  cases rest with
  | nil => cases h
  | cons l ls =>
    have hl : l.token.isEof = false := h
    simp [token, advance, hl]

/-- Behind a keyword or a mark the second token is the next one but one. -/
theorem second_isIdent {c : Cursor} (heof : c.token.isEof = false)
    (hident : c.token.isIdent = false) : c.second.isIdent = c.advance.token.isIdent := by
  obtain ⟨previous, rest⟩ := c
  rcases rest with _ | ⟨l, _ | ⟨l', ls⟩⟩
  · cases heof
  · have hl : l.token.isEof = false := heof
    simp only [advance, hl]
    exact hident
  · have hl : l.token.isEof = false := heof
    simp [second, token, advance, hl]

/-- Behind a token that is not the end the second mark is the next one but one, if it is another. -/
theorem second_isMark {c : Cursor} {m : Mark} (heof : c.token.isEof = false)
    (hm : c.token.isMark m = false) : c.second.isMark m = c.advance.token.isMark m := by
  obtain ⟨previous, rest⟩ := c
  rcases rest with _ | ⟨l, _ | ⟨l', ls⟩⟩
  · cases heof
  · have hl : l.token.isEof = false := heof
    simp only [advance, hl]
    exact hm
  · have hl : l.token.isEof = false := heof
    simp [second, token, advance, hl]

end Cursor

end Hotload.Syntax
