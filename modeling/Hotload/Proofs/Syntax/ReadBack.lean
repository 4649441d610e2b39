import Mathlib
import Hotload.Proofs.Syntax.Likeness

/-!
# Reading a printed tree

The core grammar reads the tokens of a printed tree back as that tree, unless a keyword stands for a
variable or the tree nests too deep; then it stops with a fault.

* `Begins`: the tokens to come begin with those of a printed tree.
* `Meets`: a result is the tree that was printed, or a fault for one of the two reasons.
* `Expr.Reads`, `Stmt.Reads`: what is shown of every tree, by induction on it.
* `reads_program`: a whole program.
-/

namespace Hotload.Syntax

open Reader
open Spelt (mark keyword word names)

variable {ρ : Pos → Pos → Prop}

/-! ## Tokens to come -/

/-- The tokens begin with those of a printed tree, at positions that `ρ` relates to those of its
nodes, as far as these are known. -/
def Begins (ρ : Pos → Pos → Prop) : List Lexeme → List Spelt → Prop
  | _, [] => True
  | _, .raw :: _ => True
  | [], .token _ _ :: _ => False
  | l :: ls, .token t source :: K =>
    l.token = t ∧ (∀ q, source = some q → ρ l.pos q) ∧ Begins ρ ls K

theorem begins_raw (ls : List Lexeme) (K : List Spelt) : Begins ρ ls (.raw :: K) := by
  cases ls <;> trivial

/-- Characters that are read as the tokens of a tree begin with them. -/
theorem begins_of_scans {cs ds : List Char} {K L : List Spelt} {p q : Pos}
    (h : Scans ρ p cs K q ds) {ls : List Lexeme} (hl : lexemes p cs = .ok ls)
    (hL : ∀ ls, lexemes q ds = .ok ls → Begins ρ ls L) : Begins ρ ls (K ++ L) := by
  induction h generalizing ls with
  | done => exact hL ls hl
  | blank hb _ ih =>
    rw [lexemes_blank hb] at hl
    exact ih hl hL
  | @token t n source p q cs ds es K hs ht _ ih =>
    rw [ht p] at hl
    cases hr : lexemes (p.right n) ds with
    | error e => simp [hr, Except.map] at hl
    | ok ls' =>
      simp only [hr, Except.map, Except.ok.injEq] at hl
      rw [← hl]
      exact ⟨rfl, hs, ih hr hL⟩
  | raw => exact begins_raw _ _

/-- Characters that are read as tokens without gaps have tokens. -/
theorem lexemes_of_scans {cs ds : List Char} {K : List Spelt} {p q : Pos}
    (h : Scans ρ p cs K q ds) (hK : Spelt.raw ∉ K) :
    ∃ found, lexemes p cs = (lexemes q ds).map (found ++ ·) := by
  induction h with
  | @done p cs => exact ⟨[], by cases lexemes p cs <;> rfl⟩
  | blank hb _ ih =>
    rw [lexemes_blank hb]
    exact ih hK
  | @token t n source p q cs ds es K _ ht _ ih =>
    obtain ⟨found, hfound⟩ := ih fun h => hK (List.mem_cons_of_mem _ h)
    refine ⟨⟨t, p⟩ :: found, ?_⟩
    rw [ht p, hfound]
    cases lexemes q es <;> rfl
  | raw => exact absurd List.mem_cons_self hK

namespace Begins

variable {c : Cursor} {t : Token} {source : Option Pos} {K L : List Spelt}

/-- There is a token to come that is the printed one. -/
theorem exists_cons {ls : List Lexeme} (h : Begins ρ ls (.token t source :: K)) :
    ∃ l ls', ls = l :: ls' ∧ l.token = t ∧ (∀ q, source = some q → ρ l.pos q) ∧ Begins ρ ls' K := by
  cases ls with
  | nil => exact False.elim h
  | cons l ls => exact ⟨l, ls, rfl, h⟩

theorem token (h : Begins ρ c.rest (.token t source :: K)) : c.token = t := by
  obtain ⟨l, ls, hrest, htoken, -⟩ := h.exists_cons
  rw [Cursor.token, hrest]
  exact htoken

theorem pos {q : Pos} (h : Begins ρ c.rest (.token t (some q) :: K)) : ρ c.pos q := by
  obtain ⟨l, ls, hrest, -, hpos, -⟩ := h.exists_cons
  rw [Cursor.pos, hrest]
  exact hpos q rfl

theorem advance (h : Begins ρ c.rest (.token t source :: K)) (ht : t.isEof = false) :
    Begins ρ c.advance.rest K := by
  have htoken := h.token
  obtain ⟨l, hl⟩ := Cursor.advance_rest (c := c) (by rw [htoken]; exact ht)
  rw [hl] at h
  exact h.2.2

theorem second {u : Token} {s : Option Pos}
    (h : Begins ρ c.rest (.token t source :: .token u s :: K)) : c.second = u := by
  obtain ⟨l, ls, hrest, -, -, hbehind⟩ := h.exists_cons
  obtain ⟨l', ls', rfl, htoken, -⟩ := hbehind.exists_cons
  rw [Cursor.second, hrest]
  exact htoken

end Begins

/-! ## Outcomes -/

section

variable {α β : Type}

/-- The result is what was printed, with the tokens `K` left, if it is sayable and fits; else it is
a fault, which for something sayable is that it nests too deep. -/
def Meets (ρ : Pos → Pos → Prop) (sayable fits : Prop) (same : α → Prop) (K : List Spelt) :
    Except SyntaxError (α × Cursor) → Prop
  | .ok (a, c) => sayable ∧ fits ∧ same a ∧ Begins ρ c.rest K
  | .error e => ¬ sayable ∨ (¬ fits ∧ e.fault = .tooDeep)

variable {s fits s' fits' : Prop} {same : α → Prop} {same' : β → Prop} {K L : List Spelt}

theorem Meets.ok {a : α} {c : Cursor} (hs : s) (hf : fits) (ha : same a)
    (hK : Begins ρ c.rest K) : Meets ρ s fits same K (.ok (a, c)) := ⟨hs, hf, ha, hK⟩

/-- The two outcomes of a part, and what they say about the whole. -/
theorem Meets.bind {x : Except SyntaxError (α × Cursor)}
    {f : α × Cursor → Except SyntaxError (β × Cursor)} (hx : Meets ρ s fits same K x)
    (hs : s' → s) (hf : s' → fits' → fits)
    (h : ∀ a c, s → fits → same a → Begins ρ c.rest K → Meets ρ s' fits' same' L (f (a, c))) :
    Meets ρ s' fits' same' L (x.bind f) := by
  cases x with
  | ok r =>
    obtain ⟨a, c⟩ := r
    obtain ⟨h1, h2, h3, h4⟩ := hx
    exact h a c h1 h2 h3 h4
  | error e =>
    rcases hx with hn | ⟨hn, he⟩
    · exact .inl fun h' => hn (hs h')
    · by_cases h' : s'
      · exact .inr ⟨fun hfit => hn (hf h' hfit), he⟩
      · exact .inl h'

theorem Meets.congr {same' : α → Prop} {x : Except SyntaxError (α × Cursor)}
    (hx : Meets ρ s fits same K x) (hs : s ↔ s') (hf : fits ↔ fits')
    (h : ∀ a, same a → same' a) : Meets ρ s' fits' same' K x := by
  rw [← hs, ← hf]
  cases x with
  | ok r => exact ⟨hx.1, hx.2.1, h _ hx.2.2.1, hx.2.2.2⟩
  | error e => exact hx

theorem Meets.map {x : Except SyntaxError (α × Cursor)} {f : α × Cursor → β × Cursor}
    (hx : Meets ρ s fits same K x) (hs : s' ↔ s) (hf : s' → (fits' ↔ fits))
    (h : ∀ a c, same a → Begins ρ c.rest K → same' (f (a, c)).1 ∧ Begins ρ (f (a, c)).2.rest L) :
    Meets ρ s' fits' same' L (x.map f) := by
  cases x with
  | ok r =>
    obtain ⟨a, c⟩ := r
    obtain ⟨h1, h2, h3, h4⟩ := hx
    have hsay := hs.mpr h1
    exact ⟨hsay, (hf hsay).mpr h2, h a c h3 h4⟩
  | error e =>
    rcases hx with hn | ⟨hn, he⟩
    · exact .inl fun h' => hn (hs.mp h')
    · by_cases h' : s'
      · exact .inr ⟨fun hfit => hn ((hf h').mp hfit), he⟩
      · exact .inl h'

end

/-! ## Likeness -/

/-- Two trees that differ in positions only, which `ρ` relates node by node. -/
structure Like {α β : Type} (ρ : Pos → Pos → Prop) (erase : α → β) (positions : α → List Pos)
    (v n : α) : Prop where
  erase : erase v = erase n
  positions : List.Forall₂ ρ (positions v) (positions n)

/-- Expressions that differ in positions only. -/
abbrev Expr.Alike (ρ : Pos → Pos → Prop) : Expr → Expr → Prop := Like ρ Expr.erase Expr.positions

/-- Lists of expressions that differ in positions only. -/
abbrev Expr.AlikeList (ρ : Pos → Pos → Prop) : List Expr → List Expr → Prop :=
  Like ρ Expr.eraseList Expr.positionsList

/-- Fields that differ in positions only. -/
abbrev Expr.AlikeFields (ρ : Pos → Pos → Prop) :
    List (String × Expr) → List (String × Expr) → Prop :=
  Like ρ Expr.eraseFields Expr.positionsFields

/-- Functions that differ in positions only. -/
abbrev Function.Alike (ρ : Pos → Pos → Prop) : Function → Function → Prop :=
  Like ρ Function.erase Function.positions

/-- Statements that differ in positions only. -/
abbrev Stmt.Alike (ρ : Pos → Pos → Prop) : Stmt → Stmt → Prop := Like ρ Stmt.erase Stmt.positions

/-- Lists of statements that differ in positions only. -/
abbrev Stmt.AlikeList (ρ : Pos → Pos → Prop) : List Stmt → List Stmt → Prop :=
  Like ρ Stmt.eraseList Stmt.positionsList

theorem Expr.Alike.pos {v n : Expr} (h : v.Alike ρ n) : ρ v.pos n.pos := by
  obtain ⟨ps, hv⟩ := v.positions_head
  obtain ⟨qs, hn⟩ := n.positions_head
  have := h.positions
  rw [hv, hn] at this
  exact (List.forall₂_cons.mp this).1

/-! ## What follows an expression -/

/-- An expression ends here: the next token is none that could continue it. -/
def Closed (K : List Spelt) : Prop :=
  ∃ m s L, K = .token (.mark m) s :: L ∧
    (m = .rparen ∨ m = .rbracket ∨ m = .rbrace ∨ m = .comma ∨ m = .semi ∨ m = .assign)

/-- An operand ends here: the next token is a mark that begins no call or access. -/
def Parted (K : List Spelt) : Prop :=
  ∃ m s L, K = .token (.mark m) s :: L ∧ m ≠ .lparen ∧ m ≠ .dot ∧ m ≠ .lbracket

theorem Closed.parted {K : List Spelt} (h : Closed K) : Parted K := by
  obtain ⟨m, s, L, rfl, hm⟩ := h
  refine ⟨m, s, L, rfl, ?_⟩
  rcases hm with rfl | rfl | rfl | rfl | rfl | rfl <;> exact ⟨by decide, by decide, by decide⟩

/-- The tokens that an expression may begin with. -/
def Token.Opens : Token → Prop
  | .num _ | .str _ | .ident _ => True
  | .keyword k => k = .nil ∨ k = .true_ ∨ k = .false_ ∨ k = .fn
  | .mark m => m = .lparen ∨ m = .lbracket ∨ m = .lbrace ∨ m = .bang ∨ m = .minus
  | .eof => False

/-- The token is an operator in front of an operand. -/
def Token.IsUnary (t : Token) : Prop := t = .mark .bang ∨ t = .mark .minus

/-- The expression is an operator in front of an operand. -/
def Expr.IsUnary : Expr → Prop
  | .unary .. => True
  | _ => False

/-- The expression is a function. -/
def Expr.IsFn : Expr → Prop
  | .fn .. => True
  | _ => False

/-- The tokens of an expression begin with one that may begin an expression. -/
def Heads (e : Expr) (K : List Spelt) : Prop :=
  ∃ t s L, K = .token t s :: L ∧ t.Opens ∧ (t.IsUnary → e.IsUnary) ∧
    (t = .keyword .fn → e.IsFn)

theorem Heads.append {e : Expr} {K : List Spelt} (h : Heads e K) (L : List Spelt) :
    Heads e (K ++ L) := by
  obtain ⟨t, s, M, rfl, ht⟩ := h
  exact ⟨t, s, M ++ L, rfl, ht⟩

theorem heads_of_opens {e : Expr} {t : Token} {s : Option Pos} {L : List Spelt} (ht : t.Opens)
    (hu : ¬ t.IsUnary) (hf : t ≠ .keyword .fn) : Heads e (.token t s :: L) :=
  ⟨t, s, L, rfl, ht, fun h => absurd h hu, fun h => absurd h hf⟩

theorem not_isUnary_keyword (k : Keyword) : ¬ (Token.keyword k).IsUnary := by
  rintro (h | h) <;> cases h

theorem heads_mark {e : Expr} {m : Mark} {s : Option Pos} {L : List Spelt}
    (h : m = .lparen ∨ m = .lbracket ∨ m = .lbrace) : Heads e (.token (.mark m) s :: L) := by
  rcases h with rfl | rfl | rfl <;> refine heads_of_opens ?_ ?_ (by rintro ⟨⟩)
  · exact .inl rfl
  · rintro (h | h) <;> cases h
  · exact .inr (.inl rfl)
  · rintro (h | h) <;> cases h
  · exact .inr (.inr (.inl rfl))
  · rintro (h | h) <;> cases h

theorem heads_ident {e : Expr} {name : String} {s : Option Pos} {L : List Spelt} :
    Heads e (.token (.ident name) s :: L) :=
  heads_of_opens trivial (by rintro (h | h) <;> cases h) (by rintro ⟨⟩)

theorem heads_number {e : Expr} {x : Float} {s : Option Pos} {L : List Spelt} :
    Heads e (.token (numberToken x) s :: L) := by
  unfold numberToken
  split
  · exact heads_of_opens trivial (by rintro (h | h) <;> cases h) (by rintro ⟨⟩)
  · exact heads_ident

theorem Heads.parenthesize {e : Expr} (h : Heads e e.spelt) (e' : Expr) :
    Heads e' (Spelt.parenthesize e.needsParens e.spelt) := by
  cases hp : e.needsParens with
  | true => exact heads_mark (.inl rfl)
  | false =>
    obtain ⟨t, s, L, hL, ht, hu, hf⟩ := h
    refine ⟨t, s, L, hL, ht, fun h => ?_, fun h => ?_⟩
    · have := hu h
      cases e <;> simp_all [Expr.IsUnary, Expr.needsParens]
    · have := hf h
      cases e <;> simp_all [Expr.IsFn, Expr.needsParens]

theorem spelt_name {name : String} (h : IsName name) (pos : Pos) :
    (Expr.ident pos name).spelt = [.token (.ident name) (some pos)] := by
  rw [spelt_ident h.1, Token.ofWord, h.2]

theorem heads_spelt : ∀ {e : Expr}, e.Built → Heads e e.spelt
  | .nil _, _ => heads_of_opens (.inl rfl) (not_isUnary_keyword _) (by rintro ⟨⟩)
  | .bool _ true, _ => heads_of_opens (.inr (.inl rfl)) (not_isUnary_keyword _) (by rintro ⟨⟩)
  | .bool _ false, _ =>
    heads_of_opens (.inr (.inr (.inl rfl))) (not_isUnary_keyword _) (by rintro ⟨⟩)
  | .num _ _, _ => heads_number
  | .str _ _, _ => heads_of_opens trivial (by rintro (h | h) <;> cases h) (by rintro ⟨⟩)
  | .ident _ _, h => by
    rw [spelt_name h]
    exact heads_ident
  | .list _ _, _ => heads_mark (.inr (.inl rfl))
  | .object _ _, _ => heads_mark (.inr (.inr rfl))
  | .fn _ (.mk _ _ _ _), _ =>
    ⟨_, _, _, rfl, .inr (.inr (.inr rfl)), fun h => absurd h (not_isUnary_keyword _),
      fun _ => trivial⟩
  | .call _ _ _, h => by
    rw [Expr.spelt, List.append_assoc]
    exact ((heads_spelt h.1).parenthesize _).append _
  | .member _ _ _, h => ((heads_spelt h.1).parenthesize _).append _
  | .index _ _ _, h => by
    rw [Expr.spelt, List.append_assoc]
    exact ((heads_spelt h.1).parenthesize _).append _
  | .unary _ .not _, _ =>
    ⟨_, _, _, rfl, .inr (.inr (.inr (.inl rfl))), fun _ => trivial, by rintro ⟨⟩⟩
  | .unary _ .neg _, _ =>
    ⟨_, _, _, rfl, .inr (.inr (.inr (.inr rfl))), fun _ => trivial, by rintro ⟨⟩⟩
  | .binary _ _ _ _, _ => heads_mark (.inl rfl)

/-! ## Operands -/

namespace Nested

/-- The readers of the core dialect with some levels of nesting left. -/
abbrev core (d : Nat) : Nested := ofDepth .core d

theorem builds_core (d : Nat) : (core d).Builds := builds_ofDepth .core d

/-- Calls and accesses behind an expression. -/
abbrev accessLoop (inner : Nested) (e : Expr) (c : Cursor) : Except SyntaxError (Expr × Cursor) :=
  loop (accessRound inner) e c

theorem accesses_apply (inner : Nested) (c : Cursor) :
    inner.accesses c = (inner.primary c).bind fun r => inner.accessLoop r.1 r.2 := rfl

end Nested

open Nested (core builds_core)

/-- An expression is read back as the whole of what stands up to the end of an expression. -/
def Expr.Reads (ρ : Pos → Pos → Prop) (e : Expr) : Prop :=
  ∀ d c K, Begins ρ c.rest (e.spelt ++ K) → Closed K →
    Meets ρ (e.Every sayable) (e.levels < d) (Expr.Alike ρ · e.reread) K ((core d).expression c)

/-- An expression is read back as an operand. -/
def Expr.ReadsOperand (ρ : Pos → Pos → Prop) (e : Expr) : Prop :=
  ∀ d c K, Begins ρ c.rest (e.spelt ++ K) → Parted K →
    Meets ρ (e.Every sayable) (e.levels < d) (Expr.Alike ρ · e.reread) K ((core d).operand c)

/-- An expression that is spelt by `T` is read back, up to calls and accesses that may follow. -/
def ReadsHead (ρ : Pos → Pos → Prop) (e : Expr) (T : List Spelt) (levels : Nat) : Prop :=
  ∀ d c K, Begins ρ c.rest (T ++ K) →
    ∃ x, (core d).accesses c = x.bind (fun r => (core d).accessLoop r.1 r.2) ∧
      Meets ρ (e.Every sayable) (levels ≤ d) (Expr.Alike ρ · e.reread) K x

/-- An expression in front of a call or an access is read back. -/
def Expr.ReadsEnclosed (ρ : Pos → Pos → Prop) (e : Expr) : Prop :=
  ReadsHead ρ e (Spelt.parenthesize e.needsParens e.spelt) (e.levels + e.needsParens.toNat)

section

variable {e : Expr} {T K : List Spelt} {n d : Nat} {c : Cursor}

theorem accessLoop_parted (h : Begins ρ c.rest K) (hK : Parted K) :
    (core d).accessLoop e c = .ok (e, c) := by
  obtain ⟨m, s, L, rfl, h1, h2, h3⟩ := hK
  have hround : Nested.accessRound (core d) e c = .ok (.done e, c) := by
    rw [Nested.accessRound, here_bind, token_bind, h.token]
    cases m <;> first
      | rfl
      | contradiction
  rw [Nested.accessLoop, loop_eq (Nested.advances_accessRound (builds_core d)), hround]
  rfl

theorem readsHead_of_primary
    (h : ∀ d c K, Begins ρ c.rest (T ++ K) →
      Meets ρ (e.Every sayable) (n ≤ d) (Expr.Alike ρ · e.reread) K ((core d).primary c)) :
    ReadsHead ρ e T n :=
  fun d c K hb => ⟨(core d).primary c, Nested.accesses_apply _ _, h d c K hb⟩

/-- What is read back up to calls and accesses is read back as an operand. -/
theorem ReadsHead.operand (h : ReadsHead ρ e T n)
    (hT : ∃ t s L, T = .token t s :: L ∧ ¬ t.IsUnary) (hb : Begins ρ c.rest (T ++ K))
    (hK : Parted K) :
    Meets ρ (e.Every sayable) (n < d) (Expr.Alike ρ · e.reread) K ((core d).operand c) := by
  cases d with
  | zero => exact .inr ⟨by omega, rfl⟩
  | succ d =>
    obtain ⟨t, s, L, rfl, ht⟩ := hT
    have hbody : (core (d + 1)).operand c = (core d).accesses c := by
      have htoken : c.token = t := hb.token
      change (core d).operandBody c = _
      rw [Nested.operandBody, here_bind, token_bind, htoken]
      split
      · exact absurd (.inl rfl) ht
      · exact absurd (.inr rfl) ht
      · rfl
    obtain ⟨x, hx, hmeets⟩ := h d c K hb
    rw [hbody, hx]
    refine hmeets.bind id (fun _ => Nat.le_of_lt_succ) fun v c' hs hf hv hb' => ?_
    rw [accessLoop_parted hb' hK]
    exact .ok hs (Nat.lt_succ_of_le hf) hv hb'

theorem ReadsHead.readsOperand (h : ReadsHead ρ e e.spelt e.levels) (hbuilt : e.Built)
    (hu : ¬ e.IsUnary) : e.ReadsOperand ρ := by
  obtain ⟨t, s, L, hL, -, hunary, -⟩ := heads_spelt hbuilt
  intro d c K hb hK
  exact h.operand ⟨t, s, L, hL, fun ht => hu (hunary ht)⟩ hb hK

/-- A chain of operators ends where an expression ends. -/
theorem collect_chain_closed (h : Begins ρ c.rest K) (hK : Closed K) :
    collect (Nested.chainPick (core d)) c = .ok ([], c) := by
  obtain ⟨m, s, L, rfl, hm⟩ := hK
  have hpick : Nested.chainPick (core d) c = .ok (.stop, c) := by
    rw [Nested.chainPick_eq, h.token]
    rcases hm with rfl | rfl | rfl | rfl | rfl | rfl <;> rfl
  rw [collect_eq (Nested.advances_chainPick (builds_core d).shrinks), hpick]
  rfl

theorem expression_apply (d : Nat) (c : Cursor) :
    (core d).expression c = ((core d).operand c).bind fun r =>
      (collect (Nested.chainPick (core d)) r.2).map fun r' => (assemble r.1 r'.1, r'.2) := by
  rw [Nested.expression_eq (builds_core d).shrinks, bind_apply]
  rfl

theorem Expr.ReadsOperand.reads (h : e.ReadsOperand ρ) : e.Reads ρ := by
  intro d c K hb hK
  rw [expression_apply]
  refine (h d c K hb hK.parted).bind id (fun _ => id) fun v c' hs hf hv hb' => ?_
  rw [collect_chain_closed hb' hK]
  exact .ok hs hf hv hb'

/-- A function or an operator is read back in parentheses, all others as they are. -/
theorem readsEnclosed (hr : e.Reads ρ) (hh : e.needsParens = false → ReadsHead ρ e e.spelt e.levels) :
    e.ReadsEnclosed ρ := by
  cases hp : e.needsParens with
  | false =>
    have := hh hp
    rwa [Expr.ReadsEnclosed, hp]
  | true =>
    rw [Expr.ReadsEnclosed, hp]
    refine readsHead_of_primary fun d c K hb => ?_
    rw [Spelt.parenthesize, if_pos rfl] at hb
    simp only [List.cons_append, List.append_assoc, List.nil_append] at hb
    have htoken : c.token = .mark .lparen := hb.token
    have hexpr := hr d c.advance (mark .rparen :: K) (hb.advance rfl) ⟨_, _, _, rfl, .inl rfl⟩
    rw [Nested.primary, here_bind, token_bind, htoken]
    change Meets ρ _ _ _ K ((core d).expression c.advance |>.bind fun r => _)
    refine hexpr.bind id (fun _ h => h) fun v c' hs hf hv hb' => ?_
    rw [expect_bind, hb'.token]
    exact .ok hs hf hv (hb'.advance rfl)

/-! ## Atoms and lists -/

-- What a form is reread as, what it erases to and how deep it nests goes into its parts.
attribute [local simp] Expr.reread Expr.erase
attribute [local grind =] Expr.levels

theorem readsHead_nil (pos : Pos) : ReadsHead ρ (.nil pos) (Expr.nil pos).spelt 0 := by
  refine readsHead_of_primary fun d c K hb => ?_
  rw [Nested.primary, here_bind, token_bind, hb.token]
  exact .ok trivial (Nat.zero_le d) ⟨rfl, .cons hb.pos .nil⟩ (hb.advance rfl)

theorem readsHead_bool (pos : Pos) (value : Bool) :
    ReadsHead ρ (.bool pos value) (Expr.bool pos value).spelt 0 := by
  refine readsHead_of_primary fun d c K hb => ?_
  rw [Nested.primary, here_bind, token_bind, hb.token]
  cases value with
  | true => exact .ok trivial (Nat.zero_le d) ⟨rfl, .cons hb.pos .nil⟩ (hb.advance rfl)
  | false => exact .ok trivial (Nat.zero_le d) ⟨rfl, .cons hb.pos .nil⟩ (hb.advance rfl)

theorem readsHead_str (pos : Pos) (value : String) :
    ReadsHead ρ (.str pos value) (Expr.str pos value).spelt 0 := by
  refine readsHead_of_primary fun d c K hb => ?_
  rw [Nested.primary, here_bind, token_bind, hb.token]
  exact .ok trivial (Nat.zero_le d) ⟨rfl, .cons hb.pos .nil⟩ (hb.advance rfl)

theorem readsHead_num (pos : Pos) (value : Float) :
    ReadsHead ρ (.num pos value) (Expr.num pos value).spelt 0 := by
  refine readsHead_of_primary fun d c K hb => ?_
  rw [Nested.primary, here_bind, token_bind, hb.token]
  have heof : (numberToken value).isEof = false := by
    unfold numberToken
    split <;> rfl
  have hrest := hb.advance heof
  have hpos := hb.pos
  simp only [Expr.reread, rereadNumber, numberToken]
  by_cases hfin : Number.isFinite value = true
  · simp only [if_pos hfin]
    exact .ok trivial (Nat.zero_le d) ⟨rfl, .cons hpos .nil⟩ hrest
  · simp only [if_neg hfin]
    exact .ok trivial (Nat.zero_le d) ⟨rfl, .cons hpos .nil⟩ hrest

theorem readsHead_ident {name : String} (h : IsName name) (pos : Pos) :
    ReadsHead ρ (.ident pos name) (Expr.ident pos name).spelt 0 := by
  refine readsHead_of_primary fun d c K hb => ?_
  rw [spelt_name h] at hb
  rw [Nested.primary, here_bind, token_bind, hb.token]
  have hsay : (Expr.ident pos name).Every sayable := fun k hk => by simp [h.2] at hk
  have hsame : (Expr.ident c.pos name).Alike ρ (Expr.ident pos name).reread := by
    rw [Expr.reread, rereadVariable_eq h]
    exact ⟨rfl, .cons hb.pos .nil⟩
  exact .ok hsay (Nat.zero_le d) hsame (hb.advance rfl)

/-- A closing bracket of a list. -/
def IsClosing (m : Mark) : Prop := m = .rparen ∨ m = .rbracket ∨ m = .rbrace

theorem IsClosing.closed {m : Mark} (h : IsClosing m) (K : List Spelt) : Closed (mark m :: K) := by
  refine ⟨m, none, K, rfl, ?_⟩
  rcases h with rfl | rfl | rfl
  · exact .inl rfl
  · exact .inr (.inl rfl)
  · exact .inr (.inr (.inl rfl))

/-- An expression does not begin with a closing bracket. -/
theorem Heads.not_isMark {T : List Spelt} (h : Heads e T) (hb : Begins ρ c.rest (T ++ K))
    {m : Mark} (hm : IsClosing m) : c.token.isMark m = false := by
  obtain ⟨t, s, L, rfl, ht, -⟩ := h
  rw [hb.token]
  cases t with
  | mark m' =>
    rcases hm with rfl | rfl | rfl <;> rcases ht with rfl | rfl | rfl | rfl | rfl <;> rfl
  | _ => rfl

/-- Lists with commas between their items: each item is read back up to what follows it. -/
structure ReadsItem {α β : Type} (ρ : Pos → Pos → Prop) (close : Mark) (item : Reader α)
    (spelt : β → List Spelt) (sayable fits : β → Prop) (same : α → β → Prop) (b : β) : Prop where
  starts : ∀ (c : Cursor) K, Begins ρ c.rest (spelt b ++ K) → c.token.isMark close = false
  reads : ∀ (c : Cursor) K, Begins ρ c.rest (spelt b ++ K) → Closed K →
    Meets ρ (sayable b) (fits b) (same · b) K (item c)

/-- Tokens of items with commas between them. -/
def separated {β : Type} (spelt : β → List Spelt) : List β → List Spelt
  | [] => []
  | [b] => spelt b
  | b :: bs => spelt b ++ mark .comma :: separated spelt bs

theorem reads_commaList {α β : Type} {close : Mark} {item : Reader α} {P : α → Prop}
    {spelt : β → List Spelt} {s f : β → Prop} {same : α → β → Prop} {bs : List β}
    (hitem : ∀ c, TakesAt c 0 P item) (hclose : IsClosing close)
    (h : ∀ b ∈ bs, ReadsItem ρ close item spelt s f same b)
    (hb : Begins ρ c.rest (separated spelt bs ++ mark close :: K)) :
    Meets ρ (∀ b ∈ bs, s b) (∀ b ∈ bs, f b) (List.Forall₂ same · bs) (mark close :: K)
      (commaList close item c) := by
  induction bs generalizing c with
  | nil =>
    have hm : c.token.isMark close = true := by
      rw [Begins.token hb]
      simp [Token.isMark]
    rw [commaList_eq hitem, if_pos hm]
    exact .ok (by simp) (by simp) .nil hb
  | cons b bs ih =>
    have hbs : ∀ b' ∈ bs, ReadsItem ρ close item spelt s f same b' :=
      fun b' hb' => h b' (List.mem_cons_of_mem _ hb')
    obtain ⟨hstart, hread⟩ := h b List.mem_cons_self
    cases bs with
    | nil =>
      have hcomma : (Token.mark close).isMark .comma = false := by
        rcases hclose with rfl | rfl | rfl <;> rfl
      rw [commaList_eq hitem, hstart c _ hb]
      refine (hread c _ hb (hclose.closed K)).bind (by simp) (by simp) fun v c' hs hf hv hb' => ?_
      simp only [Begins.token hb', hcomma]
      exact .ok (by simpa using hs) (by simpa using hf) (.cons hv .nil) hb'
    | cons b' bs =>
      rw [separated, List.append_assoc] at hb
      · have hclosed : Closed (mark .comma :: separated spelt (b' :: bs) ++ mark close :: K) :=
          ⟨_, _, _, rfl, .inr (.inr (.inr (.inl rfl)))⟩
        rw [commaList_eq hitem, hstart c _ hb]
        refine (hread c _ hb hclosed).bind (fun h => h b List.mem_cons_self)
          (fun _ h => h b List.mem_cons_self) fun v c' hs hf hv hb' => ?_
        have htoken : c'.token = .mark .comma := hb'.token
        have hrest := ih hbs (hb'.advance rfl)
        simp only [htoken]
        refine hrest.map (by simp [hs]) (fun _ => by simp [hf]) fun vs c'' hvs hb'' => ?_
        exact ⟨.cons hv hvs, hb''⟩
      · simp

/-! ## Lists, calls and accesses -/

theorem separated_speltList (items : List Expr) :
    separated Expr.spelt items = Expr.speltList items := by
  induction items with
  | nil => rfl
  | cons e es ih =>
    cases es with
    | nil => rfl
    | cons e' es => rw [separated, Expr.speltList, ih] <;> simp

theorem everyList_iff {q : Allowed} (es : List Expr) :
    Expr.EveryList q es ↔ ∀ e ∈ es, e.Every q := by
  induction es with
  | nil => simp [Expr.EveryList]
  | cons e es ih => simp [Expr.EveryList, ih]

theorem levelsList_le (es : List Expr) (d : Nat) :
    Expr.levelsList es ≤ d ↔ ∀ e ∈ es, e.levels < d := by
  induction es with
  | nil => simp [Expr.levelsList]
  | cons e es ih => simp [Expr.levelsList, ih]

theorem alikeList_of_forall₂ {vs es : List Expr}
    (h : List.Forall₂ (fun v e => Expr.Alike ρ v e.reread) vs es) :
    Expr.AlikeList ρ vs (Expr.rereadList es) := by
  induction h with
  | nil => exact ⟨rfl, .nil⟩
  | cons hv _ ih =>
    exact ⟨by simp only [Expr.rereadList, Expr.eraseList, hv.erase, ih.erase],
      List.rel_append hv.positions ih.positions⟩

/-- Expressions with commas between them are read back up to the closing bracket. -/
theorem reads_items {items : List Expr} (hbuilt : Expr.BuiltList items)
    (h : ∀ e ∈ items, e.Reads ρ) {close : Mark} (hclose : IsClosing close)
    (hb : Begins ρ c.rest (Expr.speltList items ++ mark close :: K)) :
    Meets ρ (Expr.EveryList sayable items) (Expr.levelsList items ≤ d)
      (Expr.AlikeList ρ · (Expr.rereadList items)) (mark close :: K)
      (commaList close (core d).expression c) := by
  rw [← separated_speltList] at hb
  have hitem := fun c => (Nested.takesAt_expression (builds_core d) c).mono (Nat.zero_le 1)
  have hmeets := reads_commaList (s := fun e => e.Every sayable) (f := fun e => e.levels < d)
    hitem hclose (fun e he => ⟨fun c K hb =>
      (heads_spelt ((Expr.builtList_iff items).mp hbuilt e he)).not_isMark hb hclose,
      fun c K => h e he d c K⟩) hb
  exact hmeets.congr (everyList_iff items).symm (levelsList_le items d).symm
    fun vs hvs => alikeList_of_forall₂ hvs

theorem reads_arguments {items : List Expr} (hbuilt : Expr.BuiltList items)
    (h : ∀ e ∈ items, e.Reads ρ) {close : Mark} (hclose : IsClosing close)
    (hb : Begins ρ c.rest (Expr.speltList items ++ mark close :: K)) :
    Meets ρ (Expr.EveryList sayable items) (Expr.levelsList items ≤ d)
      (Expr.AlikeList ρ · (Expr.rereadList items)) K ((core d).arguments close c) := by
  have harguments : (core d).arguments close c =
      (commaList close (core d).expression c).bind fun r =>
        (do expect close; return r.1 : Reader (List Expr)) r.2 := by
    rw [Nested.arguments, bind_apply]
  rw [harguments]
  refine (reads_items hbuilt h hclose hb).bind id (fun _ => id) fun vs c' hs hf hvs hb' => ?_
  have hm : c'.token.isMark close = true := by
    rw [Begins.token hb']
    simp [Token.isMark]
  rw [expect_bind, if_pos hm]
  exact .ok hs hf hvs (hb'.advance rfl)

theorem readsHead_list {pos : Pos} {items : List Expr} (hbuilt : Expr.BuiltList items)
    (h : ∀ e ∈ items, e.Reads ρ) :
    ReadsHead ρ (.list pos items) (Expr.list pos items).spelt (Expr.list pos items).levels := by
  refine readsHead_of_primary fun d c K hb => ?_
  rw [Expr.spelt, List.append_assoc, List.cons_append] at hb
  have hitems := reads_arguments (d := d) hbuilt h (.inr (.inl rfl)) (hb.advance rfl)
  rw [Nested.primary, here_bind, token_bind, hb.token]
  change Meets ρ _ _ _ K (((core d).arguments .rbracket c.advance).bind fun r => _)
  refine hitems.bind id (fun _ => id) fun vs c' hs hf hvs hb' => ?_
  refine .ok hs hf ⟨?_, .cons hb.pos hvs.positions⟩ hb'
  simp [hvs.erase]

/-- One more call or access behind what is read back. -/
theorem ReadsHead.step {e' : Expr} {T U : List Spelt} {m n : Nat} (h : ReadsHead ρ e T m)
    (hs : e'.Every sayable → e.Every sayable) (hn : m ≤ n)
    (hstep : ∀ d c v K, e.Every sayable → m ≤ d → v.Alike ρ e.reread → Begins ρ c.rest (U ++ K) →
      ∃ x, (core d).accessLoop v c = x.bind (fun r => (core d).accessLoop r.1 r.2) ∧
        Meets ρ (e'.Every sayable) (n ≤ d) (Expr.Alike ρ · e'.reread) K x) :
    ReadsHead ρ e' (T ++ U) n := by
  intro d c K hb
  rw [List.append_assoc] at hb
  obtain ⟨x, hx, hmeets⟩ := h d c (U ++ K) hb
  cases x with
  | error e =>
    refine ⟨.error e, hx, ?_⟩
    rcases hmeets with hnot | ⟨hdeep, hfault⟩
    · exact .inl fun h' => hnot (hs h')
    · exact .inr ⟨fun h' => hdeep (Nat.le_trans hn h'), hfault⟩
  | ok r =>
    obtain ⟨v, c'⟩ := r
    obtain ⟨h1, h2, h3, h4⟩ := hmeets
    obtain ⟨y, hy, hmeets'⟩ := hstep d c' v K h1 h2 h3 h4
    exact ⟨y, hx.trans hy, hmeets'⟩

theorem accessLoop_again {v w : Expr} {c' : Cursor}
    (h : Nested.accessRound (core d) v c = .ok (.again w, c')) :
    (core d).accessLoop v c = (core d).accessLoop w c' := by
  rw [Nested.accessLoop, loop_eq (Nested.advances_accessRound (builds_core d)), h]
  rfl

theorem accessLoop_error {v : Expr} {e : SyntaxError}
    (h : Nested.accessRound (core d) v c = .error e) : (core d).accessLoop v c = .error e := by
  rw [Nested.accessLoop, loop_eq (Nested.advances_accessRound (builds_core d)), h]
  rfl

/-- A round of calls and accesses that a reader gives. -/
theorem accessLoop_map {α : Type} {v : Expr} {x : Except SyntaxError (α × Cursor)}
    {f : α → Expr} (h : Nested.accessRound (core d) v c = x.map fun r => (.again (f r.1), r.2)) :
    (core d).accessLoop v c =
      (x.map fun r => (f r.1, r.2)).bind fun r => (core d).accessLoop r.1 r.2 := by
  cases x with
  | error e => exact accessLoop_error h
  | ok r => exact accessLoop_again h

theorem readsHead_call {pos : Pos} {callee : Expr} {args : List Expr}
    (hbuilt : Expr.BuiltList args) (hc : callee.ReadsEnclosed ρ) (h : ∀ e ∈ args, e.Reads ρ) :
    ReadsHead ρ (.call pos callee args) (Expr.call pos callee args).spelt
      (Expr.call pos callee args).levels := by
  rw [Expr.spelt, List.append_assoc]
  refine hc.step (fun h => h.1) (Nat.le_max_left _ _) fun d c v K hs hl hv hb => ?_
  simp only [List.cons_append, List.append_assoc, List.nil_append] at hb
  have hargs := reads_arguments (d := d) hbuilt h (.inl rfl) (hb.advance rfl)
  have hround : Nested.accessRound (core d) v c =
      ((core d).arguments .rparen c.advance).map fun r => (.again (.call c.pos v r.1), r.2) := by
    rw [Nested.accessRound, here_bind, token_bind, hb.token]
    change (advance >>= fun _ => _) c = _
    rw [advance_bind, bind_apply]
    cases (core d).arguments .rparen c.advance <;> rfl
  refine ⟨_, accessLoop_map hround, ?_⟩
  refine hargs.map (by simp [Expr.Every, hs]) (fun _ => ?_) fun vs c' hvs hb' => ⟨?_, hb'⟩
  · grind
  · refine ⟨?_, .cons hb.pos (List.rel_append hv.positions hvs.positions)⟩
    simp [hv.erase, hvs.erase]

theorem propertyName_word {name : String} (hn : IsPropertyName name)
    (hb : Begins ρ c.rest (word name :: K)) :
    propertyName c = .ok (name, c.advance) ∧ Begins ρ c.advance.rest K := by
  have htoken : c.token = Token.ofWord name := Begins.token hb
  cases hk : Keyword.ofWord? name with
  | none =>
    rw [Token.ofWord, hk] at htoken
    refine ⟨?_, Begins.advance hb (by rw [Token.ofWord, hk]; rfl)⟩
    rw [propertyName, token_bind, htoken]
    rfl
  | some k =>
    rw [Token.ofWord, hk] at htoken
    refine ⟨?_, Begins.advance hb (by rw [Token.ofWord, hk]; rfl)⟩
    rw [propertyName, token_bind, htoken, ← hn.2 k hk]
    rfl

theorem readsHead_member {pos : Pos} {object : Expr} {name : String} (hn : IsPropertyName name)
    (ho : object.ReadsEnclosed ρ) :
    ReadsHead ρ (.member pos object name) (Expr.member pos object name).spelt
      (Expr.member pos object name).levels := by
  rw [Expr.spelt]
  refine ho.step id (Nat.le_refl _) fun d c v K hs hl hv hb => ?_
  simp only [List.cons_append, List.nil_append] at hb
  obtain ⟨hname, hrest⟩ := propertyName_word hn (hb.advance rfl)
  have hround : Nested.accessRound (core d) v c =
      .ok (.again (.member c.pos v name), c.advance.advance) := by
    rw [Nested.accessRound, here_bind, token_bind, hb.token]
    change (advance >>= fun _ => _) c = _
    rw [advance_bind, bind_apply, hname]
    rfl
  refine ⟨.ok (.member c.pos v name, c.advance.advance), accessLoop_again hround, ?_⟩
  refine .ok hs hl ⟨?_, .cons hb.pos hv.positions⟩ hrest
  simp [hv.erase]

theorem readsHead_index {pos : Pos} {object index : Expr} (ho : object.ReadsEnclosed ρ)
    (hi : index.Reads ρ) :
    ReadsHead ρ (.index pos object index) (Expr.index pos object index).spelt
      (Expr.index pos object index).levels := by
  rw [Expr.spelt, List.append_assoc]
  refine ho.step (fun h => h.1) (Nat.le_max_left _ _) fun d c v K hs hl hv hb => ?_
  simp only [List.cons_append, List.append_assoc, List.nil_append] at hb
  have hindex := hi d c.advance (mark .rbracket :: K) (hb.advance rfl)
    (IsClosing.closed (.inr (.inl rfl)) K)
  have hround : Nested.accessRound (core d) v c =
      (((core d).expression c.advance).bind fun r =>
        (do expect .rbracket; return r.1 : Reader Expr) r.2).map fun r =>
          (.again (.index c.pos v r.1), r.2) := by
    rw [Nested.accessRound, here_bind, token_bind, hb.token]
    change (advance >>= fun _ => _) c = _
    rw [advance_bind, bind_apply]
    cases (core d).expression c.advance with
    | error e => rfl
    | ok r =>
      simp only [Except.bind, expect_bind]
      split <;> rfl
  refine ⟨_, accessLoop_map hround, ?_⟩
  have hvalue : Meets ρ (index.Every sayable) (index.levels < d) (Expr.Alike ρ · index.reread) K
      (((core d).expression c.advance).bind fun r =>
        (do expect .rbracket; return r.1 : Reader Expr) r.2) := by
    refine hindex.bind id (fun _ => id) fun w c' hs hf hw hb' => ?_
    rw [expect_bind, Begins.token hb']
    exact .ok hs hf hw (hb'.advance rfl)
  refine hvalue.map (by simp [Expr.Every, hs]) (fun _ => ?_) fun w c' hw hb' => ⟨?_, hb'⟩
  · grind
  · refine ⟨?_, .cons hb.pos (List.rel_append hv.positions hw.positions)⟩
    simp [hv.erase, hw.erase]

/-! ## Operators -/

/-- An enclosed expression does not begin with an operator. -/
theorem enclosed_head (h : e.Built) :
    ∃ t s L, Spelt.parenthesize e.needsParens e.spelt = .token t s :: L ∧ ¬ t.IsUnary := by
  obtain ⟨t, s, L, hL, -, hu, -⟩ := (heads_spelt h).parenthesize (.nil .start)
  exact ⟨t, s, L, hL, hu⟩

theorem readsOperand_unary {pos : Pos} {op : UnaryOp} (hbuilt : e.Built)
    (h : e.ReadsEnclosed ρ) : (Expr.unary pos op e).ReadsOperand ρ := by
  intro d c K hb hK
  cases d with
  | zero => exact .inr ⟨by omega, rfl⟩
  | succ d =>
    rw [Expr.spelt, List.cons_append] at hb
    have hoperand := h.operand (d := d) (enclosed_head hbuilt) (hb.advance rfl) hK
    have hbody : (core (d + 1)).operand c =
        ((core d).operand c.advance).map fun r => (.unary c.pos op r.1, r.2) := by
      change (core d).operandBody c = _
      rw [Nested.operandBody, here_bind, token_bind, hb.token]
      cases op <;>
      · change (advance >>= fun _ => _) c = _
        rw [advance_bind, bind_apply]
        cases (core d).operand c.advance <;> rfl
    rw [hbody]
    refine hoperand.map Iff.rfl (fun _ => ?_) fun v c' hv hb' => ⟨?_, hb'⟩
    · grind
    · refine ⟨?_, .cons hb.pos hv.positions⟩
      simp [hv.erase]

theorem binaryOp?_mark (op : BinaryOp) :
    Nested.binary.binaryOp? (.mark op.mark) = some op := by
  cases op <;> rfl

theorem collect_chain_cons {op : BinaryOp} {s : Option Pos}
    (hb : Begins ρ c.rest (.token (.mark op.mark) s :: K)) :
    collect (Nested.chainPick (core d)) c = ((core d).operand c.advance).bind fun r =>
      (collect (Nested.chainPick (core d)) r.2).map fun r' => ((op, r.1) :: r'.1, r'.2) := by
  rw [collect_eq (Nested.advances_chainPick (builds_core d).shrinks), Nested.chainPick_eq, hb.token,
    binaryOp?_mark]
  cases (core d).operand c.advance <;> rfl

theorem parted_op (op : BinaryOp) (K : List Spelt) : Parted (mark op.mark :: K) := by
  refine ⟨op.mark, none, K, rfl, ?_⟩
  cases op <;> exact ⟨by decide, by decide, by decide⟩

theorem assemble_pair (l r : Expr) (op : BinaryOp) :
    assemble l [(op, r)] = .binary l.pos op l r := by
  simp [assemble, assembleFrom, reduce]

theorem map_bind {α β γ : Type} (x : Except SyntaxError α) (f : β → γ)
    (g : α → Except SyntaxError β) : (x.bind g).map f = x.bind fun a => (g a).map f := by
  cases x <;> rfl

theorem pos_reread (e : Expr) : e.reread.pos = e.pos := by
  cases e with
  | num pos value =>
    simp only [Expr.reread, rereadNumber]
    split <;> rfl
  | ident pos name =>
    simp only [Expr.reread, rereadVariable]
    split <;> rfl
  | _ => rfl

theorem readsHead_binary {pos : Pos} {op : BinaryOp} {lhs rhs : Expr} (hpos : pos = lhs.pos)
    (hl : lhs.ReadsOperand ρ) (hr : rhs.ReadsOperand ρ) :
    ReadsHead ρ (.binary pos op lhs rhs) (Expr.binary pos op lhs rhs).spelt
      (Expr.binary pos op lhs rhs).levels := by
  refine readsHead_of_primary fun d c K hb => ?_
  simp only [Expr.spelt, List.cons_append, List.append_assoc, List.nil_append] at hb
  rw [Nested.primary, here_bind, token_bind, Begins.token hb]
  change Meets ρ _ _ _ K (((core d).expression c.advance).bind fun r => _)
  have hexpr : Meets ρ ((Expr.binary pos op lhs rhs).Every sayable)
      ((Expr.binary pos op lhs rhs).levels ≤ d)
      (Expr.Alike ρ · (Expr.binary pos op lhs rhs).reread) (mark .rparen :: K)
      ((core d).expression c.advance) := by
    rw [expression_apply]
    refine (hl d c.advance _ (hb.advance rfl) (parted_op op _)).bind (fun h => h.1)
      (fun _ h => ?_) fun l c₁ hls hlf hl' hb₁ => ?_
    · grind
    have hparted : Parted (mark .rparen :: K) := ⟨_, _, _, rfl, by decide, by decide, by decide⟩
    rw [collect_chain_cons hb₁]
    rw [map_bind]
    refine (hr d c₁.advance _ (hb₁.advance rfl) hparted).bind (fun h => h.2)
      (fun _ h => ?_) fun r c₂ hrs hrf hr' hb₂ => ?_
    · grind
    rw [collect_chain_closed hb₂ (IsClosing.closed (.inl rfl) K)]
    simp only [Except.map, assemble_pair]
    refine .ok ⟨hls, hrs⟩ ?_ ⟨?_, .cons ?_ (List.rel_append hl'.positions hr'.positions)⟩ hb₂
    · grind
    · simp [hl'.erase, hr'.erase]
    · have hp := hl'.pos
      rwa [pos_reread, ← hpos] at hp
  refine hexpr.bind id (fun _ => id) fun v c' hs hf hv hb' => ?_
  rw [expect_bind, Begins.token hb']
  exact .ok hs hf hv (hb'.advance rfl)

/-! ## Object literals -/

/-- The tokens of a field. -/
def fieldSpelt (field : String × Expr) : List Spelt :=
  Spelt.key field.1 :: mark .colon :: field.2.spelt

theorem speltFields_eq (before : List Spelt) (field : String × Expr)
    (fields : List (String × Expr)) :
    Expr.speltFields before (field :: fields) =
      before ++ separated fieldSpelt (field :: fields) := by
  induction fields generalizing before field with
  | nil => simp [Expr.speltFields, separated, fieldSpelt]
  | cons field' fields ih =>
    have hsep : separated fieldSpelt (field :: field' :: fields) =
        fieldSpelt field ++ mark .comma :: separated fieldSpelt (field' :: fields) := rfl
    rw [Expr.speltFields, ih, hsep]
    simp [fieldSpelt]

theorem separated_speltFields (fields : List (String × Expr)) :
    separated fieldSpelt fields = Expr.speltFields [] fields := by
  cases fields with
  | nil => rfl
  | cons field fields => rw [speltFields_eq, List.nil_append]

/-- The token of a key is no mark, and is read as the key that it spells. -/
theorem key_apply {name : String} (hb : Begins ρ c.rest (Spelt.key name :: K)) :
    (∀ m, c.token.isMark m = false) ∧ Begins ρ c.advance.rest K ∧
      (do match ← token with
        | .str key => do
          advance
          pure key
        | _ => propertyName : Reader String) c = .ok (rereadKey name, c.advance) := by
  unfold Spelt.key at hb
  by_cases hw : isIdentifier name.toList = true
  · rw [if_pos hw] at hb
    have htoken : c.token = Token.ofWord name := Begins.token hb
    simp only [rereadKey, if_pos hw]
    cases hk : Keyword.ofWord? name with
    | none =>
      rw [Token.ofWord, hk] at htoken
      refine ⟨fun m => by rw [htoken]; rfl, Begins.advance hb (by rw [Token.ofWord, hk]; rfl), ?_⟩
      rw [token_bind, htoken]
      change propertyName c = _
      rw [propertyName, token_bind, htoken]
      rfl
    | some k =>
      rw [Token.ofWord, hk] at htoken
      refine ⟨fun m => by rw [htoken]; rfl, Begins.advance hb (by rw [Token.ofWord, hk]; rfl), ?_⟩
      rw [token_bind, htoken]
      change propertyName c = _
      rw [propertyName, token_bind, htoken]
      rfl
  · rw [if_neg hw] at hb
    have htoken : c.token = .str name := Begins.token hb
    simp only [rereadKey, if_neg hw]
    refine ⟨fun m => by rw [htoken]; rfl, Begins.advance hb rfl, ?_⟩
    rw [token_bind, htoken]
    rfl

theorem field_apply {name : String} (hb : Begins ρ c.rest (Spelt.key name :: mark .colon :: K)) :
    Begins ρ c.advance.advance.rest K ∧
      (core d).field c = ((core d).expression c.advance.advance).map fun r =>
        ((rereadKey name, r.1), r.2) := by
  obtain ⟨-, hrest, hkey⟩ := key_apply hb
  refine ⟨hrest.advance rfl, ?_⟩
  have hfield : (core d).field c = ((do match ← token with
        | .str key => do
          advance
          pure key
        | _ => propertyName : Reader String) c).bind fun r =>
      (do
        if ← eat .colon then
          return (r.1, ← (core d).expression)
        else
          return (r.1, .ident c.pos r.1) : Reader (String × Expr)) r.2 := by
    rw [Nested.field, here_bind, token_bind, token_bind]
    cases c.token with
    | str key => rfl
    | _ => exact bind_apply _ _ c
  rw [hfield, hkey]
  simp only [Except.bind, eat_bind, Begins.token hrest]
  change ((core d).expression >>= fun v => pure (rereadKey name, v)) c.advance.advance = _
  rw [bind_apply]
  cases (core d).expression c.advance.advance <;> rfl

/-- A word that names no value is no expression. -/
theorem expression_keyword {k : Keyword} {s : Option Pos} (hk : k ≠ .true_ ∧ k ≠ .false_ ∧ k ≠ .nil)
    (hb : Begins ρ c.rest (.token (.keyword k) s :: K)) (hK : Closed K) :
    ∃ err, (core d).expression c = .error err := by
  rw [expression_apply]
  cases d with
  | zero => exact ⟨_, rfl⟩
  | succ d =>
    have hbody : (core (d + 1)).operand c = (core d).accesses c := by
      change (core d).operandBody c = _
      rw [Nested.operandBody, here_bind, token_bind, hb.token]
    have hprimary : ∃ err, (core d).primary c = .error err := by
      rw [Nested.primary, here_bind, token_bind, hb.token]
      cases k with
      | fn =>
        obtain ⟨m, s', L, rfl, hm⟩ := hK
        have hm' : (Token.mark m).isMark .lparen = false := by
          rcases hm with rfl | rfl | rfl | rfl | rfl | rfl <;> rfl
        have hnext : c.advance.token = .mark m := (hb.advance rfl).token
        refine ⟨⟨.unexpected (.mark .lparen) (.mark m), c.advance.pos⟩, ?_⟩
        change ((core d).function >>= fun f => pure (Expr.fn c.pos f)) c = _
        rw [bind_apply, Nested.function, here_bind, expectKeyword_bind, hb.token]
        change Except.bind ((token >>= fun _ => _) c.advance) _ = _
        rw [token_bind, hnext]
        change Except.bind ((expect .lparen >>= fun _ => _) c.advance) _ = _
        rw [expect_bind, hnext, hm']
        rfl
      | true_ => exact absurd rfl hk.1
      | false_ => exact absurd rfl hk.2.1
      | nil => exact absurd rfl hk.2.2
      | _ => exact ⟨_, rfl⟩
    obtain ⟨err, herr⟩ := hprimary
    refine ⟨err, ?_⟩
    rw [hbody, Nested.accesses_apply, herr]
    rfl

/-- Where a value may stand, a word is read as the variable or the value that it names. -/
theorem reads_word {name : String} (hw : IsWord name) (pos : Pos) :
    (Expr.ident pos name).Reads ρ := by
  have hspelt : (Expr.ident pos name).spelt = [.token (Token.ofWord name) (some pos)] :=
    spelt_ident hw pos
  cases hk : Keyword.ofWord? name with
  | none =>
    have hname : IsName name := ⟨hw, hk⟩
    exact ((readsHead_ident hname pos).readsOperand hname id).reads
  | some k =>
    intro d c K hb hK
    rw [hspelt, Token.ofWord, hk] at hb
    -- The names of values are read as these values, all other keywords are refused.
    have hvalue {e : Expr} (hr : e.Reads ρ) (hs : e.spelt = [.token (.keyword k) (some pos)])
        (hsay : e.Every sayable) (hlevels : e.levels = 0)
        (hreread : (Expr.ident pos name).reread = e.reread)
        (hword : k = .true_ ∨ k = .false_ ∨ k = .nil) :
        Meets ρ ((Expr.ident pos name).Every sayable) ((Expr.ident pos name).levels < d)
          (Expr.Alike ρ · (Expr.ident pos name).reread) K ((core d).expression c) := by
      rw [← hs] at hb
      rw [hreread]
      refine (hr d c K hb hK).congr ⟨fun _ => ?_, fun _ => hsay⟩ (by rw [hlevels]; rfl)
        fun _ => id
      intro k' hk'
      rw [hk] at hk'
      cases hk'
      exact hword
    have hrefused (hn : k ≠ .true_ ∧ k ≠ .false_ ∧ k ≠ .nil) :
        Meets ρ ((Expr.ident pos name).Every sayable) ((Expr.ident pos name).levels < d)
          (Expr.Alike ρ · (Expr.ident pos name).reread) K ((core d).expression c) := by
      obtain ⟨err, herr⟩ := expression_keyword (d := d) hn hb hK
      rw [herr]
      refine .inl fun hsay => ?_
      rcases hsay k hk with h | h | h
      · exact hn.1 h
      · exact hn.2.1 h
      · exact hn.2.2 h
    have hreread : (Expr.ident pos name).reread = rereadVariable pos name := rfl
    rw [rereadVariable, hk] at hreread
    cases k with
    | true_ =>
      exact hvalue ((readsHead_bool pos true).readsOperand trivial id).reads rfl trivial rfl
        hreread (.inl rfl)
    | false_ =>
      exact hvalue ((readsHead_bool pos false).readsOperand trivial id).reads rfl trivial rfl
        hreread (.inr (.inl rfl))
    | nil =>
      exact hvalue ((readsHead_nil pos).readsOperand trivial id).reads rfl trivial rfl
        hreread (.inr (.inr rfl))
    | _ => exact hrefused ⟨by decide, by decide, by decide⟩

theorem everyFields_iff {q : Allowed} (fields : List (String × Expr)) :
    Expr.EveryFields q fields ↔ ∀ field ∈ fields, q.key field.1 ∧ field.2.Every q := by
  induction fields with
  | nil => simp [Expr.EveryFields]
  | cons field fields ih => simp [Expr.EveryFields, ih, and_assoc]

theorem levelsFields_le (fields : List (String × Expr)) (d : Nat) :
    Expr.levelsFields fields ≤ d ↔ ∀ field ∈ fields, field.2.levels < d := by
  induction fields with
  | nil => simp [Expr.levelsFields]
  | cons field fields ih => simp [Expr.levelsFields, ih]

theorem alikeFields_of_forall₂ {vs fields : List (String × Expr)}
    (h : List.Forall₂ (fun v field => v.1 = rereadKey field.1 ∧ Expr.Alike ρ v.2 field.2.reread)
      vs fields) : Expr.AlikeFields ρ vs (Expr.rereadFields fields) := by
  induction h with
  | nil => exact ⟨rfl, .nil⟩
  | cons hv _ ih =>
    exact ⟨by simp only [Expr.rereadFields, Expr.eraseFields, hv.1, hv.2.erase, ih.erase],
      List.rel_append hv.2.positions ih.positions⟩

/-- Fields with commas between them are read back up to the closing brace. -/
theorem reads_fields {fields : List (String × Expr)} (h : ∀ field ∈ fields, field.2.Reads ρ)
    (hb : Begins ρ c.rest (Expr.speltFields [] fields ++ mark .rbrace :: K)) :
    Meets ρ (Expr.EveryFields sayable fields) (Expr.levelsFields fields ≤ d)
      (Expr.AlikeFields ρ · (Expr.rereadFields fields)) (mark .rbrace :: K)
      (commaList .rbrace (core d).field c) := by
  rw [← separated_speltFields] at hb
  have hitem := fun c => (Nested.takesAt_field (builds_core d) c).mono (Nat.zero_le 1)
  have hread : ∀ field ∈ fields, ReadsItem ρ .rbrace (core d).field fieldSpelt
      (fun field => sayable.key field.1 ∧ field.2.Every sayable) (fun field => field.2.levels < d)
      (fun v field => v.1 = rereadKey field.1 ∧ Expr.Alike ρ v.2 field.2.reread) field := by
    intro field hfield
    refine ⟨fun c K hb => (key_apply hb).1 _, fun c K hb hK => ?_⟩
    obtain ⟨hrest, hread⟩ := field_apply (d := d) hb
    rw [hread]
    exact (h field hfield d _ K hrest hK).map ⟨And.right, fun hs => ⟨trivial, hs⟩⟩ (fun _ => Iff.rfl)
      fun v c' hv hb' => ⟨⟨rfl, hv⟩, hb'⟩
  exact (reads_commaList hitem (.inr (.inr rfl)) hread hb).congr (everyFields_iff fields).symm
    (levelsFields_le fields d).symm fun vs hvs => alikeFields_of_forall₂ hvs

theorem readsHead_object {pos : Pos} {fields : List (String × Expr)}
    (h : ∀ field ∈ fields, field.2.Reads ρ) :
    ReadsHead ρ (.object pos fields) (Expr.object pos fields).spelt
      (Expr.object pos fields).levels := by
  refine readsHead_of_primary fun d c K hb => ?_
  rw [Expr.spelt, List.append_assoc, List.cons_append] at hb
  have hfields := reads_fields (d := d) h (hb.advance rfl)
  rw [Nested.primary, here_bind, token_bind, hb.token]
  change Meets ρ _ _ _ K ((commaList .rbrace (core d).field c.advance).bind fun r => _)
  refine hfields.bind id (fun _ => id) fun vs c' hs hf hvs hb' => ?_
  rw [expect_bind, Begins.token hb']
  refine .ok hs hf ⟨?_, .cons hb.pos hvs.positions⟩ (hb'.advance rfl)
  simp [hvs.erase]

end

end Hotload.Syntax
