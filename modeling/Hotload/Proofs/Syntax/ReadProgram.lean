import Mathlib
import Hotload.Proofs.Syntax.ReadBack

/-!
# Reading a printed program

The induction over trees: every function, every statement and so a whole program is read back.

* `Function.Reads`, `Stmt.Reads`: what is shown of functions and statements.
* `Picks`: the rounds of a block and of a program, which read statements the same way.
* `Stmt.readsList`: statements up to what closes them.
* `reads_program`: the text of a program.
-/

namespace Hotload.Syntax

open Reader
open Spelt (mark keyword word names)
open Nested (core builds_core)

variable {ρ : Pos → Pos → Prop} {K : List Spelt} {d : Nat} {c : Cursor}

/-! ## Functions -/

/-- Statements in braces are read back. -/
def Stmt.BlockReads (ρ : Pos → Pos → Prop) (ss : List Stmt) : Prop :=
  ∀ d c K, Begins ρ c.rest (mark .lbrace :: (Stmt.speltList ss ++ mark .rbrace :: K)) →
    Meets ρ (Stmt.EveryList sayable ss) (Stmt.levelsList ss < d)
      (Stmt.AlikeList ρ · (Stmt.rereadList ss)) K ((core d).block c)

/-- A function is read back. -/
def Function.Reads (ρ : Pos → Pos → Prop) (f : Function) : Prop :=
  ∀ d c K, Begins ρ c.rest (f.spelt ++ K) →
    Meets ρ (f.Every sayable) (f.levels ≤ d) (Function.Alike ρ · f.reread) K ((core d).function c)

theorem separated_names (ns : List String) : separated (fun n => [word n]) ns = names ns := by
  induction ns with
  | nil => rfl
  | cons n ns ih =>
    cases ns with
    | nil => rfl
    | cons n' ns => rw [separated, names, ih] <;> simp

theorem skip_apply (h : c.token.isMark .colon = false) :
    skipAnnotation c = .ok ((), c) := by
  rw [ skipAnnotation, eat_bind, h]
  rfl

theorem name_apply {name : String} (h : IsName name) (hb : Begins ρ c.rest (word name :: K))
    (expected : Expected) :
    ident expected c = .ok (name, c.advance) ∧ Begins ρ c.advance.rest K := by
  have htoken : c.token = .ident name := by
    rw [Begins.token hb, Token.ofWord, h.2]
  refine ⟨?_, Begins.advance hb (by rw [Token.ofWord, h.2]; rfl)⟩
  rw [ident, token_bind, htoken]
  rfl

theorem reads_parameters {params : List String} (h : ∀ p ∈ params, IsName p)
    (hb : Begins ρ c.rest (names params ++ mark .rparen :: K)) :
    ∃ c', commaList .rparen parameter c = .ok (params, c') ∧
      Begins ρ c'.rest (mark .rparen :: K) := by
  rw [← separated_names] at hb
  have hread : ∀ p ∈ params, ReadsItem ρ .rparen parameter (fun n => [word n]) (fun _ => True)
      (fun _ => True) Eq p := by
    intro p hp
    refine ⟨fun c K hb => ?_, fun c K hb hK => ?_⟩
    · rw [Begins.token hb, Token.ofWord, (h p hp).2]
      rfl
    · obtain ⟨hname, hrest⟩ := name_apply (h p hp) hb .parameterName
      obtain ⟨m, s, L, rfl, hm⟩ := hK
      have hcolon : c.advance.token.isMark .colon = false := by
        rw [hrest.token]
        rcases hm with rfl | rfl | rfl | rfl | rfl | rfl <;> rfl
      rw [parameter, bind_apply, hname]
      change Meets ρ _ _ _ _ (( skipAnnotation >>= fun _ => pure p) c.advance)
      rw [bind_apply, skip_apply hcolon]
      exact .ok trivial trivial rfl hrest
  have hmeets := reads_commaList takesAt_parameter (.inl rfl) hread hb
  cases hx : commaList .rparen parameter c with
  | error e =>
    rw [hx] at hmeets
    rcases hmeets with hn | ⟨hn, -⟩ <;> simp at hn
  | ok r =>
    obtain ⟨vs, c'⟩ := r
    rw [hx] at hmeets
    obtain ⟨-, -, hvs, hb'⟩ := hmeets
    rw [List.forall₂_eq_eq_eq] at hvs
    exact ⟨c', by rw [hvs], hb'⟩

theorem function_tail {pos : Pos} {name : Option String} {params : List String}
    {body : List Stmt} (hparams : ∀ p ∈ params, IsName p) (hbody : Stmt.BlockReads ρ body)
    {q : Pos} (hpos : ρ q pos)
    (hb : Begins ρ c.rest (mark .lparen :: (names params ++ mark .rparen :: mark .lbrace ::
      (Stmt.speltList body ++ mark .rbrace :: K)))) :
    Meets ρ (Stmt.EveryList sayable body) (Stmt.levelsList body < d)
      (Function.Alike ρ · (.mk pos name params (Stmt.rereadList body))) K
      ((do
        expect .lparen
        let params ← commaList .rparen parameter
        expect .rparen
        skipAnnotation
        let body ← (core d).block
        return .mk q name params body : Reader Function) c) := by
  obtain ⟨c₁, hlist, hb₁⟩ := reads_parameters hparams (hb.advance rfl)
  have hb₂ := hb₁.advance rfl
  have hcolon : c₁.advance.token.isMark .colon = false := by
    rw [hb₂.token]
    rfl
  rw [expect_bind, Begins.token hb]
  change Meets ρ _ _ _ _ ((commaList .rparen parameter >>= fun _ => _) c.advance)
  rw [bind_apply, hlist]
  change Meets ρ _ _ _ _ ((expect .rparen >>= fun _ => _) c₁)
  rw [expect_bind, Begins.token hb₁]
  change Meets ρ _ _ _ _ (( skipAnnotation >>= fun _ => _) c₁.advance)
  rw [bind_apply, skip_apply hcolon]
  change Meets ρ _ _ _ _ (((core d).block >>= fun _ => _) c₁.advance)
  rw [bind_apply]
  refine (hbody d _ K hb₂).bind id (fun _ => id) fun ss c₂ hs hf hss hb₃ => ?_
  refine .ok hs hf ⟨?_, .cons hpos hss.positions⟩ hb₃
  simp only [Function.erase, hss.erase]

theorem Function.reads {pos : Pos} {name : Option String} {params : List String}
    {body : List Stmt} (hname : ∀ n, name = some n → IsName n) (hparams : ∀ p ∈ params, IsName p)
    (hbody : Stmt.BlockReads ρ body) : (Function.mk pos name params body).Reads ρ := by
  intro d c K hb
  simp only [Function.spelt, List.cons_append, List.append_assoc, List.nil_append] at hb
  have hrest := hb.advance rfl
  rw [Nested.function, here_bind, expectKeyword_bind, hb.token]
  change Meets ρ _ _ _ _ ((token >>= fun _ => _) c.advance)
  rw [token_bind]
  cases name with
  | none =>
    rw [hrest.token]
    exact function_tail hparams hbody hb.pos hrest
  | some n =>
    obtain ⟨-, hrest'⟩ := name_apply (hname n rfl) hrest .parameterName
    have htoken : c.advance.token = .ident n := by
      rw [Begins.token hrest, Token.ofWord, (hname n rfl).2]
    rw [htoken]
    exact function_tail hparams hbody hb.pos hrest'

theorem readsHead_fn {pos : Pos} {f : Function} (hpos : pos = f.pos) (h : f.Reads ρ) :
    ReadsHead ρ (.fn pos f) (Expr.fn pos f).spelt (Expr.fn pos f).levels := by
  refine readsHead_of_primary fun d c K hb => ?_
  have htoken : c.token = .keyword .fn ∧ ρ c.pos f.pos := by
    obtain ⟨_, _, _, _⟩ := f
    exact ⟨hb.token, hb.pos⟩
  rw [Nested.primary, here_bind, token_bind, htoken.1]
  change Meets ρ _ _ _ _ (((core d).function >>= fun f => pure (Expr.fn c.pos f)) c)
  rw [bind_apply]
  refine (h d c K hb).bind id (fun _ => id) fun g c' hs hf hg hb' => ?_
  refine .ok hs hf ⟨?_, .cons (hpos ▸ htoken.2) hg.positions⟩ hb'
  simp only [Expr.reread, Expr.erase, hg.erase]

/-! ## Statements -/

-- What a statement is reread as, what it erases to and how deep it nests goes into its parts.
attribute [local simp] Stmt.reread Stmt.erase
attribute [local grind =] Stmt.levels

/-- What follows a statement is no `else`. -/
def NoElse (K : List Spelt) : Prop := ∃ t s L, K = .token t s :: L ∧ t ≠ .keyword .else_

/-- The semicolon that is left when an expression is read as a declaration of a function. -/
def Stmt.trailing : Stmt → List Spelt
  | .expr _ value => if value.isNamedFn then [mark .semi] else []
  | _ => []

/-- A statement is read back. -/
def Stmt.Reads (ρ : Pos → Pos → Prop) (s : Stmt) : Prop :=
  ∀ d c K, Begins ρ c.rest (s.spelt ++ K) → NoElse K →
    Meets ρ (s.Every sayable) (s.levels ≤ d) (Stmt.Alike ρ · s.reread) (s.trailing ++ K)
      ((core d).statement c)

/-- The tokens that a statement may begin with. -/
def Token.Starts (t : Token) : Prop :=
  t.Opens ∨ t = .keyword .let_ ∨ t = .keyword .return_ ∨ t = .keyword .throw_ ∨
    t = .keyword .if_

theorem closed_semi (K : List Spelt) : Closed (mark .semi :: K) :=
  ⟨_, _, _, rfl, .inr (.inr (.inr (.inr (.inl rfl))))⟩

theorem closed_assign (K : List Spelt) : Closed (mark .assign :: K) :=
  ⟨_, _, _, rfl, .inr (.inr (.inr (.inr (.inr rfl))))⟩

theorem endStatement_semi (hb : Begins ρ c.rest (mark .semi :: K)) :
    endStatement c = .ok ((), c.advance) := by
  rw [endStatement, eat_bind, Begins.token hb]
  rfl

/-- An expression and the semicolon behind it. -/
theorem reads_ended {α : Type} {e : Expr} (he : e.Reads ρ) {f : Expr → α}
    (hb : Begins ρ c.rest (e.spelt ++ mark .semi :: K)) :
    Meets ρ (e.Every sayable) (e.levels < d) (fun a => ∃ v, a = f v ∧ v.Alike ρ e.reread) K
      ((do
        let value ← (core d).expression
        endStatement
        return f value : Reader α) c) := by
  rw [bind_apply]
  refine (he d c _ hb (closed_semi K)).bind id (fun _ => id) fun v c' hs hf hv hb' => ?_
  change Meets ρ _ _ _ _ ((endStatement >>= fun _ => pure (f v)) c')
  rw [bind_apply, endStatement_semi hb']
  exact .ok hs hf ⟨v, rfl, hv⟩ (hb'.advance rfl)

theorem ident_keyword {name : String} {k : Keyword} (hk : Keyword.ofWord? name = some k)
    (hb : Begins ρ c.rest (word name :: K)) (expected : Expected) :
    ∃ e, ident expected c = .error e := by
  have htoken : c.token = .keyword k := by
    rw [Begins.token hb, Token.ofWord, hk]
  refine ⟨⟨.unexpected expected (.keyword k), c.pos⟩, ?_⟩
  rw [ident, token_bind, htoken]
  change (token >>= fun t => here >>= fun p => fail (.unexpected expected t) p) c = _
  rw [token_bind, here_bind, htoken]
  rfl

/-- A declaration is read back if it declares a name. -/
theorem reads_declaration {name : String} {value : Expr} (hw : isIdentifier name.toList = true)
    (hv : value.Reads ρ)
    (hb : Begins ρ c.rest (word name :: mark .assign :: (value.spelt ++ mark .semi :: K))) :
    Meets ρ (IsName name ∧ value.Every sayable) (value.levels < d)
      (fun r => ∃ v, r = (name, v) ∧ v.Alike ρ value.reread) K ((core d).declaration c) := by
  rw [Nested.declaration, bind_apply]
  cases hk : Keyword.ofWord? name with
  | some k =>
    obtain ⟨e, he⟩ := ident_keyword hk hb .variableName
    rw [he]
    exact .inl fun h => by simp [h.1.2] at hk
  | none =>
    have hn : IsName name := ⟨hw, hk⟩
    obtain ⟨hname, hrest⟩ := name_apply hn hb .variableName
    have hcolon : c.advance.token.isMark .colon = false := by
      rw [Begins.token hrest]
      rfl
    rw [hname]
    change Meets ρ _ _ _ _ (( skipAnnotation >>= fun _ => _) c.advance)
    rw [bind_apply, skip_apply hcolon]
    change Meets ρ _ _ _ _ ((expect .assign >>= fun _ => _) c.advance)
    rw [expect_bind, Begins.token hrest]
    exact (reads_ended hv (hrest.advance rfl)).congr ⟨fun h => ⟨hn, h⟩, And.right⟩ Iff.rfl
      fun _ => id

/-- An expression that stands as a statement is read as one. -/
theorem reads_expressionStatement {e : Expr} {pos : Pos} (he : e.Reads ρ)
    (hb : Begins ρ c.rest (e.spelt ++ mark .semi :: K)) :
    Meets ρ (e.Every sayable) (e.levels < d) (fun s => ∃ v, s = .expr pos v ∧ v.Alike ρ e.reread)
      K ((core d).expressionStatement pos c) := by
  rw [Nested.expressionStatement, bind_apply]
  refine (he d c _ hb (closed_semi K)).bind id (fun _ => id) fun v c' hs hf hv hb' => ?_
  change Meets ρ _ _ _ _ ((eat .assign >>= fun _ => _) c')
  rw [eat_bind, Begins.token hb']
  change Meets ρ _ _ _ _ ((endStatement >>= fun _ => pure (Stmt.expr pos v)) c')
  rw [bind_apply, endStatement_semi hb']
  exact .ok hs hf ⟨v, rfl, hv⟩ (hb'.advance rfl)

theorem isTarget_of_alike {v e : Expr} (h : v.Alike ρ e.reread) (ht : e.IsTarget)
    (hbuilt : e.Built) : v.IsTarget := by
  have herase := h.erase
  cases e with
  | ident pos name =>
    rw [Expr.reread, rereadVariable_eq hbuilt] at herase
    cases v <;> simp_all [Expr.erase, Expr.IsTarget]
  | member => cases v <;> simp_all [Expr.reread, Expr.erase, Expr.IsTarget]
  | index => cases v <;> simp_all [Expr.reread, Expr.erase, Expr.IsTarget]
  | _ => exact ht.elim

theorem reads_assignment {target value : Expr} {pos : Pos} (ht : target.IsTarget)
    (hbuilt : target.Built) (htarget : target.Reads ρ) (hvalue : value.Reads ρ)
    (hb : Begins ρ c.rest (target.spelt ++ mark .assign :: (value.spelt ++ mark .semi :: K))) :
    Meets ρ (target.Every sayable ∧ value.Every sayable) (target.levels < d ∧ value.levels < d)
      (fun s => ∃ v w, s = .assign pos v w ∧ v.Alike ρ target.reread ∧ w.Alike ρ value.reread) K
      ((core d).expressionStatement pos c) := by
  rw [Nested.expressionStatement, bind_apply]
  refine (htarget d c _ hb (closed_assign _)).bind And.left (fun _ => And.left)
    fun v c' hs hf hv hb' => ?_
  change Meets ρ _ _ _ _ ((eat .assign >>= fun _ => _) c')
  rw [eat_bind, Begins.token hb']
  have hassign : Meets ρ (target.Every sayable ∧ value.Every sayable)
      (target.levels < d ∧ value.levels < d)
      (fun s => ∃ v w, s = .assign pos v w ∧ v.Alike ρ target.reread ∧ w.Alike ρ value.reread) K
      ((do
        let value ← (core d).expression
        endStatement
        return .assign pos v value : Reader Stmt) c'.advance) :=
    (reads_ended hvalue (hb'.advance rfl)).congr ⟨fun h => ⟨hs, h⟩, And.right⟩
      ⟨fun h => ⟨hf, h⟩, And.right⟩ fun s ⟨w, hw, hlike⟩ => ⟨v, w, hw, hv, hlike⟩
  have htarget' := isTarget_of_alike hv ht hbuilt
  cases v with
  | ident => exact hassign
  | member => exact hassign
  | index => exact hassign
  | _ => exact htarget'.elim

/-- A statement that begins like an expression is one, if it declares no function. -/
theorem statement_apply (h : c.token.Opens)
    (hf : c.token = .keyword .fn → c.second.isIdent = false) :
    (core d).statement c = (core d).expressionStatement c.pos c := by
  rw [Nested.statement, here_bind, token_bind]
  cases ht : c.token with
  | keyword k =>
    rw [ht] at h
    rcases h with rfl | rfl | rfl | rfl
    · rfl
    · rfl
    · rfl
    · have hbranch : (do
          if (← get).second.isIdent then
            return .fn c.pos (← (core d).function)
          else
            (core d).expressionStatement c.pos : Reader Stmt) c =
          (core d).expressionStatement c.pos c := by
        rw [get_bind, hf ht]
        rfl
      exact hbranch
  | _ => rfl

theorem heads_statement {e : Expr} {T : List Spelt} (h : Heads e T)
    (hb : Begins ρ c.rest (T ++ K)) (hf : e.IsFn → c.second.isIdent = false) :
    (core d).statement c = (core d).expressionStatement c.pos c := by
  obtain ⟨t, s, L, rfl, ht, -, hfn⟩ := h
  have htoken : c.token = t := Begins.token hb
  refine statement_apply (by rwa [htoken]) fun h => hf (hfn ?_)
  rw [← htoken, h]

theorem isFn_of_isNamedFn {e : Expr} (h : e.isNamedFn = true) :
    ∃ pos p n params body, e = .fn pos (.mk p (some n) params body) := by
  cases e with
  | fn pos f =>
    obtain ⟨p, name, params, body⟩ := f
    cases name with
    | none => cases h
    | some n => exact ⟨pos, p, n, params, body, rfl⟩
  | _ => cases h

/-- A function without a name does not begin like a declaration. -/
theorem second_of_anonymous {e : Expr} (h : e.isNamedFn = false)
    (hb : Begins ρ c.rest (e.spelt ++ K)) (hf : e.IsFn) : c.second.isIdent = false := by
  cases e with
  | fn pos f =>
    obtain ⟨p, name, params, body⟩ := f
    cases name with
    | none =>
      rw [Begins.second (t := .keyword .fn) (u := .mark .lparen) hb]
      rfl
    | some n => cases h
  | _ => exact hf.elim

/-- A function with a name is read back as a declaration. -/
theorem statement_function {pos p : Pos} {n : String} {params : List String} {body : List Stmt}
    (hn : IsName n) (hf : (Function.mk p (some n) params body).Reads ρ)
    (hb : Begins ρ c.rest ((Function.mk p (some n) params body).spelt ++ K)) :
    Meets ρ (Stmt.EveryList sayable body) (Stmt.levelsList body + 1 ≤ d)
      (Stmt.Alike ρ · (.fn pos (.mk p (some n) params (Stmt.rereadList body)))) K
      ((core d).statement c) := by
  have htoken : c.token = .keyword .fn := Begins.token hb
  have hsecond : c.second = .ident n := by
    have h := Begins.second (t := .keyword .fn) hb
    rwa [Token.ofWord, hn.2] at h
  have hstatement : (core d).statement c =
      ((core d).function >>= fun f => pure (Stmt.fn c.pos f)) c := by
    rw [Nested.statement, here_bind, token_bind, htoken]
    have hbranch : (do
        if (← get).second.isIdent then
          return .fn c.pos (← (core d).function)
        else
          (core d).expressionStatement c.pos : Reader Stmt) c =
        ((core d).function >>= fun f => pure (Stmt.fn c.pos f)) c := by
      rw [get_bind, hsecond]
      rfl
    exact hbranch
  rw [hstatement, bind_apply]
  refine (hf d c K hb).bind id (fun _ => id) fun f c' hs hl hf hb' => ?_
  refine .ok hs hl ⟨?_, hf.positions⟩ hb'
  simp only [Stmt.erase, hf.erase]
  rfl

theorem Stmt.reads_fn {pos : Pos} {f : Function} (h : (Stmt.fn pos f).Built) (hf : f.Reads ρ) :
    (Stmt.fn pos f).Reads ρ := by
  intro d c K hb hK
  obtain ⟨p, name, params, body⟩ := f
  cases name with
  | none => cases h.1
  | some n => exact statement_function (h.2.1 n rfl) hf hb

theorem Stmt.reads_assign {pos : Pos} {target value : Expr} (ht : target.IsTarget)
    (hbuilt : target.Built) (htarget : target.Reads ρ) (hvalue : value.Reads ρ) :
    (Stmt.assign pos target value).Reads ρ := by
  intro d c K hb hK
  simp only [Stmt.spelt, List.append_assoc, List.cons_append, List.nil_append] at hb
  have hfn : target.IsFn → c.second.isIdent = false := fun hf => by
    cases target <;> first
      | exact ht.elim
      | exact hf.elim
  rw [heads_statement (heads_spelt hbuilt) hb hfn]
  refine (reads_assignment ht hbuilt htarget hvalue hb).congr Iff.rfl ?_ ?_
  · grind
  · rintro s ⟨v, w, rfl, hv, hw⟩
    refine ⟨?_, List.rel_append hv.positions hw.positions⟩
    simp [hv.erase, hw.erase]

theorem Stmt.reads_declare {pos : Pos} {name : String} {value : Expr}
    (hw : isIdentifier name.toList = true) (hv : value.Reads ρ) :
    (Stmt.declare pos name value).Reads ρ := by
  intro d c K hb hK
  simp only [Stmt.spelt, List.append_assoc, List.cons_append, List.nil_append] at hb
  have hstatement : (core d).statement c =
      ((core d).declaration >>= fun r => pure (Stmt.declare c.pos r.1 r.2)) c.advance := by
    rw [Nested.statement, here_bind, token_bind, hb.token]
    rfl
  rw [hstatement, bind_apply]
  refine (reads_declaration hw hv (hb.advance rfl)).bind id (fun _ => id)
    fun r c' hs hf hr hb' => ?_
  obtain ⟨v, rfl, hlike⟩ := hr
  refine .ok hs hf ⟨?_, .cons hb.pos hlike.positions⟩ hb'
  simp [hlike.erase]

theorem Stmt.reads_throw {pos : Pos} {value : Expr} (hv : value.Reads ρ) :
    (Stmt.throw_ pos value).Reads ρ := by
  intro d c K hb hK
  simp only [Stmt.spelt, List.append_assoc, List.cons_append, List.nil_append] at hb
  rw [Nested.statement, here_bind, token_bind, hb.token]
  change Meets ρ _ _ _ _ ((do
        let value ← (core d).expression
        endStatement
        return .throw_ c.pos value : Reader Stmt) c.advance)
  refine (reads_ended hv (hb.advance rfl)).congr Iff.rfl Iff.rfl ?_
  rintro s ⟨v, rfl, hlike⟩
  refine ⟨?_, .cons hb.pos hlike.positions⟩
  simp [hlike.erase]

theorem Stmt.reads_return_none {pos : Pos} : (Stmt.return_ pos none).Reads ρ := by
  intro d c K hb hK
  simp only [Stmt.spelt, List.cons_append, List.nil_append] at hb
  have hrest := hb.advance rfl
  have hstatement : (core d).statement c = .ok (.return_ c.pos none, c.advance.advance) := by
    rw [Nested.statement, here_bind, token_bind, hb.token]
    change (advance >>= fun _ => check .semi >>= fun _ => _) c = _
    rw [advance_bind, check_bind, Begins.token hrest]
    change (endStatement >>= fun _ => pure (Stmt.return_ c.pos none)) c.advance = _
    rw [bind_apply, endStatement_semi hrest]
    rfl
  rw [hstatement]
  exact .ok trivial (Nat.zero_le d) ⟨rfl, .cons hb.pos .nil⟩ (hrest.advance rfl)

/-- An expression does not begin with a semicolon. -/
theorem Heads.not_semi {e : Expr} {T : List Spelt} (h : Heads e T)
    (hb : Begins ρ c.rest (T ++ K)) : c.token.isMark .semi = false := by
  obtain ⟨t, s, L, rfl, ht, -⟩ := h
  rw [hb.token]
  cases t with
  | mark m => rcases ht with rfl | rfl | rfl | rfl | rfl <;> rfl
  | _ => rfl

theorem Stmt.reads_return {pos : Pos} {value : Expr} (hbuilt : value.Built) (hv : value.Reads ρ) :
    (Stmt.return_ pos (some value)).Reads ρ := by
  intro d c K hb hK
  simp only [Stmt.spelt, List.append_assoc, List.cons_append, List.nil_append] at hb
  have hrest := hb.advance rfl
  have hsemi := (heads_spelt hbuilt).not_semi hrest
  have hbrace := (heads_spelt hbuilt).not_isMark hrest (.inr (.inr rfl))
  have hstatement : (core d).statement c = ((core d).expression >>= fun value => do
      if ← check .rbrace then pure () else endStatement
      return .return_ c.pos (some value)) c.advance := by
    rw [Nested.statement, here_bind, token_bind, hb.token]
    change (advance >>= fun _ => check .semi >>= fun _ => _) c = _
    rw [advance_bind, check_bind, hsemi]
    change (check .rbrace >>= fun _ => _) c.advance = _
    rw [check_bind, hbrace]
    rfl
  rw [hstatement, bind_apply]
  refine (hv d _ _ hrest (closed_semi K)).bind id (fun _ => id) fun v c' hs hf hv' hb' => ?_
  change Meets ρ _ _ _ _ ((check .rbrace >>= fun _ => _) c')
  rw [check_bind, Begins.token hb']
  change Meets ρ _ _ _ _ ((endStatement >>= fun _ => pure (Stmt.return_ c.pos (some v))) c')
  rw [bind_apply, endStatement_semi hb']
  refine .ok hs hf ⟨?_, .cons hb.pos hv'.positions⟩ (hb'.advance rfl)
  simp [hv'.erase]

/-! ## Conditionals -/

/-- A condition and the branch behind it. -/
theorem reads_condition {α : Type} {cond : Expr} {body : List Stmt} {s f : Prop}
    {same : α → Prop} {L : List Spelt} {rest : Expr → List Stmt → Reader α} (hcond : cond.Reads ρ)
    (hbody : Stmt.BlockReads ρ body) {source : Option Pos}
    (hb : Begins ρ c.rest (.token (.keyword .if_) source :: mark .lparen :: (cond.spelt ++
      mark .rparen :: mark .lbrace :: (Stmt.speltList body ++ mark .rbrace :: L))))
    (hs : s → cond.Every sayable ∧ Stmt.EveryList sayable body)
    (hf : s → f → cond.levels < d ∧ Stmt.levelsList body < d)
    (h : ∀ v ss c', cond.Every sayable → Stmt.EveryList sayable body → cond.levels < d →
      Stmt.levelsList body < d → v.Alike ρ cond.reread →
      Stmt.AlikeList ρ ss (Stmt.rereadList body) → Begins ρ c'.rest L →
      Meets ρ s f same K (rest v ss c')) :
    Meets ρ s f same K ((do
      expectKeyword .if_
      expect .lparen
      let cond ← (core d).expression
      expect .rparen
      let thenBody ← (core d).block
      rest cond thenBody : Reader α) c) := by
  have hb₁ := hb.advance rfl
  rw [expectKeyword_bind, hb.token]
  change Meets ρ _ _ _ _ ((expect .lparen >>= fun _ => _) c.advance)
  rw [expect_bind, Begins.token hb₁]
  change Meets ρ _ _ _ _ (((core d).expression >>= fun _ => _) c.advance.advance)
  rw [bind_apply]
  refine (hcond d _ _ (hb₁.advance rfl) (IsClosing.closed (.inl rfl) _)).bind (fun h => (hs h).1)
    (fun h hfit => (hf h hfit).1) fun v c₂ hvs hvf hv hb₂ => ?_
  change Meets ρ _ _ _ _ ((expect .rparen >>= fun _ => _) c₂)
  rw [expect_bind, Begins.token hb₂]
  change Meets ρ _ _ _ _ (((core d).block >>= fun _ => _) c₂.advance)
  rw [bind_apply]
  refine (hbody d _ L (hb₂.advance rfl)).bind (fun h => (hs h).2) (fun h hfit => (hf h hfit).2)
    fun ss c₃ hss hsf hsame hb₃ => ?_
  exact h v ss c₃ hvs hss hvf hsf hv hsame hb₃

/-- A conditional is read one level down. -/
theorem statement_if {pos : Pos} (hb : Begins ρ c.rest (.token (.keyword .if_) (some pos) :: K)) :
    (core d).statement c = (core d).conditional c := by
  rw [Nested.statement, here_bind, token_bind, hb.token]

theorem conditional_zero {s : Prop} {n : Nat} {same : Stmt → Prop} :
    Meets ρ s (n + 1 ≤ 0) same K ((core 0).conditional c) :=
  .inr ⟨by omega, rfl⟩

theorem Stmt.reads_if {pos : Pos} {cond : Expr} {thenBody : List Stmt} (hcond : cond.Reads ρ)
    (hthen : Stmt.BlockReads ρ thenBody) : (Stmt.if_ pos cond thenBody none).Reads ρ := by
  intro d c K hb hK
  simp only [Stmt.spelt, List.append_assoc, List.cons_append, List.nil_append] at hb
  rw [statement_if hb]
  cases d with
  | zero => exact conditional_zero
  | succ d =>
    change Meets ρ _ _ _ _ ((core d).conditionalBody c)
    rw [Nested.conditionalBody, here_bind]
    refine reads_condition hcond hthen hb id (fun _ hf => ?_)
      fun v ss c' hvs hss hvf hsf hv hsame hb' => ?_
    · grind
    obtain ⟨t, s, L, rfl, ht⟩ := hK
    have helse : c'.token.isKeyword .else_ = false := by
      rw [Begins.token hb']
      cases t with
      | keyword k =>
        have hk : Keyword.else_ ≠ k := fun h => ht (by rw [h])
        simp [Token.isKeyword, hk]
      | _ => rfl
    rw [checkKeyword_bind, helse]
    refine .ok ⟨hvs, hss⟩ ?_ ⟨?_, .cons hb.pos (List.rel_append hv.positions hsame.positions)⟩ hb'
    · grind
    · simp [hv.erase, hsame.erase]

theorem Stmt.reads_ifElse {pos : Pos} {cond : Expr} {thenBody elseBody : List Stmt}
    (hcond : cond.Reads ρ) (hthen : Stmt.BlockReads ρ thenBody)
    (helse : Stmt.BlockReads ρ elseBody) :
    (Stmt.if_ pos cond thenBody (some elseBody)).Reads ρ := by
  intro d c K hb hK
  simp only [Stmt.spelt, List.append_assoc, List.cons_append, List.nil_append] at hb
  rw [statement_if hb]
  cases d with
  | zero => exact conditional_zero
  | succ d =>
    change Meets ρ _ _ _ _ ((core d).conditionalBody c)
    rw [Nested.conditionalBody, here_bind]
    refine reads_condition hcond hthen hb (fun h => ⟨h.1, h.2.1⟩) (fun _ hf => ?_)
      fun v ss c₁ hvs hss hvf hsf hv hsame hb₁ => ?_
    · grind
    have hb₂ := Begins.advance hb₁ rfl
    rw [checkKeyword_bind, Begins.token hb₁]
    change Meets ρ _ _ _ _ ((advance >>= fun _ => checkKeyword .if_ >>= fun _ => _) c₁)
    rw [advance_bind, checkKeyword_bind, Begins.token hb₂]
    change Meets ρ _ _ _ _ (((core d).block >>= fun ss' =>
      pure (Stmt.if_ c.pos v ss (some ss'))) c₁.advance)
    rw [bind_apply]
    refine (helse d _ K hb₂).bind (fun h => h.2.2) (fun _ hf => ?_)
      fun ss' c₂ hss' hsf' hsame' hb₃ => ?_
    · grind
    refine .ok ⟨hvs, hss, hss'⟩ ?_ ⟨?_, .cons hb.pos ?_⟩ hb₃
    · grind
    · simp [hv.erase, hsame.erase, hsame'.erase]
    · exact List.rel_append (List.rel_append hv.positions hsame.positions) hsame'.positions

/-! ## Lists of statements -/

theorem Token.Starts.ne {t : Token} (h : t.Starts) : t ≠ .eof ∧ t ≠ .mark .semi ∧
    t ≠ .mark .rbrace ∧ t ≠ .keyword .import_ ∧ t ≠ .keyword .export_ ∧
    t ≠ .keyword .else_ := by
  refine ⟨?_, ?_, ?_, ?_, ?_, ?_⟩ <;> rintro rfl <;> simp [Token.Starts, Token.Opens] at h

/-- The rounds of a list of statements that a token closes. -/
structure Picks (d : Nat) (close : Token) (pick : Reader (Pick Stmt)) : Prop where
  closes : close = .mark .rbrace ∨ close = .eof
  advances : Pick.Advances pick
  stop : ∀ c, c.token = close → pick c = .ok (.stop, c)
  skip : ∀ c, c.token = .mark .semi → pick c = .ok (.skip, c.advance)
  more : ∀ c, c.token.Starts →
    pick c = ((core d).statement c).map fun r => (.more r.1, r.2)

/-- Statements are read back up to what closes them. -/
def Stmt.ListReads (ρ : Pos → Pos → Prop) (ss : List Stmt) : Prop :=
  ∀ d close pick c K, Picks d close pick →
    Begins ρ c.rest (Stmt.speltList ss ++ .token close none :: K) →
    Meets ρ (Stmt.EveryList sayable ss) (Stmt.levelsList ss ≤ d)
      (Stmt.AlikeList ρ · (Stmt.rereadList ss)) (.token close none :: K) (collect pick c)

theorem eq_of_isMark {t : Token} {m : Mark} (h : t.isMark m = true) : t = .mark m := by
  cases t with
  | mark m' =>
    have hm : m = m' := by simpa [Token.isMark] using h
    rw [hm]
  | _ => cases h

theorem more_apply {α : Type} (x : Reader α) (c : Cursor) :
    (do return .more (← x) : Reader (Pick α)) c = (x c).map fun r => (.more r.1, r.2) := by
  rw [bind_apply]
  cases x c <;> rfl

theorem picks_block (d : Nat) : Picks d (.mark .rbrace) (Nested.blockPick .core (core d)) where
  closes := .inl rfl
  advances := Nested.advances_of_cases (Nested.blockPick_cases (builds_core d) .core)
  stop c h := by
    rw [Nested.blockPick, check_bind, h]
    rfl
  skip c h := by
    rw [Nested.blockPick, check_bind, h]
    change (token >>= fun _ => _) c = _
    rw [token_bind, h]
    rfl
  more c h := by
    obtain ⟨heof, hsemi, hbrace, himport, hexport, -⟩ := h.ne
    have hcheck : c.token.isMark .rbrace = false := by
      rw [Bool.eq_false_iff]
      exact fun hm => hbrace (eq_of_isMark hm)
    rw [← more_apply, Nested.blockPick, check_bind, hcheck]
    change (token >>= fun _ => _) c = _
    rw [token_bind]
    cases ht : c.token with
    | eof => exact absurd ht heof
    | mark m =>
      cases m with
      | semi => exact absurd ht hsemi
      | _ => rfl
    | keyword k =>
      cases k with
      | import_ => exact absurd ht himport
      | export_ => exact absurd ht hexport
      | _ => rfl
    | _ => rfl

theorem picks_program (d : Nat) :
    Picks d .eof (Nested.elementPick (core d).coreElement) where
  closes := .inr rfl
  advances := Nested.advances_of_cases
    (Nested.elementPick_cases (Nested.takesAt_coreElement (builds_core d)))
  stop c h := by
    rw [Nested.elementPick, token_bind, h]
    rfl
  skip c h := by
    rw [Nested.elementPick, token_bind, h]
    rfl
  more c h := by
    obtain ⟨heof, hsemi, -, himport, hexport, -⟩ := h.ne
    have helement : (core d).coreElement c = (core d).statement c := by
      rw [Nested.coreElement, token_bind]
      cases ht : c.token with
      | keyword k =>
        cases k with
        | import_ => exact absurd ht himport
        | export_ => exact absurd ht hexport
        | _ => rfl
      | _ => rfl
    rw [← helement, ← more_apply, Nested.elementPick, token_bind]
    cases ht : c.token with
    | eof => exact absurd ht heof
    | mark m =>
      cases m with
      | semi => exact absurd ht hsemi
      | _ => rfl
    | _ => rfl

/-- The tokens of a statement begin with one that may begin a statement. -/
theorem Stmt.starts {s : Stmt} (h : s.Built) :
    ∃ t source L, s.spelt = .token t source :: L ∧ t.Starts := by
  cases s with
  | declare pos name value => exact ⟨_, _, _, rfl, .inr (.inl rfl)⟩
  | fn pos f =>
    obtain ⟨_, _, _, _⟩ := f
    exact ⟨_, _, _, rfl, .inl (.inr (.inr (.inr rfl)))⟩
  | return_ pos value => cases value <;> exact ⟨_, _, _, rfl, .inr (.inr (.inl rfl))⟩
  | throw_ pos value => exact ⟨_, _, _, rfl, .inr (.inr (.inr (.inl rfl)))⟩
  | if_ pos cond thenBody elseBody =>
    cases elseBody <;> exact ⟨_, _, _, rfl, .inr (.inr (.inr (.inr rfl)))⟩
  | assign pos target value =>
    obtain ⟨t, source, L, hL, ht, -⟩ := heads_spelt h.2.1
    refine ⟨t, source, L ++ mark .assign :: value.spelt ++ [mark .semi], ?_, .inl ht⟩
    rw [Stmt.spelt, hL]
    rfl
  | expr pos value =>
    obtain ⟨t, source, L, hL, ht, -⟩ := heads_spelt h
    refine ⟨t, source, L ++ [mark .semi], ?_, .inl ht⟩
    rw [Stmt.spelt, hL]
    rfl

theorem noElse_list {ss : List Stmt} (h : Stmt.BuiltList ss) {close : Token}
    (hclose : close = .mark .rbrace ∨ close = .eof) (K : List Spelt) :
    NoElse (Stmt.speltList ss ++ .token close none :: K) := by
  cases ss with
  | nil =>
    refine ⟨close, none, K, rfl, ?_⟩
    rcases hclose with rfl | rfl <;> rintro ⟨⟩
  | cons s ss =>
    obtain ⟨t, source, L, hL, ht⟩ := Stmt.starts h.1
    refine ⟨t, source, L ++ Stmt.speltList ss ++ .token close none :: K, ?_, ht.ne.2.2.2.2.2⟩
    rw [Stmt.speltList, hL]
    rfl

theorem Stmt.listReads_nil : Stmt.ListReads ρ [] := by
  intro d close pick c K hpick hb
  have hstop := hpick.stop c hb.token
  rw [collect_eq hpick.advances, hstop]
  exact .ok trivial (Nat.zero_le d) ⟨rfl, .nil⟩ hb

/-- A semicolon that a statement leaves is passed over. -/
theorem collect_trailing {pick : Reader (Pick Stmt)} {close : Token} (hpick : Picks d close pick)
    (s : Stmt) (hb : Begins ρ c.rest (s.trailing ++ K)) :
    ∃ c', collect pick c = collect pick c' ∧ Begins ρ c'.rest K := by
  have hcases : s.trailing = [] ∨ s.trailing = [mark .semi] := by
    cases s with
    | expr pos value =>
      rw [Stmt.trailing]
      split
      · exact .inr rfl
      · exact .inl rfl
    | _ => exact .inl rfl
  rcases hcases with h | h
  · rw [h] at hb
    exact ⟨c, rfl, hb⟩
  · rw [h] at hb
    refine ⟨c.advance, ?_, Begins.advance hb rfl⟩
    rw [collect_eq hpick.advances, hpick.skip c (Begins.token hb)]
    rfl

theorem Stmt.listReads_cons {s : Stmt} {ss : List Stmt} (hbuilt : Stmt.BuiltList (s :: ss))
    (hs : s.Reads ρ) (hss : Stmt.ListReads ρ ss) : Stmt.ListReads ρ (s :: ss) := by
  intro d close pick c K hpick hb
  rw [Stmt.speltList, List.append_assoc] at hb
  have hstarts : c.token.Starts := by
    obtain ⟨t, source, L, hL, ht⟩ := Stmt.starts hbuilt.1
    rw [hL] at hb
    rwa [Begins.token hb]
  have hcollect : collect pick c = ((core d).statement c).bind fun r =>
      (collect pick r.2).map fun r' => (r.1 :: r'.1, r'.2) := by
    rw [collect_eq hpick.advances, hpick.more c hstarts]
    cases (core d).statement c <;> rfl
  rw [hcollect]
  refine (hs d c _ hb (noElse_list hbuilt.2 hpick.closes K)).bind And.left
    (fun _ hf => ?_) fun v c₁ hvs hvf hv hb₁ => ?_
  · simp only [Stmt.levelsList] at hf
    omega
  obtain ⟨c₂, hskip, hb₂⟩ := collect_trailing hpick s hb₁
  rw [hskip]
  refine (hss d close pick c₂ K hpick hb₂).map ⟨And.right, fun h => ⟨hvs, h⟩⟩ (fun _ => ?_)
    fun vs c₃ hsame hb₃ => ⟨⟨?_, List.rel_append hv.positions hsame.positions⟩, hb₃⟩
  · simp only [Stmt.levelsList]
    omega
  · simp only [Stmt.rereadList, Stmt.eraseList, hv.erase, hsame.erase]

theorem Stmt.ListReads.block {ss : List Stmt} (h : Stmt.ListReads ρ ss) :
    Stmt.BlockReads ρ ss := by
  intro d c K hb
  cases d with
  | zero => exact .inr ⟨by omega, rfl⟩
  | succ d =>
    change Meets ρ _ _ _ _ ((core d).blockBody .core c)
    rw [Nested.blockBody_eq, expect_bind, Begins.token hb]
    change Meets ρ _ _ _ _ ((collect (Nested.blockPick .core (core d)) >>= fun _ => _) c.advance)
    rw [bind_apply]
    refine (h d _ _ _ K (picks_block d) (hb.advance rfl)).bind id
      (fun _ => Nat.le_of_lt_succ) fun vs c₁ hs hf hsame hb₁ => ?_
    exact .ok hs (Nat.lt_succ_of_le hf) hsame (hb₁.advance rfl)

/-! ## The induction over trees -/

/-- All that is read back of an expression: as an operand, in front of a call or an access, and as
a statement if it is a function. -/
structure Expr.ReadsBack (ρ : Pos → Pos → Prop) (e : Expr) : Prop where
  operand : e.ReadsOperand ρ
  enclosed : e.ReadsEnclosed ρ
  fn : ∀ pos f, e = .fn pos f → f.Reads ρ

theorem Expr.ReadsBack.reads {e : Expr} (h : e.ReadsBack ρ) : e.Reads ρ := h.operand.reads

theorem ReadsHead.readsBack {e : Expr} (h : ReadsHead ρ e e.spelt e.levels) (hbuilt : e.Built)
    (hu : ¬ e.IsUnary) (hf : ¬ e.IsFn) : e.ReadsBack ρ :=
  have hoperand := h.readsOperand hbuilt hu
  ⟨hoperand, readsEnclosed hoperand.reads fun _ => h, fun _ _ he => (hf (by rw [he]; trivial)).elim⟩

theorem readsBack_fn {pos : Pos} {f : Function} (hbuilt : (Expr.fn pos f).Built)
    (hf : f.Reads ρ) : (Expr.fn pos f).ReadsBack ρ :=
  have hhead := readsHead_fn hbuilt.1 hf
  have hoperand := hhead.readsOperand hbuilt id
  ⟨hoperand, readsEnclosed hoperand.reads fun _ => hhead, fun _ _ he => by
    cases he
    exact hf⟩

theorem Stmt.reads_expr {pos : Pos} {value : Expr} (hbuilt : value.Built) (hv : value.ReadsBack ρ) : (Stmt.expr pos value).Reads ρ := by
  intro d c K hb hK
  rw [Stmt.spelt, List.append_assoc] at hb
  cases hnamed : value.isNamedFn with
  | true =>
    obtain ⟨q, p, n, params, body, rfl⟩ := isFn_of_isNamedFn hnamed
    obtain ⟨rfl, hn, -, -⟩ := hbuilt
    exact (statement_function (hn n rfl) (hv.fn _ _ rfl) hb).congr
      ⟨fun h => ⟨trivial, h⟩, And.right⟩ Iff.rfl fun _ => id
  | false =>
    have htrailing : (Stmt.expr pos value).trailing = [] := by
      rw [Stmt.trailing, hnamed]
      rfl
    have hreread : (Stmt.expr pos value).reread = .expr pos value.reread :=
      rereadStatement_eq (by rw [isNamedFn_reread, hnamed]) pos
    rw [htrailing, hreread, heads_statement (heads_spelt hbuilt) hb (second_of_anonymous hnamed hb)]
    refine (reads_expressionStatement hv.reads hb).congr ⟨fun h => ⟨trivial, h⟩, And.right⟩ ?_ ?_
    · rw [Stmt.levels, hnamed]
      exact Iff.rfl
    · rintro s ⟨v, rfl, hlike⟩
      exact ⟨by simp only [Stmt.erase, hlike.erase], hlike.positions⟩

mutual

theorem Expr.readsBack : ∀ {e : Expr}, e.Built → e.Every worded → e.ReadsBack ρ
  | .nil pos, h, _ => (readsHead_nil pos).readsBack h id id
  | .bool pos value, h, _ => (readsHead_bool pos value).readsBack h id id
  | .num pos value, h, _ => (readsHead_num pos value).readsBack h id id
  | .str pos value, h, _ => (readsHead_str pos value).readsBack h id id
  | .ident pos _, h, _ => (readsHead_ident h pos).readsBack h id id
  | .list _ _, h, hw => (readsHead_list h (Expr.readsList h hw)).readsBack h id id
  | .object _ _, h, hw => (readsHead_object (Expr.readsFields h hw)).readsBack h id id
  | .fn _ _, h, hw => readsBack_fn h (Function.readsBack h.2 hw)
  | .call _ _ _, h, hw =>
    (readsHead_call h.2 (Expr.readsBack h.1 hw.1).enclosed
      (Expr.readsList h.2 hw.2)).readsBack h id id
  | .member _ object _, h, hw =>
    (readsHead_member h.2 (Expr.readsBack (e := object) h.1 hw).enclosed).readsBack h id id
  | .index _ _ _, h, hw =>
    (readsHead_index (Expr.readsBack h.1 hw.1).enclosed
      (Expr.readsBack h.2 hw.2).reads).readsBack h id id
  | .unary pos op operand, h, hw =>
    have hoperand : (Expr.unary pos op operand).ReadsOperand ρ :=
      readsOperand_unary h (Expr.readsBack (e := operand) h hw).enclosed
    ⟨hoperand, readsEnclosed hoperand.reads fun hp => (by cases hp), fun _ _ he => (by cases he)⟩
  | .binary _ _ _ _, h, hw =>
    (readsHead_binary h.1 (Expr.readsBack h.2.1 hw.1).operand
      (Expr.readsBack h.2.2 hw.2).operand).readsBack h id id

theorem Expr.readsList : ∀ {es : List Expr}, Expr.BuiltList es → Expr.EveryList worded es →
    ∀ e ∈ es, e.Reads ρ
  | [], _, _ => List.forall_mem_nil _
  | _ :: _, h, hw =>
    List.forall_mem_cons.mpr ⟨(Expr.readsBack h.1 hw.1).reads, Expr.readsList h.2 hw.2⟩

theorem Expr.readsFields : ∀ {fields : List (String × Expr)}, Expr.BuiltFields fields →
    Expr.EveryFields worded fields → ∀ field ∈ fields, field.2.Reads ρ
  | [], _, _ => List.forall_mem_nil _
  | (key, value) :: fields, h, hw => by
    refine List.forall_mem_cons.mpr ⟨?_, Expr.readsFields h.2 hw.2.2⟩
    rcases h.1 with ⟨pos, hvalue⟩ | hbuilt
    · have hword := hw.2.1
      rw [hvalue] at hword ⊢
      exact reads_word hword pos
    · exact (Expr.readsBack hbuilt hw.2.1).reads

theorem Function.readsBack : ∀ {f : Function}, f.Built → f.Every worded → f.Reads ρ
  | .mk _ _ _ _, h, hw => Function.reads h.1 h.2.1 (Stmt.readsList h.2.2 hw).block

theorem Stmt.readsBack : ∀ {s : Stmt}, s.Built → s.Every worded → s.Reads ρ
  | .declare _ _ _, h, hw => Stmt.reads_declare h.1 (Expr.readsBack h.2 hw.2).reads
  | .fn _ _, h, hw => Stmt.reads_fn h (Function.readsBack h.2 hw)
  | .return_ _ none, _, _ => Stmt.reads_return_none
  | .return_ _ (some value), h, hw =>
    Stmt.reads_return h (Expr.readsBack (e := value) h hw).reads
  | .throw_ _ value, h, hw => Stmt.reads_throw (Expr.readsBack (e := value) h hw).reads
  | .if_ _ _ _ none, h, hw =>
    Stmt.reads_if (Expr.readsBack h.1 hw.1).reads (Stmt.readsList h.2 hw.2).block
  | .if_ _ _ _ (some _), h, hw =>
    Stmt.reads_ifElse (Expr.readsBack h.1 hw.1).reads (Stmt.readsList h.2.1 hw.2.1).block
      (Stmt.readsList h.2.2 hw.2.2).block
  | .assign _ _ _, h, hw =>
    Stmt.reads_assign h.1 h.2.1 (Expr.readsBack h.2.1 hw.1).reads
      (Expr.readsBack h.2.2 hw.2).reads
  | .expr _ _, h, hw => Stmt.reads_expr h (Expr.readsBack h hw.2)

theorem Stmt.readsList : ∀ {ss : List Stmt}, Stmt.BuiltList ss → Stmt.EveryList worded ss →
    Stmt.ListReads ρ ss
  | [], _, _ => Stmt.listReads_nil
  | _ :: _, h, hw =>
    Stmt.listReads_cons h (Stmt.readsBack h.1 hw.1) (Stmt.readsList h.2 hw.2)

end

/-! ## Texts -/

theorem lexemes_end {cs : List Char} {found : List Lexeme} {p q : Pos}
    (h : lexemes p cs = (lexemes q []).map (found ++ ·)) :
    ∃ ls, lexemes p cs = .ok ls := by
  rw [h, lexemes_nil]
  exact ⟨_, rfl⟩

/-- A text that is read as the tokens of some statements is read as these statements, node by node
where the tokens stand, if no keyword stands for a variable and they do not nest too deep, and else
it is refused. -/
theorem reads_program {ss : List Stmt} {source : List Char} {q : Pos}
    (hbuilt : Stmt.BuiltList ss) (hw : Stmt.EveryList worded ss)
    (hraw : Spelt.raw ∉ Stmt.speltList ss)
    (hscans : Scans ρ .start source (Stmt.speltList ss) q []) :
    match parseCore source with
    | .ok found => Stmt.EveryList sayable ss ∧ Stmt.levelsList ss ≤ maxNesting ∧
        Stmt.AlikeList ρ found (Stmt.rereadList ss)
    | .error e => ¬ Stmt.EveryList sayable ss ∨
        (¬ Stmt.levelsList ss ≤ maxNesting ∧ e.fault = .tooDeep) := by
  obtain ⟨found, hfound⟩ := lexemes_of_scans hscans hraw
  obtain ⟨ls, hls⟩ := lexemes_end hfound
  have hb : Begins ρ ls (Stmt.speltList ss ++ [.token .eof none]) := by
    refine begins_of_scans hscans hls fun ls hl => ?_
    rw [lexemes_nil, Except.ok.injEq] at hl
    rw [← hl]
    exact ⟨rfl, Sourced.none, trivial⟩
  have hmeets := Stmt.readsList hbuilt hw maxNesting .eof _ ⟨none, ls⟩ []
    (picks_program maxNesting) hb
  rw [parseCore, run_eq, hls, Nested.elements_eq]
  change match (collect (Nested.elementPick (core maxNesting).coreElement) ⟨none, ls⟩).map (·.1) with
    | .ok found => _
    | .error e => _
  cases hx : collect (Nested.elementPick (core maxNesting).coreElement) ⟨none, ls⟩ with
  | ok r =>
    rw [hx] at hmeets
    exact ⟨hmeets.1, hmeets.2.1, hmeets.2.2.1⟩
  | error e =>
    rw [hx] at hmeets
    exact hmeets

end Hotload.Syntax
