import Mathlib
import Hotload.Proofs.Syntax.Lexing

/-!
# What readers do to the tokens

A reader either stops with a fault or goes on with fewer tokens. This is what makes the repetitions
of the grammar end by themselves: their bound on the number of rounds is never reached.

* `token_bind`, `eat_bind`, …: the small readers, at a cursor.
* `TakesAt`: a result leaves a suffix of the tokens, shorter by some number at least, and has a
  property if all tokens are as the lexer makes them.
* `loop_eq`, `commaList_eq`: repetitions, one round at a time.
-/

namespace Hotload.Syntax

namespace Reader

variable {α β : Type}

/-! ## Small readers at a cursor -/

theorem bind_apply (x : Reader α) (f : α → Reader β) (c : Cursor) :
    (x >>= f) c = (x c).bind fun r => f r.1 r.2 := rfl

@[simp] theorem pure_apply (a : α) (c : Cursor) : (pure a : Reader α) c = .ok (a, c) := rfl

@[simp] theorem fail_apply (fault : Fault) (pos : Pos) (c : Cursor) :
    (fail fault pos : Reader α) c = .error ⟨fault, pos⟩ := rfl

@[simp] theorem unexpected_apply (e : Expected) (c : Cursor) :
    (unexpected e : Reader α) c = .error ⟨.unexpected e c.token, c.pos⟩ := rfl

@[simp] theorem unexpected_bind (e : Expected) (f : α → Reader β) (c : Cursor) :
    (unexpected e >>= f) c = .error ⟨.unexpected e c.token, c.pos⟩ := rfl

@[simp] theorem pure_bind_apply (a : α) (f : α → Reader β) (c : Cursor) :
    ((pure a : Reader α) >>= f) c = f a c := rfl

@[simp] theorem token_bind (f : Token → Reader β) (c : Cursor) :
    (token >>= f) c = f c.token c := rfl

@[simp] theorem here_bind (f : Pos → Reader β) (c : Cursor) : (here >>= f) c = f c.pos c := rfl

@[simp] theorem get_bind (f : Cursor → Reader β) (c : Cursor) :
    ((get : Reader Cursor) >>= f) c = f c c := rfl

@[simp] theorem advance_apply (c : Cursor) : advance c = .ok ((), c.advance) := rfl

@[simp] theorem advance_bind (f : Unit → Reader β) (c : Cursor) :
    (advance >>= f) c = f () c.advance := rfl

@[simp] theorem check_bind (m : Mark) (f : Bool → Reader β) (c : Cursor) :
    (check m >>= f) c = f (c.token.isMark m) c := rfl

@[simp] theorem checkKeyword_bind (k : Keyword) (f : Bool → Reader β) (c : Cursor) :
    (checkKeyword k >>= f) c = f (c.token.isKeyword k) c := rfl

theorem eat_apply (m : Mark) (c : Cursor) :
    eat m c = if c.token.isMark m then .ok (true, c.advance) else .ok (false, c) := by
  unfold eat
  rw [check_bind]
  split <;> rfl

@[simp] theorem eat_bind (m : Mark) (f : Bool → Reader β) (c : Cursor) :
    (eat m >>= f) c = if c.token.isMark m then f true c.advance else f false c := by
  rw [bind_apply, eat_apply]
  split <;> rfl

theorem expect_apply (m : Mark) (c : Cursor) :
    expect m c = if c.token.isMark m then .ok ((), c.advance)
      else .error ⟨.unexpected (.mark m) c.token, c.pos⟩ := by
  unfold expect
  rw [check_bind]
  split <;> rfl

@[simp] theorem expect_bind (m : Mark) (f : Unit → Reader β) (c : Cursor) :
    (expect m >>= f) c = if c.token.isMark m then f () c.advance
      else .error ⟨.unexpected (.mark m) c.token, c.pos⟩ := by
  rw [bind_apply, expect_apply]
  split <;> rfl

@[simp] theorem expectKeyword_bind (k : Keyword) (f : Unit → Reader β) (c : Cursor) :
    (expectKeyword k >>= f) c = if c.token.isKeyword k then f () c.advance
      else .error ⟨.unexpected (.keyword k) c.token, c.pos⟩ := by
  rw [bind_apply]
  unfold expectKeyword
  rw [checkKeyword_bind]
  split <;> rfl

end Reader

/-! ## Tokens that are taken -/

namespace Cursor

/-- All tokens to come are as the lexer makes them. -/
def Lexical (c : Cursor) : Prop := ∀ l ∈ c.rest, l.token.Lexical

theorem Lexical.token {c : Cursor} (h : c.Lexical) : c.token.Lexical := by
  unfold Cursor.token
  split
  · trivial
  · rename_i l ls hc
    exact h l (by rw [hc]; exact List.mem_cons_self)

/-- The later cursor has at least `k` tokens fewer to come. -/
structure Took (k : Nat) (c c' : Cursor) : Prop where
  suffix : c'.rest <:+ c.rest
  length : c'.rest.length + k ≤ c.rest.length

theorem Took.refl (c : Cursor) : Took 0 c c := ⟨List.suffix_refl _, by omega⟩

theorem Took.trans {m n : Nat} {c c' c'' : Cursor} (h : Took m c c') (h' : Took n c' c'') :
    Took (m + n) c c'' :=
  ⟨h'.suffix.trans h.suffix, by have := h.length; have := h'.length; omega⟩

theorem Took.mono {m n : Nat} {c c' : Cursor} (h : Took m c c') (hn : n ≤ m) : Took n c c' :=
  ⟨h.suffix, by have := h.length; omega⟩

theorem Took.lexical {k : Nat} {c c' : Cursor} (h : Took k c c') (hc : c.Lexical) : c'.Lexical :=
  fun l hl => hc l (h.suffix.subset hl)

theorem advance_rest {c : Cursor} (h : c.token.isEof = false) :
    ∃ l, c.rest = l :: c.advance.rest := by
  unfold token at h
  unfold advance
  split
  · rename_i hc
    simp [hc, Token.isEof] at h
  · rename_i l ls hc
    simp only [hc] at h
    exact ⟨l, by simp [h, hc]⟩

theorem took_advance {c : Cursor} (h : c.token.isEof = false) : Took 1 c c.advance := by
  obtain ⟨l, hl⟩ := advance_rest h
  exact ⟨by rw [hl]; exact List.suffix_cons _ _, by rw [hl]; simp⟩

theorem took_advance_zero (c : Cursor) : Took 0 c c.advance := by
  by_cases h : c.token.isEof = true
  · have : c.advance = c := by
      unfold advance token at *
      split
      · rfl
      · rename_i l ls hc
        simp only [hc] at h
        rw [if_pos h]
    rw [this]
    exact .refl c
  · exact (took_advance (by simpa using h)).mono (Nat.zero_le 1)

theorem isEof_of_isMark {c : Cursor} {m : Mark} (h : c.token.isMark m = true) :
    c.token.isEof = false := by
  cases hc : c.token <;> simp_all [Token.isMark, Token.isEof]

theorem isEof_of_isKeyword {c : Cursor} {k : Keyword} (h : c.token.isKeyword k = true) :
    c.token.isEof = false := by
  cases hc : c.token <;> simp_all [Token.isKeyword, Token.isEof]

end Cursor

section

variable {α β : Type} {c : Cursor} {m n : Nat} {P Q : α → Prop}

/-- If the reader succeeds at `c`, it has taken at least `n` tokens, and what it gives has the
property if the tokens at `c` are as the lexer makes them. -/
def TakesAt (c : Cursor) (n : Nat) (P : α → Prop) (x : Reader α) : Prop :=
  ∀ a c', x c = .ok (a, c') → c.Took n c' ∧ (c.Lexical → P a)

namespace TakesAt

theorem pure {a : α} (h : c.Lexical → P a) : TakesAt c 0 P (pure a) := by
  rintro a c' ⟨⟩
  exact ⟨.refl c, h⟩

theorem unexpected (e : Expected) : TakesAt c n P (Reader.unexpected e) := by
  rintro a c' ⟨⟩

theorem fail (fault : Fault) (pos : Pos) : TakesAt c n P (Reader.fail fault pos) := by
  rintro a c' ⟨⟩

theorem mono {x : Reader α} (h : TakesAt c m P x) (hn : n ≤ m) : TakesAt c n P x :=
  fun a c' hr => ⟨(h a c' hr).1.mono hn, (h a c' hr).2⟩

theorem imp {x : Reader α} (h : TakesAt c n P x) (hq : ∀ a, c.Lexical → P a → Q a) :
    TakesAt c n Q x :=
  fun a c' hr => ⟨(h a c' hr).1, fun hc => hq a hc ((h a c' hr).2 hc)⟩

variable {R : β → Prop}

theorem token {f : Token → Reader β} (h : TakesAt c n R (f c.token)) :
    TakesAt c n R (Reader.token >>= f) := h

theorem here {f : Pos → Reader β} (h : TakesAt c n R (f c.pos)) :
    TakesAt c n R (Reader.here >>= f) := h

theorem get {f : Cursor → Reader β} (h : TakesAt c n R (f c)) :
    TakesAt c n R ((MonadState.get : Reader Cursor) >>= f) := h

theorem check {mark : Mark} {f : Bool → Reader β} (h : TakesAt c n R (f (c.token.isMark mark))) :
    TakesAt c n R (Reader.check mark >>= f) := h

theorem checkKeyword {k : Keyword} {f : Bool → Reader β}
    (h : TakesAt c n R (f (c.token.isKeyword k))) :
    TakesAt c n R (Reader.checkKeyword k >>= f) := h

theorem after {x : Except SyntaxError (β × Cursor)} {f : Reader β} (ht : c.token.isEof = false)
    (hx : f c = x)
    (h : ∀ b c', x = .ok (b, c') → c.advance.Took n c' ∧ (c.advance.Lexical → c.Lexical → R b)) :
    TakesAt c (n + 1) R f := by
  intro b c' hr
  have htook := Cursor.took_advance ht
  obtain ⟨h1, h2⟩ := h b c' (hx ▸ hr)
  exact ⟨(htook.trans h1).mono (by omega), fun hc => h2 (htook.lexical hc) hc⟩

/-- A token passed, and what comes after it. -/
theorem advance {f : Unit → Reader β} (ht : c.token.isEof = false)
    (h : TakesAt c.advance n (fun b => c.Lexical → R b) (f ())) :
    TakesAt c (n + 1) R (Reader.advance >>= f) :=
  after ht rfl h

theorem eat {mark : Mark} {f : Bool → Reader β}
    (ht : c.token.isMark mark = true →
      TakesAt c.advance n (fun b => c.Lexical → R b) (f true))
    (hf : c.token.isMark mark = false → TakesAt c n R (f false)) :
    TakesAt c n R (Reader.eat mark >>= f) := by
  by_cases hm : c.token.isMark mark = true
  · exact (after (Cursor.isEof_of_isMark hm) (by rw [Reader.eat_bind, if_pos hm])
      (ht hm)).mono (Nat.le_succ n)
  · intro b c' hr
    rw [Reader.eat_bind, if_neg hm] at hr
    exact hf (by simpa using hm) b c' hr

theorem expect {mark : Mark} {f : Unit → Reader β}
    (h : TakesAt c.advance n (fun b => c.Lexical → R b) (f ())) :
    TakesAt c (n + 1) R (Reader.expect mark >>= f) := by
  by_cases hm : c.token.isMark mark = true
  · exact after (Cursor.isEof_of_isMark hm) (by rw [Reader.expect_bind, if_pos hm]) h
  · intro b c' hr
    rw [Reader.expect_bind, if_neg hm] at hr
    cases hr

theorem expectKeyword {k : Keyword} {f : Unit → Reader β}
    (h : TakesAt c.advance n (fun b => c.Lexical → R b) (f ())) :
    TakesAt c (n + 1) R (Reader.expectKeyword k >>= f) := by
  by_cases hm : c.token.isKeyword k = true
  · exact after (Cursor.isEof_of_isKeyword hm) (by rw [Reader.expectKeyword_bind, if_pos hm]) h
  · intro b c' hr
    rw [Reader.expectKeyword_bind, if_neg hm] at hr
    cases hr

theorem bind_add {x : Reader α} {f : α → Reader β} (hx : TakesAt c m P x)
    (hf : ∀ a c', TakesAt c' n (fun b => P a → R b) (f a)) : TakesAt c (m + n) R (x >>= f) := by
  intro b c' hr
  rw [Reader.bind_apply] at hr
  cases hxc : x c with
  | error e => simp [hxc, Except.bind] at hr
  | ok r =>
    obtain ⟨a, c₁⟩ := r
    simp only [hxc, Except.bind] at hr
    obtain ⟨ht, hp⟩ := hx a c₁ hxc
    obtain ⟨ht', hp'⟩ := hf a c₁ b c' hr
    exact ⟨ht.trans ht', fun hc => hp' (ht.lexical hc) (hp hc)⟩

/-- The tokens that the first reader takes are enough. -/
theorem bind {x : Reader α} {f : α → Reader β} (hx : TakesAt c n P x)
    (hf : ∀ a c', TakesAt c' 0 (fun b => P a → R b) (f a)) : TakesAt c n R (x >>= f) :=
  bind_add hx hf

end TakesAt

end

/-! ## Repetition -/

namespace Reader

variable {α σ : Type}

/-- The state that a round leaves. -/
def Round.state : Round σ → σ
  | .again s | .done s => s

/-- A round that goes on has taken a token. -/
def Advances (round : σ → Reader (Round σ)) : Prop :=
  ∀ s c s' c', round s c = .ok (.again s', c') → c'.rest.length < c.rest.length

theorem rounds_nil (round : σ → Reader (Round σ)) (s : σ) (c : Cursor) :
    rounds round [] s c = (round s c).bind fun r =>
      match r.1 with
      | .again s' | .done s' => .ok (s', r.2) := by
  rw [rounds, bind_apply]
  congr 1
  funext r
  cases r.1 <;> rfl

theorem rounds_cons (round : σ → Reader (Round σ)) (l : Lexeme) (b : List Lexeme) (s : σ)
    (c : Cursor) :
    rounds round (l :: b) s c = (round s c).bind fun r =>
      match r.1 with
      | .again s' => rounds round b s' r.2
      | .done s' => .ok (s', r.2) := by
  rw [rounds, bind_apply]
  congr 1
  funext r
  cases r.1 <;> rfl

/-- Enough rounds are as good as more of them. -/
theorem rounds_congr {round : σ → Reader (Round σ)} (h : Advances round) {s : σ} {c : Cursor}
    {b b' : List Lexeme} (hb : c.rest.length ≤ b.length) (hb' : c.rest.length ≤ b'.length) :
    rounds round b s c = rounds round b' s c := by
  induction b generalizing b' s c with
  | nil =>
    cases b' with
    | nil => rfl
    | cons l b' =>
      rw [rounds_nil, rounds_cons]
      cases hr : round s c with
      | error e => rfl
      | ok r =>
        obtain ⟨r, c'⟩ := r
        cases r with
        | again s' =>
          have := h s c s' c' hr
          simp only [List.length_nil] at hb
          omega
        | done s' => rfl
  | cons l b ih =>
    cases b' with
    | nil =>
      rw [rounds_nil, rounds_cons]
      cases hr : round s c with
      | error e => rfl
      | ok r =>
        obtain ⟨r, c'⟩ := r
        cases r with
        | again s' =>
          have := h s c s' c' hr
          simp only [List.length_nil] at hb'
          omega
        | done s' => rfl
    | cons l' b' =>
      rw [rounds_cons, rounds_cons]
      cases hr : round s c with
      | error e => rfl
      | ok r =>
        obtain ⟨r, c'⟩ := r
        cases r with
        | again s' =>
          have := h s c s' c' hr
          simp only [List.length_cons] at hb hb'
          exact ih (Nat.le_of_lt_succ (Nat.lt_of_lt_of_le this hb))
            (Nat.le_of_lt_succ (Nat.lt_of_lt_of_le this hb'))
        | done s' => rfl

/-- A repetition, one round at a time. -/
theorem loop_eq {round : σ → Reader (Round σ)} (h : Advances round) (s : σ) (c : Cursor) :
    loop round s c = (round s c).bind fun r =>
      match r.1 with
      | .again s' => loop round s' r.2
      | .done s' => .ok (s', r.2) := by
  have hl : ∀ s c, loop round s c = rounds round c.rest s c := fun _ _ => rfl
  simp only [hl]
  cases hc : c.rest with
  | nil =>
    rw [rounds_nil]
    cases hr : round s c with
    | error e => rfl
    | ok r =>
      obtain ⟨r, c'⟩ := r
      cases r with
      | again s' =>
        have := h s c s' c' hr
        simp [hc] at this
      | done s' => rfl
  | cons l b =>
    rw [rounds_cons]
    cases hr : round s c with
    | error e => rfl
    | ok r =>
      obtain ⟨r, c'⟩ := r
      cases r with
      | again s' =>
        have hlt := h s c s' c' hr
        rw [hc, List.length_cons] at hlt
        exact rounds_congr h (Nat.le_of_lt_succ hlt) (Nat.le_refl _)
      | done s' => rfl

/-- What every round keeps holds in front of the last round, so what this one makes of it holds after
the repetition. -/
theorem loop_ends {round : σ → Reader (Round σ)} (h : Advances round) {I F : σ → Cursor → Prop}
    (hagain : ∀ s c s' c', I s c → round s c = .ok (.again s', c') → I s' c')
    (hdone : ∀ s c s' c', I s c → round s c = .ok (.done s', c') → F s' c')
    {s s' : σ} {c c' : Cursor} (hs : I s c) (hl : loop round s c = .ok (s', c')) : F s' c' := by
  induction hn : c.rest.length using Nat.strong_induction_on generalizing c s with
  | _ n ih =>
    rw [loop_eq h] at hl
    cases hrc : round s c with
    | error e => simp [hrc, Except.bind] at hl
    | ok r =>
      obtain ⟨r, c₁⟩ := r
      simp only [hrc, Except.bind] at hl
      cases r with
      | done s₁ =>
        cases hl
        exact hdone s c s' c' hs hrc
      | again s₁ =>
        have hlt := h s c s₁ c₁ hrc
        exact ih c₁.rest.length (by omega) (hagain s c s₁ c₁ hs hrc) hl rfl

/-- What every round keeps holds after the repetition. -/
theorem loop_ok {round : σ → Reader (Round σ)} (h : Advances round) {I : σ → Cursor → Prop}
    (hr : ∀ s c r c', I s c → round s c = .ok (r, c') → I r.state c') {s s' : σ} {c c' : Cursor}
    (hs : I s c) (hl : loop round s c = .ok (s', c')) : I s' c' :=
  loop_ends h (fun s c s' c' => hr s c (.again s') c') (fun s c s' c' => hr s c (.done s') c') hs hl

theorem takesAt_loop {round : σ → Reader (Round σ)} {I : σ → Prop} (h : Advances round)
    (hr : ∀ s c, TakesAt c 0 (fun r => I s → I r.state) (round s)) (s : σ) (c : Cursor) :
    TakesAt c 0 (fun s' => I s → I s') (loop round s) := by
  intro s' c' hl
  refine loop_ok (I := fun s₁ c₁ => c.Took 0 c₁ ∧ (c.Lexical → I s → I s₁)) h ?_
    ⟨.refl c, fun _ => id⟩ hl
  rintro s₁ c₁ r c₂ ⟨ht, hi⟩ hrc
  obtain ⟨ht', hi'⟩ := hr s₁ c₁ r c₂ hrc
  exact ⟨ht.trans ht', fun hc hs => hi' (ht.lexical hc) (hi hc hs)⟩

/-! ## Lists -/

/-- What one round adds to a list, and whether another round follows. -/
inductive Pick (α : Type) where
  | stop
  | skip
  | more (x : α)
  | last (x : α)

namespace Pick

/-- The list, last element first, with what the round adds. -/
def onto (found : List α) : Pick α → Round (List α)
  | stop => .done found
  | skip => .again found
  | more x => .again (x :: found)
  | last x => .done (x :: found)

/-- The elements that the round adds. -/
def added : Pick α → List α
  | stop | skip => []
  | more x | last x => [x]

/-- The added element has a property. -/
def All (P : α → Prop) : Pick α → Prop
  | stop | skip => True
  | more x | last x => P x

/-- The tokens that a round of this outcome has taken at least. -/
def least : Pick α → Nat
  | stop | last _ => 0
  | skip | more _ => 1

theorem reverse_onto (r : Pick α) (found : List α) :
    (r.onto found).state.reverse = found.reverse ++ r.added := by
  cases r <;> simp [onto, Round.state, added]

theorem All.added {P : α → Prop} {r : Pick α} (h : r.All P) : ∀ x ∈ r.added, P x := by
  cases r with
  | stop | skip => exact fun x hx => absurd hx List.not_mem_nil
  | more y | last y =>
    intro x hx
    rw [List.mem_singleton.1 hx]
    exact h

end Pick

/-- A round that adds to a list. -/
def Pick.round (pick : Reader (Pick α)) (found : List α) : Reader (Round (List α)) := do
  return (← pick).onto found

/-- The list that a repeated reader gives element by element. -/
def collect (pick : Reader (Pick α)) : Reader (List α) := do
  let found ← loop (Pick.round pick) []
  return found.reverse

/-- Rounds that go on have taken a token. -/
def Pick.Advances (pick : Reader (Pick α)) : Prop :=
  ∀ c r c', pick c = .ok (r, c') → c'.rest.length + r.least ≤ c.rest.length

variable {pick : Reader (Pick α)}

theorem Pick.round_eq (pick : Reader (Pick α)) (found : List α) (c : Cursor) :
    Pick.round pick found c = (pick c).map fun r => (r.1.onto found, r.2) := by
  rw [Pick.round, bind_apply]
  cases pick c <;> rfl

theorem Pick.Advances.round (h : Pick.Advances pick) : Reader.Advances (Pick.round pick) := by
  intro s c s' c' hr
  rw [Pick.round_eq] at hr
  cases hp : pick c with
  | error e => simp [hp, Except.map] at hr
  | ok r =>
    obtain ⟨r, c₁⟩ := r
    have hlen := h c r c₁ hp
    simp only [hp, Except.map, Except.ok.injEq, Prod.mk.injEq] at hr
    obtain ⟨ho, rfl⟩ := hr
    cases r with
    | stop => simp [Pick.onto] at ho
    | skip => exact hlen
    | more x => exact hlen
    | last x => simp [Pick.onto] at ho

theorem collect_loop (pick : Reader (Pick α)) (c : Cursor) :
    collect pick c = (loop (Pick.round pick) [] c).map fun r => (r.1.reverse, r.2) := by
  rw [collect, bind_apply]
  cases loop (Pick.round pick) [] c <;> rfl

/-- What was found before stays behind what is found later. -/
theorem loop_round (h : Pick.Advances pick) (found : List α) (c : Cursor) :
    loop (Pick.round pick) found c =
      (collect pick c).map fun r => (r.1.reverse ++ found, r.2) := by
  induction hn : c.rest.length using Nat.strong_induction_on generalizing c found with
  | _ n ih =>
    rw [collect_loop, loop_eq h.round, loop_eq h.round []]
    simp only [Pick.round_eq]
    cases hp : pick c with
    | error e => rfl
    | ok r =>
      obtain ⟨r, c'⟩ := r
      have hlen := h c r c' hp
      cases r with
      | stop => rfl
      | last x => rfl
      | skip =>
        change c'.rest.length + 1 ≤ _ at hlen
        simp only [Except.map, Except.bind, Pick.onto]
        rw [ih c'.rest.length (by omega) found c' rfl, ih c'.rest.length (by omega) [] c' rfl]
        cases collect pick c' with
        | error e => rfl
        | ok r => simp [Except.map]
      | more x =>
        change c'.rest.length + 1 ≤ _ at hlen
        simp only [Except.map, Except.bind, Pick.onto]
        rw [ih c'.rest.length (by omega) (x :: found) c' rfl,
          ih c'.rest.length (by omega) [x] c' rfl]
        cases collect pick c' with
        | error e => rfl
        | ok r => simp [Except.map]

/-- A list, one element at a time. -/
theorem collect_eq (h : Pick.Advances pick) (c : Cursor) :
    collect pick c = (pick c).bind fun r =>
      match r.1 with
      | .stop => .ok ([], r.2)
      | .skip => collect pick r.2
      | .more x => (collect pick r.2).map fun r' => (x :: r'.1, r'.2)
      | .last x => .ok ([x], r.2) := by
  rw [collect_loop, loop_eq h.round, Pick.round_eq]
  cases hp : pick c with
  | error e => rfl
  | ok r =>
    obtain ⟨r, c'⟩ := r
    cases r with
    | stop => rfl
    | last x => rfl
    | skip =>
      simp only [Except.bind, Except.map, Pick.onto]
      rw [loop_round h]
      cases collect pick c' with
      | error e => rfl
      | ok r => simp [Except.map]
    | more x =>
      simp only [Except.bind, Except.map, Pick.onto]
      rw [loop_round h]
      cases collect pick c' with
      | error e => rfl
      | ok r => simp [Except.map]

/-- What every round keeps of the list so far holds of the whole list. -/
theorem collect_ok (h : Pick.Advances pick) {I : List α → Cursor → Prop}
    (hp : ∀ xs c r c', I xs c → pick c = .ok (r, c') → I (xs ++ r.added) c') {xs : List α}
    {c c' : Cursor} (hc : I [] c) (hr : collect pick c = .ok (xs, c')) : I xs c' := by
  rw [collect_loop] at hr
  cases hl : loop (Pick.round pick) [] c with
  | error e => simp [hl, Except.map] at hr
  | ok r =>
    rw [hl] at hr
    cases hr
    refine loop_ok (s := []) (I := fun found c => I found.reverse c) h.round ?_ hc hl
    intro found c₁ r₁ c₂ hi hround
    rw [Pick.round_eq] at hround
    cases hpick : pick c₁ with
    | error e => simp [hpick, Except.map] at hround
    | ok r₂ =>
      rw [hpick] at hround
      cases hround
      rw [Pick.reverse_onto]
      exact hp _ c₁ _ _ hi hpick

/-- Where every last round ends a list ends. -/
theorem collect_ends (h : Pick.Advances pick) {F : Cursor → Prop}
    (hp : ∀ c r c', pick c = .ok (r, c') → r.least = 0 → F c') {xs : List α} {c c' : Cursor}
    (hr : collect pick c = .ok (xs, c')) : F c' := by
  rw [collect_loop] at hr
  cases hl : loop (Pick.round pick) [] c with
  | error e => simp [hl, Except.map] at hr
  | ok r =>
    rw [hl] at hr
    cases hr
    refine loop_ends (I := fun _ _ => True) (F := fun _ => F) h.round (fun _ _ _ _ _ _ => trivial) ?_
      trivial hl
    intro found c₁ found' c₂ _ hround
    rw [Pick.round_eq] at hround
    cases hpick : pick c₁ with
    | error e => simp [hpick, Except.map] at hround
    | ok r₂ =>
      obtain ⟨r₂, c₃⟩ := r₂
      rw [hpick] at hround
      cases r₂ with
      | stop | last x =>
        cases hround
        exact hp c₁ _ c₃ hpick rfl
      | skip | more x => cases hround

/-- What holds of every element that a round adds holds of every element of the list. -/
theorem takesAt_collect {P : α → Prop} (h : Pick.Advances pick)
    (hp : ∀ c, TakesAt c 0 (Pick.All P) pick) (c : Cursor) :
    TakesAt c 0 (fun xs => ∀ x ∈ xs, P x) (collect pick) := by
  intro xs c' hr
  refine collect_ok (I := fun xs c₁ => c.Took 0 c₁ ∧ (c.Lexical → ∀ x ∈ xs, P x)) h ?_
    ⟨.refl c, fun _ x hx => absurd hx List.not_mem_nil⟩ hr
  rintro xs c₁ r c₂ ⟨ht, hxs⟩ hpick
  obtain ⟨ht', hall⟩ := hp c₁ r c₂ hpick
  refine ⟨ht.trans ht', fun hc => List.forall_mem_append.2 ⟨hxs hc, ?_⟩⟩
  exact (hall (ht.lexical hc)).added

/-- A round of a list with commas. -/
def commaPick (close : Mark) (item : Reader α) : Reader (Pick α) := do
  if ← check close then return .stop
  let x ← item
  if ← eat .comma then return .more x else return .last x

theorem commaPick_eq (close : Mark) (item : Reader α) (c : Cursor) :
    commaPick close item c =
      if c.token.isMark close then .ok (.stop, c)
      else (item c).bind fun r =>
        if r.2.token.isMark .comma then .ok (.more r.1, r.2.advance) else .ok (.last r.1, r.2) := by
  rw [commaPick, check_bind]
  split
  · rfl
  · rw [bind_apply]
    congr 1
    funext r
    rw [eat_bind]
    split <;> rfl

theorem commaList_eq_collect (close : Mark) (item : Reader α) :
    commaList close item = collect (commaPick close item) := by
  have hround : (fun found => do
      if ← check close then return .done found
      let x ← item
      if ← eat .comma then return .again (x :: found) else return .done (x :: found)) =
        Pick.round (commaPick close item) := by
    funext found c
    rw [Pick.round_eq, commaPick_eq, check_bind]
    split
    · rfl
    · rw [bind_apply]
      cases item c with
      | error e => rfl
      | ok r =>
        simp only [Except.bind, eat_bind]
        split <;> rfl
  rw [commaList, hround, collect]

theorem advances_commaPick {close : Mark} {item : Reader α} {P : α → Prop}
    (h : ∀ c, TakesAt c 0 P item) : Pick.Advances (commaPick close item) := by
  intro c r c' hr
  rw [commaPick_eq] at hr
  split at hr
  · cases hr
    exact Nat.le_refl _
  · cases hi : item c with
    | error e => simp [hi, Except.bind] at hr
    | ok r₁ =>
      have ht := (h c r₁.1 r₁.2 hi).1.length
      simp only [hi, Except.bind] at hr
      split at hr
      · rename_i hm
        cases hr
        have := (Cursor.took_advance (Cursor.isEof_of_isMark hm)).length
        simp only [Pick.least]
        omega
      · cases hr
        exact ht

/-- A list with commas, one item at a time. -/
theorem commaList_eq {close : Mark} {item : Reader α} {P : α → Prop}
    (h : ∀ c, TakesAt c 0 P item) (c : Cursor) :
    commaList close item c =
      if c.token.isMark close then .ok ([], c)
      else (item c).bind fun r =>
        if r.2.token.isMark .comma then
          (commaList close item r.2.advance).map fun r' => (r.1 :: r'.1, r'.2)
        else .ok ([r.1], r.2) := by
  rw [commaList_eq_collect, collect_eq (advances_commaPick h), commaPick_eq]
  split
  · rfl
  · cases item c with
    | error e => rfl
    | ok r =>
      by_cases hm : r.2.token.isMark .comma = true
      · simp only [Except.bind, if_pos hm]
      · simp only [Except.bind, if_neg hm]

theorem takesAt_commaPick {close : Mark} {item : Reader α} {P : α → Prop}
    (h : ∀ c, TakesAt c 0 P item) (c : Cursor) :
    TakesAt c 0 (Pick.All P) (commaPick close item) := by
  refine .check ?_
  split
  · exact .pure fun _ => trivial
  · refine .bind (h c) fun x c' => .eat (fun _ => ?_) (fun _ => ?_)
    · exact .pure fun _ _ hx => hx
    · exact .pure fun _ hx => hx

theorem takesAt_commaList {close : Mark} {item : Reader α} {P : α → Prop}
    (h : ∀ c, TakesAt c 0 P item) (c : Cursor) :
    TakesAt c 0 (fun xs => ∀ x ∈ xs, P x) (commaList close item) := by
  rw [commaList_eq_collect]
  exact takesAt_collect (advances_commaPick h) (takesAt_commaPick h) c

/-! ## Names and ends of statements -/

/-- The name of a property as the grammar reads it: a keyword counts by its first spelling. -/
def IsPropertyName (name : String) : Prop :=
  isIdentifier name.toList = true ∧ ∀ k, Keyword.ofWord? name = some k → k.spelling = name

theorem isPropertyName_of_isName {name : String} (h : IsName name) : IsPropertyName name :=
  ⟨h.1, fun k hk => by simp [h.2] at hk⟩

theorem ofWord?_spelling (k : Keyword) : Keyword.ofWord? k.spelling = some k := by
  cases k <;> rfl

theorem isPropertyName_spelling (k : Keyword) : IsPropertyName k.spelling := by
  refine ⟨by cases k <;> decide, fun k' hk => ?_⟩
  rw [ofWord?_spelling] at hk
  cases hk
  rfl

theorem takesAt_ident (e : Expected) (c : Cursor) : TakesAt c 1 IsName (ident e) := by
  refine .token ?_
  split
  · rename_i name hn
    refine .advance (by rw [hn]; rfl) (.pure fun _ hc => ?_)
    have := hc.token
    rwa [hn] at this
  · exact .unexpected _

theorem takesAt_propertyName (c : Cursor) : TakesAt c 1 IsPropertyName propertyName := by
  refine .token ?_
  split
  · rename_i name hn
    refine .advance (by rw [hn]; rfl) (.pure fun _ hc => ?_)
    have := hc.token
    rw [hn] at this
    exact isPropertyName_of_isName this
  · rename_i k hk
    exact .advance (by rw [hk]; rfl) (.pure fun _ _ => isPropertyName_spelling k)
  · exact .unexpected _

theorem takesAt_string (e : Expected) (c : Cursor) :
    TakesAt c 1 (fun _ => True) (string e) := by
  refine .token ?_
  split
  · rename_i hs
    exact .advance (by rw [hs]; rfl) (.pure fun _ _ => trivial)
  · exact .unexpected _

theorem takesAt_endStatement (c : Cursor) : TakesAt c 0 (fun _ => True) endStatement := by
  refine .eat (fun _ => .pure fun _ _ => trivial) (fun _ => .get ?_)
  split
  · exact .pure fun _ => trivial
  · exact .unexpected _

/-- A pair of brackets in an annotation. -/
def bracketsRound (_ : Unit) : Reader (Round Unit) := do
  if (← check .lbracket) && (← get).second.isMark .rbracket then
    advance
    advance
    return .again ()
  else
    return .done ()

theorem bracketsRound_eq (u : Unit) (c : Cursor) :
    bracketsRound u c =
      if (c.token.isMark .lbracket && c.second.isMark .rbracket) = true then
        .ok (.again (), c.advance.advance)
      else .ok (.done (), c) := by
  rw [bracketsRound, check_bind, get_bind]
  split <;> rfl

theorem advances_bracketsRound : Advances bracketsRound := by
  intro u c u' c' hr
  rw [bracketsRound_eq] at hr
  split at hr
  · rename_i hm
    cases hr
    rw [Bool.and_eq_true] at hm
    have h1 := (Cursor.took_advance (Cursor.isEof_of_isMark hm.1)).length
    have h2 := (Cursor.took_advance_zero c.advance).length
    omega
  · cases hr

theorem takesAt_bracketsRound (u : Unit) (c : Cursor) :
    TakesAt c 0 (fun _ => True → True) (bracketsRound u) := by
  intro r c' hr
  rw [bracketsRound_eq] at hr
  split at hr
  · cases hr
    exact ⟨(Cursor.took_advance_zero c).trans (Cursor.took_advance_zero c.advance),
      fun _ _ => trivial⟩
  · cases hr
    exact ⟨.refl c, fun _ _ => trivial⟩

theorem takesAt_advance (c : Cursor) : TakesAt c 0 (fun _ => True) advance := by
  rintro u c' ⟨⟩
  exact ⟨Cursor.took_advance_zero c, fun _ => trivial⟩

theorem takesAt_skipped (c : Cursor) :
    TakesAt c 0 (fun _ => True) skipAnnotation := by
  refine .eat (fun _ => ?_) (fun _ => .pure fun _ => trivial)
  have hbrackets (c : Cursor) : TakesAt c 0 (fun _ => True → True) (loop bracketsRound ()) :=
    takesAt_loop advances_bracketsRound takesAt_bracketsRound () c
  refine .token ?_
  split
  · exact (takesAt_advance _).bind fun _ c' => (hbrackets c').imp fun _ _ _ _ _ => trivial
  · exact (takesAt_advance _).bind fun _ c' => (hbrackets c').imp fun _ _ _ _ _ => trivial
  · exact TakesAt.bind (P := fun _ => True) (.unexpected _)
      fun _ c' => (hbrackets c').imp fun _ _ _ _ _ => trivial

end Reader

end Hotload.Syntax
