import Mathlib
import Hotload.Proofs.Syntax.Likeness
import Hotload.Proofs.Syntax.Slots

/-!
# Types are passed over

The grammar looks for an annotation where one may stand and nowhere else, and what it passes over
leaves nothing in the tree. Two readings of token sequences that differ in annotations go through
the same readers at the same spots, so one development serves both facts: it follows two readings
with any relation of cursors that is kept from token to token.

* `Tracks`: a relation of cursors, spot by spot, and the errors that a reading may stop with.
* `Follows`: readers that lead from related cursors to related cursors and trees.
* `Nested.Follows`, `follows_ofDepth`: those of every nesting level do.
-/

namespace Hotload.Syntax

open Reader

variable {α β γ δ σ τ : Type} {E : SyntaxError → Prop} {K : Spot → Cursor → Cursor → Prop}

/-- What the first computation gives has a counterpart in what the second gives; if the first stops,
the error is one of a kind. -/
def Answers (E : SyntaxError → Prop) (Q : α → β → Prop) (x : Except SyntaxError α)
    (y : Except SyntaxError β) : Prop :=
  match x with
  | .ok a => ∃ b, y = .ok b ∧ Q a b
  | .error e => E e

namespace Answers

variable {Q Q' : α → β → Prop} {R : γ → δ → Prop} {x : Except SyntaxError α}
  {y : Except SyntaxError β}

theorem ok {a : α} {b : β} (h : Q a b) : Answers E Q (.ok a) (.ok b) := ⟨b, rfl, h⟩

theorem bind {f : α → Except SyntaxError γ} {g : β → Except SyntaxError δ} (hx : Answers E Q x y)
    (hf : ∀ a b, Q a b → Answers E R (f a) (g b)) : Answers E R (x.bind f) (y.bind g) := by
  cases x with
  | error e => exact hx
  | ok a =>
    obtain ⟨b, rfl, hab⟩ := hx
    exact hf a b hab

theorem imp (hx : Answers E Q x y) (hq : ∀ a b, Q a b → Q' a b) : Answers E Q' x y := by
  cases x with
  | error e => exact hx
  | ok a =>
    obtain ⟨b, hy, hab⟩ := hx
    exact ⟨b, hy, hq a b hab⟩

end Answers

/-- The reader waits for the name of a type. -/
def Fault.AsksForType : Fault → Prop
  | .unexpected .typeName _ => True
  | _ => False

/-- Both cursors show the same token and stay related when they pass it. -/
structure Steps (K : Spot → Cursor → Cursor → Prop) (q : Spot) (c c' : Cursor) : Prop where
  token : c'.token = c.token
  advance : c.token.isEof = false → K (q.step c.token) c.advance c'.advance

/-- Cursors that are related spot by spot. Where a type may stand they may go on together, or one
may have a type to pass and the other none. An error that waits for the name of a type comes from
behind the colon of an annotation. -/
structure Tracks (K : Spot → Cursor → Cursor → Prop) (E : SyntaxError → Prop) : Prop where
  step : ∀ {q c c'}, q.isSlot = false → K q c c' → Steps K q c c'
  slot : ∀ {s c c'}, K (.slot s) c c' → Steps K (.slot s) c c' ∨
    ∃ d d', skipAnnotation c = .ok ((), d) ∧ skipAnnotation c' = .ok ((), d') ∧ K (.typed s) d d'
  asks : ∀ {s c c'}, K (.colon s) c c' → E ⟨.unexpected .typeName c.token, c.pos⟩
  other : ∀ e : SyntaxError, ¬ e.fault.AsksForType → E e

/-- Related cursors behind the same token. -/
structure At (K : Spot → Cursor → Cursor → Prop) (q : Spot) (c c' : Cursor) : Prop where
  here : K q c c'
  previous : c'.previous = c.previous

/-- The cursors show the same token, and if it is this mark they are related behind it. -/
structure Offers (K : Spot → Cursor → Cursor → Prop) (m : Mark) (q : Spot) (c c' : Cursor) :
    Prop where
  token : c'.token = c.token
  advance : c.token = .mark m → K q c.advance c'.advance

theorem Token.isMark_iff {m : Mark} {t : Token} : t.isMark m = true ↔ t = .mark m := by
  cases t <;> simp [isMark, eq_comm]

theorem Token.isKeyword_iff {k : Keyword} {t : Token} : t.isKeyword k = true ↔ t = .keyword k := by
  cases t <;> simp [isKeyword, eq_comm]

theorem previous_advance {c c' : Cursor} (ht : c'.token = c.token) (heof : c.token.isEof = false) :
    c'.advance.previous = c.advance.previous := by
  rw [Cursor.advance_previous heof, Cursor.advance_previous (by rw [ht]; exact heof), ht]

theorem Steps.at {q : Spot} {c c' : Cursor} (h : Steps K q c c') (heof : c.token.isEof = false) :
    At K (q.step c.token) c.advance c'.advance :=
  ⟨h.advance heof, previous_advance h.token heof⟩

theorem Steps.offers {q : Spot} {c c' : Cursor} (h : Steps K q c c') (m : Mark) :
    Offers K m (q.step (.mark m)) c c' :=
  ⟨h.token, fun ht => ht ▸ h.advance (by rw [ht]; rfl)⟩

theorem Offers.at {m : Mark} {q : Spot} {c c' : Cursor} (h : Offers K m q c c')
    (hm : c.token.isMark m = true) : At K q c.advance c'.advance :=
  ⟨h.advance (Token.isMark_iff.mp hm), previous_advance h.token (Cursor.isEof_of_isMark hm)⟩

/-! ## Readers that follow one another -/

/-- From related cursors the readers lead to related results. -/
def Follows (E : SyntaxError → Prop) (P : Cursor → Cursor → Prop)
    (Q : α × Cursor → β × Cursor → Prop) (x : Reader α) (y : Reader β) : Prop :=
  ∀ c c', P c c' → Answers E Q (x c) (y c')

/-- Results alike, and related cursors. -/
structure Yields (f : α → γ) (P : Cursor → Cursor → Prop) (r r' : α × Cursor) : Prop where
  alike : f r'.1 = f r.1
  cursors : P r.2 r'.2

namespace Follows

variable {P P' : Cursor → Cursor → Prop} {Q Q' : α × Cursor → β × Cursor → Prop}
  {R : γ × Cursor → δ × Cursor → Prop}

theorem pure {a : α} {b : β} (h : ∀ c c', P c c' → Q (a, c) (b, c')) :
    Follows E P Q (Pure.pure a) (Pure.pure b) :=
  fun c c' hc => .ok (h c c' hc)

theorem bind {x : Reader α} {y : Reader β} {f : α → Reader γ} {g : β → Reader δ}
    (hx : Follows E P Q x y)
    (hf : ∀ a b, Follows E (fun d d' => Q (a, d) (b, d')) R (f a) (g b)) :
    Follows E P R (x >>= f) (y >>= g) :=
  fun c c' hc => (hx c c' hc).bind fun r r' hr => hf r.1 r'.1 r.2 r'.2 hr

theorem weaken {x : Reader α} {y : Reader β} (hx : Follows E P Q x y)
    (hp : ∀ c c', P' c c' → P c c') : Follows E P' Q x y :=
  fun c c' hc => hx c c' (hp c c' hc)

/-- Readers that do not look back at the token before. -/
theorem at_ {q : Spot} {x : Reader α} {y : Reader β} (hx : Follows E (K q) Q x y) :
    Follows E (At K q) Q x y :=
  hx.weaken fun _ _ hc => hc.here

theorem imp {x : Reader α} {y : Reader β} (hx : Follows E P Q x y)
    (hq : ∀ r r', Q r r' → Q' r r') : Follows E P Q' x y :=
  fun c c' hc => (hx c c' hc).imp hq

/-- A reader whose results are alike, and what comes of them. -/
theorem andThen {x y : Reader α} {f g : α → Reader β} {k : α → τ} {S : Cursor → Cursor → Prop}
    {R : β × Cursor → β × Cursor → Prop} (hx : Follows E P (Yields k S) x y)
    (hf : ∀ a b, k b = k a → Follows E S R (f a) (g b)) : Follows E P R (x >>= f) (y >>= g) :=
  hx.bind fun a b c c' hg => hf a b hg.alike c c' hg.cursors

theorem here {f : Pos → Reader α} {g : Pos → Reader β} (hf : ∀ p p', Follows E P Q (f p) (g p')) :
    Follows E P Q (Reader.here >>= f) (Reader.here >>= g) :=
  fun c c' hc => hf c.pos c'.pos c c' hc

theorem get {f : Cursor → Reader α} {g : Cursor → Reader β}
    (hf : ∀ c c', P c c' → Follows E P Q (f c) (g c')) :
    Follows E P Q (MonadState.get >>= f) (MonadState.get >>= g) :=
  fun c c' hc => hf c c' hc c c' hc

theorem token {f : Token → Reader α} {g : Token → Reader β}
    (hP : ∀ c c', P c c' → c'.token = c.token)
    (hf : ∀ t, Follows E (fun c c' => P c c' ∧ c.token = t) Q (f t) (g t)) :
    Follows E P Q (Reader.token >>= f) (Reader.token >>= g) := by
  intro c c' hc
  change Answers E Q (f c.token c) (g c'.token c')
  rw [hP c c' hc]
  exact hf c.token c c' ⟨hc, rfl⟩

theorem check {m : Mark} {f : Bool → Reader α} {g : Bool → Reader β}
    (hP : ∀ c c', P c c' → c'.token = c.token)
    (hf : ∀ b, Follows E (fun c c' => P c c' ∧ c.token.isMark m = b) Q (f b) (g b)) :
    Follows E P Q (Reader.check m >>= f) (Reader.check m >>= g) := by
  intro c c' hc
  rw [check_bind, check_bind, hP c c' hc]
  exact hf _ c c' ⟨hc, rfl⟩

theorem checkKeyword {k : Keyword} {f : Bool → Reader α} {g : Bool → Reader β}
    (hP : ∀ c c', P c c' → c'.token = c.token)
    (hf : ∀ b, Follows E (fun c c' => P c c' ∧ c.token.isKeyword k = b) Q (f b) (g b)) :
    Follows E P Q (Reader.checkKeyword k >>= f) (Reader.checkKeyword k >>= g) := by
  intro c c' hc
  rw [checkKeyword_bind, checkKeyword_bind, hP c c' hc]
  exact hf _ c c' ⟨hc, rfl⟩

theorem advance {S : Cursor → Cursor → Prop} {f : Unit → Reader α} {g : Unit → Reader β}
    (hP : ∀ c c', P c c' → S c.advance c'.advance) (hf : Follows E S Q (f ()) (g ())) :
    Follows E P Q (Reader.advance >>= f) (Reader.advance >>= g) :=
  fun c c' hc => hf c.advance c'.advance (hP c c' hc)

theorem eat {m : Mark} {q : Spot} {f : Bool → Reader α} {g : Bool → Reader β}
    (hP : ∀ c c', P c c' → Offers K m q c c') (ht : Follows E (At K q) Q (f true) (g true))
    (hf : Follows E P Q (f false) (g false)) :
    Follows E P Q (Reader.eat m >>= f) (Reader.eat m >>= g) := by
  intro c c' hc
  have hm := hP c c' hc
  rw [eat_bind, eat_bind, hm.token]
  split
  · rename_i h
    exact ht _ _ (hm.at h)
  · exact hf c c' hc

end Follows

namespace Tracks

variable (h : Tracks K E) {q : Spot} {P : Cursor → Cursor → Prop}
  {Q : α × Cursor → β × Cursor → Prop}

include h

theorem token_eq (hq : q.isSlot = false) (c c' : Cursor) (hc : K q c c') : c'.token = c.token :=
  (h.step hq hc).token

theorem unexpected {e : Expected} (he : e ≠ .typeName) :
    Follows E P Q (Reader.unexpected e : Reader α) (Reader.unexpected e) :=
  fun _ _ _ => h.other _ fun ha => by cases e <;> simp_all [Fault.AsksForType]

theorem fail {fault : Fault} (hf : ¬ fault.AsksForType) {p p' : Pos} :
    Follows E P Q (Reader.fail fault p : Reader α) (Reader.fail fault p') :=
  fun _ _ _ => h.other _ hf

theorem failHere {fault : Fault} (hf : ¬ fault.AsksForType) :
    Follows E P Q (do Reader.fail fault (← Reader.here) : Reader α)
      (do Reader.fail fault (← Reader.here)) :=
  .here fun _ _ => h.fail hf

/-- A token passed away from the places of types. -/
theorem advance {t : Token} {f : Unit → Reader α} {g : Unit → Reader β} (hq : q.isSlot = false)
    (ht : t.isEof = false) (hf : Follows E (At K (q.step t)) Q (f ()) (g ())) :
    Follows E (fun c c' => K q c c' ∧ c.token = t) Q (Reader.advance >>= f)
      (Reader.advance >>= g) := by
  refine .advance (fun c c' hc => ?_) hf
  obtain ⟨hk, rfl⟩ := hc
  exact (h.step hq hk).at ht

theorem advance_at {t : Token} {f : Unit → Reader α} {g : Unit → Reader β}
    (hq : q.isSlot = false) (ht : t.isEof = false)
    (hf : Follows E (At K (q.step t)) Q (f ()) (g ())) :
    Follows E (fun c c' => At K q c c' ∧ c.token = t) Q (Reader.advance >>= f)
      (Reader.advance >>= g) :=
  (h.advance hq ht hf).weaken fun _ _ hc => ⟨hc.1.here, hc.2⟩

theorem advance_keyword {k : Keyword} {f : Unit → Reader α} {g : Unit → Reader β}
    (hq : q.isSlot = false) (hf : Follows E (At K (q.step (.keyword k))) Q (f ()) (g ())) :
    Follows E (fun c c' => At K q c c' ∧ c.token.isKeyword k = true) Q (Reader.advance >>= f)
      (Reader.advance >>= g) :=
  (h.advance_at hq rfl hf).weaken fun _ _ hc => ⟨hc.1, Token.isKeyword_iff.mp hc.2⟩

theorem token_eq_at (hq : q.isSlot = false) (c c' : Cursor) (hc : At K q c c') :
    c'.token = c.token :=
  h.token_eq hq c c' hc.here

theorem expect_of_offers {m : Mark} {f : Unit → Reader α} {g : Unit → Reader β}
    (hf : Follows E (At K q) Q (f ()) (g ())) :
    Follows E (Offers K m q) Q (Reader.expect m >>= f) (Reader.expect m >>= g) := by
  intro c c' hc
  rw [expect_bind, expect_bind, hc.token]
  split
  · rename_i hm
    exact hf _ _ (hc.at hm)
  · exact h.other _ fun ha => ha

theorem expect {m : Mark} {f : Unit → Reader α} {g : Unit → Reader β} (hq : q.isSlot = false)
    (hf : Follows E (At K (q.step (.mark m))) Q (f ()) (g ())) :
    Follows E (K q) Q (Reader.expect m >>= f) (Reader.expect m >>= g) :=
  (h.expect_of_offers hf).weaken fun _ _ hc => (h.step hq hc).offers m

theorem expectKeyword {k : Keyword} {f : Unit → Reader α} {g : Unit → Reader β}
    (hq : q.isSlot = false) (hf : Follows E (At K (q.step (.keyword k))) Q (f ()) (g ())) :
    Follows E (K q) Q (Reader.expectKeyword k >>= f) (Reader.expectKeyword k >>= g) := by
  intro c c' hc
  have hs := h.step hq hc
  rw [expectKeyword_bind, expectKeyword_bind, hs.token]
  split
  · rename_i hk
    have hat := hs.at (Cursor.isEof_of_isKeyword hk)
    rw [Token.isKeyword_iff.mp hk] at hat
    exact hf _ _ hat
  · exact h.other _ fun ha => ha

theorem eat {m : Mark} {f : Bool → Reader α} {g : Bool → Reader β} (hq : q.isSlot = false)
    (ht : Follows E (At K (q.step (.mark m))) Q (f true) (g true))
    (hf : Follows E (K q) Q (f false) (g false)) :
    Follows E (K q) Q (Reader.eat m >>= f) (Reader.eat m >>= g) :=
  .eat (fun _ _ hc => (h.step hq hc).offers m) ht hf

end Tracks

/-! ## Repetition -/

/-- Rounds of a list with the same outcome: the list goes on with related cursors, or it ends. -/
def Pick.Yields (f : α → γ) (P Q : Cursor → Cursor → Prop) :
    Pick α × Cursor → Pick α × Cursor → Prop
  | (.stop, d), (.stop, d') => Q d d'
  | (.skip, d), (.skip, d') => P d d'
  | (.more x, d), (.more x', d') => f x' = f x ∧ P d d'
  | (.last x, d), (.last x', d') => f x' = f x ∧ Q d d'
  | _, _ => False

namespace Follows

variable {P Q : Cursor → Cursor → Prop}

theorem collect {pick : Reader (Pick α)} {f : α → γ} (ha : Pick.Advances pick)
    (hp : Follows E P (Pick.Yields f P Q) pick pick) :
    Follows E P (Yields (List.map f) Q) (Reader.collect pick) (Reader.collect pick) := by
  intro c c' hc
  induction hn : c.rest.length using Nat.strong_induction_on generalizing c c' with
  | _ n ih =>
    rw [collect_eq ha, collect_eq ha]
    have hpick := hp c c' hc
    cases hr : pick c with
    | error e => rwa [hr] at hpick
    | ok r =>
      obtain ⟨r, d⟩ := r
      rw [hr] at hpick
      obtain ⟨⟨r', d'⟩, hr', hg⟩ := hpick
      have hlen := ha c r d hr
      rw [hr']
      cases r with
      | stop =>
        cases r' with
        | stop => exact .ok ⟨rfl, hg⟩
        | _ => exact hg.elim
      | last x =>
        cases r' with
        | last x' => exact .ok ⟨by simp [hg.1], hg.2⟩
        | _ => exact hg.elim
      | skip =>
        cases r' with
        | skip =>
          change d.rest.length + 1 ≤ _ at hlen
          exact ih d.rest.length (by omega) d d' hg rfl
        | _ => exact hg.elim
      | more x =>
        cases r' with
        | more x' =>
          change d.rest.length + 1 ≤ _ at hlen
          refine (ih d.rest.length (by omega) d d' hg.2 rfl).bind fun r r' hr => .ok ⟨?_, hr.cursors⟩
          simp only [List.map_cons, hg.1, hr.alike]
        | _ => exact hg.elim

theorem loop {round : σ → Reader (Round σ)} {f : σ → γ} (ha : Advances round)
    (hr : ∀ s s', f s' = f s → Follows E P (fun r r' => match r.1, r'.1 with
      | .again s, .again s' => f s' = f s ∧ P r.2 r'.2
      | .done s, .done s' => f s' = f s ∧ Q r.2 r'.2
      | _, _ => False) (round s) (round s')) {s s' : σ} (hs : f s' = f s) :
    Follows E P (Yields f Q) (Reader.loop round s) (Reader.loop round s') := by
  intro c c' hc
  induction hn : c.rest.length using Nat.strong_induction_on generalizing c c' s s' with
  | _ n ih =>
    rw [loop_eq ha, loop_eq ha]
    have hround := hr s s' hs c c' hc
    cases hrc : round s c with
    | error e => rwa [hrc] at hround
    | ok r =>
      obtain ⟨r, d⟩ := r
      rw [hrc] at hround
      obtain ⟨⟨r', d'⟩, hrc', hg⟩ := hround
      rw [hrc']
      cases r with
      | done s₁ =>
        cases r' with
        | done s₁' => exact .ok ⟨hg.1, hg.2⟩
        | again s₁' => exact hg.elim
      | again s₁ =>
        cases r' with
        | done s₁' => exact hg.elim
        | again s₁' =>
          have hlt := ha s c s₁ d hrc
          exact ih d.rest.length (by omega) hg.1 d d' hg.2 rfl

end Follows

namespace Tracks

variable (h : Tracks K E) {q q' : Spot} {P : Cursor → Cursor → Prop}

include h

/-- Items with commas between them and the mark that closes the list: behind an item either may
come. -/
theorem commaList {close : Mark} {item : Reader α} {f : α → γ} {T : α → Prop}
    {k k' : List α → Reader β} {R : β × Cursor → β × Cursor → Prop}
    (ht : ∀ c, TakesAt c 0 T item) (hq : q.isSlot = false) (hclose : q.step (.mark close) = q')
    (hitem : Follows E (K q)
      (Yields f fun d d' => Offers K .comma q d d' ∧ Offers K close q' d d') item item)
    (hk : ∀ xs xs', xs'.map f = xs.map f → Follows E (At K q') R (k xs) (k' xs')) :
    Follows E (K q) R (do let xs ← Reader.commaList close item; Reader.expect close; k xs)
      (do let xs ← Reader.commaList close item; Reader.expect close; k' xs) := by
  have hpick : Follows E (K q) (Pick.Yields f (K q) (Offers K close q')) (commaPick close item)
      (commaPick close item) := by
    refine .check (h.token_eq hq) fun b => ?_
    cases b with
    | true =>
      refine .pure fun c c' hc => ?_
      have hoffers := (h.step hq hc.1).offers close
      rwa [hclose] at hoffers
    | false =>
      refine (hitem.weaken fun _ _ hc => hc.1).andThen fun x x' hx => ?_
      refine .eat (fun _ _ hc => hc.1) ?_ ?_
      · exact .pure fun _ _ hc => ⟨hx, hc.here⟩
      · exact .pure fun _ _ hc => ⟨hx, hc.2⟩
  rw [commaList_eq_collect]
  refine (Follows.collect (advances_commaPick ht) hpick).andThen fun xs xs' hxs => ?_
  exact h.expect_of_offers (hk xs xs' hxs)

/-! ## Types -/

/-- Behind a slot, whether a type stood there or not. -/
theorem offers_of_typed {s : Slot} {m : Mark} {d d' : Cursor} (hk : K (.typed s) d d')
    (hm : m ≠ .lbracket) : Offers K m (s.leave (.mark m)) d d' := by
  have hoffers := (h.step rfl hk).offers m
  rwa [Spot.step_typed (by simp [Token.isMark, hm.symm])] at hoffers

theorem bracketPairs (s : Slot) :
    Follows E (K (.typed s)) (Yields (fun u : Unit => u) (K (.typed s)))
      (Reader.loop bracketsRound ()) (Reader.loop bracketsRound ()) := by
  refine .loop advances_bracketsRound (fun _ _ _ c c' hc => ?_) rfl
  have hs := h.step rfl hc
  rw [bracketsRound_eq, bracketsRound_eq, hs.token]
  cases hl : c.token.isMark .lbracket with
  | false => exact .ok ⟨rfl, hc⟩
  | true =>
    have ht := Token.isMark_iff.mp hl
    have ht' : c'.token = .mark .lbracket := hs.token.trans ht
    have hadvance := hs.advance (by rw [ht]; rfl)
    rw [ht] at hadvance
    have hs' : Steps K (.bracket s) c.advance c'.advance := h.step rfl hadvance
    rw [Cursor.second_isMark (by rw [ht]; rfl) (by rw [ht]; rfl),
      Cursor.second_isMark (by rw [ht']; rfl) (by rw [ht']; rfl), hs'.token]
    cases hr : c.advance.token.isMark .rbracket with
    | false => exact .ok ⟨rfl, hc⟩
    | true =>
      have hclosed := hs'.advance (Cursor.isEof_of_isMark hr)
      rw [Token.isMark_iff.mp hr] at hclosed
      exact .ok ⟨rfl, hclosed⟩

/-- Where a type may stand, it is passed over. -/
theorem skipped (s : Slot) {f g : Unit → Reader α} {Q : α × Cursor → α × Cursor → Prop}
    (hf : Follows E (fun d d' => ∀ m, m ≠ .lbracket → Offers K m (s.leave (.mark m)) d d') Q (f ())
      (g ())) :
    Follows E (K (.slot s)) Q ( skipAnnotation >>= f) ( skipAnnotation >>= g) := by
  have hskip : Follows E (Steps K (.slot s)) (Yields (fun u : Unit => u)
      fun d d' => ∀ m, m ≠ .lbracket → Offers K m (s.leave (.mark m)) d d')
      skipAnnotation skipAnnotation := by
    have hpairs : Follows E (K (.typed s)) (Yields (fun u : Unit => u)
        fun d d' => ∀ m, m ≠ .lbracket → Offers K m (s.leave (.mark m)) d d')
        (Reader.loop bracketsRound ()) (Reader.loop bracketsRound ()) :=
      Follows.imp (h.bracketPairs s) fun _ _ hr => ⟨hr.alike, fun m hm => h.offers_of_typed hr.cursors hm⟩
    intro c c' hs
    unfold skipAnnotation
    rw [eat_bind, eat_bind, hs.token]
    by_cases hcolon : c.token.isMark .colon = true
    · rw [if_pos hcolon, if_pos hcolon]
      have hk := hs.advance (Cursor.isEof_of_isMark hcolon)
      rw [Token.isMark_iff.mp hcolon] at hk
      refine Follows.token (h.token_eq (q := .colon s) rfl) (fun t => ?_) _ _ hk
      split
      · exact h.advance rfl rfl (hpairs.weaken fun _ _ hc => hc.here)
      · exact h.advance rfl rfl (hpairs.weaken fun _ _ hc => hc.here)
      · exact fun _ _ hc => h.asks hc.1
    · rw [if_neg hcolon, if_neg hcolon]
      refine .ok ⟨rfl, fun m _ => ?_⟩
      refine ⟨hs.token, fun ht => ?_⟩
      have hk := hs.advance (by rw [ht]; rfl)
      rw [Spot.step_slot (by simpa using hcolon), ht] at hk
      exact hk
  intro c c' hc
  rcases h.slot hc with hs | ⟨d, d', hd, hd', hk⟩
  · exact (hskip.andThen fun _ _ _ => hf) c c' hs
  · rw [bind_apply, bind_apply, hd, hd']
    exact hf d d' fun m hm => h.offers_of_typed hk hm

end Tracks

/-! ## Names and ends of statements -/

/-- Behind the name of a property, which may be the keyword of a declaration or of a function. -/
def AfterName (K : Spot → Cursor → Cursor → Prop) (c c' : Cursor) : Prop :=
  ∃ q, (q = .code ∨ q = .let_ ∨ q = .fn) ∧ K q c c'

namespace Tracks

variable (h : Tracks K E) {q : Spot}

include h

theorem afterName_token (c c' : Cursor) (hc : AfterName K c c') : c'.token = c.token := by
  obtain ⟨q, rfl | rfl | rfl, hk⟩ := hc
  · exact (h.step rfl hk).token
  · exact (h.step rfl hk).token
  · exact (h.step rfl hk).token

/-- Behind the name of a property a mark is one of the code, but for a parenthesis. -/
theorem afterName_offers {m : Mark} (hm : m ≠ .lparen) {c c' : Cursor} (hc : AfterName K c c') :
    Offers K m (Token.mark m).spot c c' := by
  obtain ⟨q, rfl | rfl | rfl, hk⟩ := hc
  · exact (h.step rfl hk).offers m
  · exact (h.step rfl hk).offers m
  · have hoffers := (h.step rfl hk).offers m
    cases m <;> first | exact absurd rfl hm | exact hoffers

theorem ident {e : Expected} (he : e ≠ .typeName) (hq : q.isSlot = false) {q' : Spot}
    (hstep : ∀ name, q.step (.ident name) = q') :
    Follows E (K q) (Yields (fun name : String => name) (At K q')) (Reader.ident e)
      (Reader.ident e) := by
  refine .token (h.token_eq hq) fun t => ?_
  split
  · rename_i name
    refine h.advance hq rfl (.pure fun _ _ hc => ⟨rfl, ?_⟩)
    rwa [hstep] at hc
  · exact h.unexpected he

theorem string {e : Expected} (he : e ≠ .typeName) :
    Follows E (K .code) (Yields (fun value : String => value) (At K .code)) (Reader.string e)
      (Reader.string e) := by
  refine .token (h.token_eq rfl) fun t => ?_
  split
  · exact h.advance rfl rfl (.pure fun _ _ hc => ⟨rfl, hc⟩)
  · exact h.unexpected he

theorem propertyName (hq : q = .code ∨ q = .property) :
    Follows E (K q) (Yields (fun name : String => name) (AfterName K)) Reader.propertyName
      Reader.propertyName := by
  have hslot : q.isSlot = false := by rcases hq with rfl | rfl <;> rfl
  refine .token (h.token_eq hslot) fun t => ?_
  split
  · refine h.advance hslot rfl (.pure fun _ _ hc => ⟨rfl, .code, .inl rfl, ?_⟩)
    rcases hq with rfl | rfl <;> exact hc.here
  · rename_i k
    refine h.advance hslot rfl (.pure fun _ _ hc => ⟨rfl, q.step (.keyword k), ?_, hc.here⟩)
    rcases hq with rfl | rfl
    · cases k <;> simp [Spot.step, Token.spot]
    · exact .inl rfl
  · exact h.unexpected nofun

/-- A name behind a dot. -/
theorem memberName :
    Follows E (K .property) (Yields (fun name : String => name) (At K .code)) Reader.propertyName
      Reader.propertyName := by
  refine .token (h.token_eq rfl) fun t => ?_
  split
  · exact h.advance rfl rfl (.pure fun _ _ hc => ⟨rfl, hc⟩)
  · exact h.advance rfl rfl (.pure fun _ _ hc => ⟨rfl, hc⟩)
  · exact h.unexpected nofun

theorem parameter : Follows E (K .params) (Yields (fun name : String => name)
    fun d d' => Offers K .comma .params d d' ∧ Offers K .rparen (.slot .result) d d') Syntax.parameter
    Syntax.parameter := by
  have hident : Follows E (K .params) (Yields (fun name : String => name)
      (At K (.slot .parameter))) (Reader.ident .parameterName) (Reader.ident .parameterName) :=
    h.ident (by nofun) rfl fun _ => rfl
  refine hident.andThen fun name name' hname => ?_
  refine .at_ ?_
  exact h.skipped .parameter (.pure fun _ _ hd => ⟨hname, hd .comma nofun, hd .rparen nofun⟩)

/-- Whether a name follows a keyword can be told from both cursors. -/
theorem second_isIdent_eq {k : Keyword} (hk : (Spot.code.step (.keyword k)).isSlot = false)
    {c c' : Cursor} (hc : K .code c c') (ht : c.token = .keyword k) :
    c'.second.isIdent = c.second.isIdent := by
  have hs := h.step rfl hc
  have ht' : c'.token = .keyword k := hs.token.trans ht
  have hadvance := hs.advance (by rw [ht]; rfl)
  rw [ht] at hadvance
  rw [Cursor.second_isIdent (by rw [ht']; rfl) (by rw [ht']; rfl),
    Cursor.second_isIdent (by rw [ht]; rfl) (by rw [ht]; rfl), (h.step hk hadvance).token]

theorem endStatement :
    Follows E (At K .code) (Yields (fun u : Unit => u) (At K .code)) Reader.endStatement
      Reader.endStatement := by
  refine .eat (fun _ _ hc => (h.step rfl hc.here).offers .semi) ?_ ?_
  · exact .pure fun _ _ hc => ⟨rfl, hc⟩
  · refine .get fun c c' hc => ?_
    rw [hc.previous]
    split
    · exact .pure fun _ _ hc => ⟨rfl, hc⟩
    · exact h.unexpected nofun

end Tracks

/-! ## Trees -/

/-- The field without positions. -/
def eraseField (field : String × Expr) : String × Expr := (field.1, field.2.erase)

theorem eraseFields_eq_map (fields : List (String × Expr)) :
    Expr.eraseFields fields = fields.map eraseField := by
  induction fields with
  | nil => rfl
  | cons field fields ih => rw [Expr.eraseFields, ih, List.map_cons, eraseField]

/-- The operator and the operand without positions. -/
def eraseRhs (r : BinaryOp × Expr) : BinaryOp × Expr := (r.1, r.2.erase)

/-- The pending operand without positions. -/
def eraseLhs (p : Expr × BinaryOp) : Expr × BinaryOp := (p.1.erase, p.2)

theorem erase_reduce (level : Nat) (pending : Pending) (e : Expr) :
    reduce level (pending.map eraseLhs) e.erase =
      ((reduce level pending e).1.map eraseLhs, (reduce level pending e).2.erase) := by
  induction pending generalizing e with
  | nil => rfl
  | cons p pending ih =>
    obtain ⟨lhs, op⟩ := p
    rw [List.map_cons, reduce, eraseLhs, reduce]
    split
    · rw [← ih, Expr.erase, pos_erase]
    · rfl

theorem erase_assembleFrom (pending : Pending) (e : Expr) (rest : List (BinaryOp × Expr)) :
    (assembleFrom pending e rest).erase =
      assembleFrom (pending.map eraseLhs) e.erase (rest.map eraseRhs) := by
  induction rest generalizing pending e with
  | nil => rw [assembleFrom, List.map_nil, assembleFrom, erase_reduce]
  | cons r rest ih =>
    obtain ⟨op, rhs⟩ := r
    rw [assembleFrom, List.map_cons, eraseRhs, assembleFrom, erase_reduce, ih]
    rfl

/-- A chain is put together the same way wherever its operands stand. -/
theorem erase_assemble (first : Expr) (rest : List (BinaryOp × Expr)) :
    (assemble first rest).erase = assemble first.erase (rest.map eraseRhs) :=
  erase_assembleFrom [] first rest

/-- What an export exports, without positions. -/
def ExportForm.erase : ExportForm → ExportForm
  | .default_ value => .default_ value.erase
  | .fn function isDefault => .fn function.erase isDefault
  | .declare name value => .declare name value.erase
  | .names pairs => .names pairs

/-- The item without positions. -/
def Item.erase : Item → Item
  | .stmt s => .stmt s.erase
  | .import_ _ clause source => .import_ .start clause source
  | .export_ _ form => .export_ .start form.erase

/-! ## The grammar -/

namespace Nested

/-- The readers of a nesting level follow each other. -/
structure Follows (E : SyntaxError → Prop) (K : Spot → Cursor → Cursor → Prop) (inner : Nested) :
    Prop where
  builds : inner.Builds
  block : Syntax.Follows E (Offers K .lbrace .code) (Yields Stmt.eraseList (At K .code))
    inner.block inner.block
  conditional : Syntax.Follows E (K .code) (Yields Stmt.erase (At K .code)) inner.conditional
    inner.conditional
  operand : Syntax.Follows E (K .code) (Yields Expr.erase (At K .code)) inner.operand inner.operand

namespace Follows

variable {inner : Nested} (h : inner.Follows E K) (hK : Tracks K E)

include h hK

theorem expression :
    Syntax.Follows E (K .code) (Yields Expr.erase (At K .code)) inner.expression
      inner.expression := by
  have hpick : Syntax.Follows E (At K .code) (Pick.Yields eraseRhs (At K .code) (At K .code))
      (chainPick inner) (chainPick inner) := by
    refine .token (hK.token_eq_at rfl) fun t => ?_
    split
    · exact .pure fun _ _ hc => hc.1
    · rename_i op hop
      have hcode : Spot.code.step t = .code := by
        cases t with
        | mark m => cases m <;> first | rfl | cases hop
        | _ => cases hop
      refine hK.advance_at rfl (isEof_of_binaryOp? hop) ?_
      rw [hcode]
      refine h.operand.at_.andThen fun rhs rhs' hrhs => ?_
      exact .pure fun _ _ hc => ⟨Prod.ext rfl hrhs, hc⟩
  rw [expression_eq h.builds.shrinks]
  refine h.operand.andThen fun first first' hfirst => ?_
  refine (Syntax.Follows.collect (advances_chainPick h.builds.shrinks) hpick).andThen
    fun rest rest' hrest => ?_
  exact .pure fun _ _ hc => ⟨by rw [erase_assemble, erase_assemble, hfirst, hrest], hc⟩

theorem arguments (close : Mark) (hclose : Spot.code.step (.mark close) = .code) :
    Syntax.Follows E (K .code) (Yields Expr.eraseList (At K .code)) (inner.arguments close)
      (inner.arguments close) := by
  refine hK.commaList (f := Expr.erase) (fun c => (takesAt_expression h.builds c).mono (Nat.zero_le 1)) rfl hclose ?_
    fun xs xs' hxs => ?_
  · refine (h.expression hK).imp fun r r' hr => ⟨hr.alike, ?_⟩
    have hs := hK.step rfl hr.cursors.here
    exact ⟨hs.offers .comma, hclose ▸ hs.offers close⟩
  · exact .pure fun _ _ hc => ⟨by rw [eraseList_eq_map, eraseList_eq_map, hxs], hc⟩

theorem function : Syntax.Follows E (K .code) (Yields Function.erase (At K .code)) inner.function
    inner.function := by
  have htail (pos pos' : Pos) (name : Option String) (q : Spot) (hq : q.isSlot = false)
      (hparams : q.step (.mark .lparen) = .params) :
      Syntax.Follows E (K q) (Yields Function.erase (At K .code))
        (do
          expect .lparen
          let params ← commaList .rparen parameter
          expect .rparen
          skipAnnotation
          return Function.mk pos name params (← inner.block))
        (do
          expect .lparen
          let params ← commaList .rparen parameter
          expect .rparen
          skipAnnotation
          return Function.mk pos' name params (← inner.block)) := by
    refine hK.expect hq ?_
    rw [hparams]
    refine .at_ ?_
    refine hK.commaList takesAt_parameter rfl rfl hK.parameter fun params params' hps => ?_
    refine .at_ ?_
    refine hK.skipped .result ?_
    refine (h.block.weaken fun _ _ hd => hd .lbrace nofun).andThen fun body body' hbody => ?_
    refine .pure fun _ _ hc => ⟨?_, hc⟩
    rw [List.map_id', List.map_id'] at hps
    rw [Function.erase, Function.erase, hbody, hps]
  refine .here fun pos pos' => hK.expectKeyword rfl ?_
  refine .token (hK.token_eq_at rfl) fun t => ?_
  split
  · rename_i name
    exact hK.advance_at rfl rfl (htail pos pos' (some name) .fnName rfl rfl).at_
  · exact (htail pos pos' none .fn rfl rfl).weaken fun _ _ hc => hc.1.here

theorem field : Syntax.Follows E (K .code) (Yields eraseField fun d d' =>
    Offers K .comma .code d d' ∧ Offers K .rbrace .code d d') inner.field inner.field := by
  have htail (pos pos' : Pos) (key : String) : Syntax.Follows E (AfterName K) (Yields eraseField fun d d' =>
      Offers K .comma .code d d' ∧ Offers K .rbrace .code d d')
      (do
        if ← Reader.eat .colon then return (key, ← inner.expression) else return (key, .ident pos key))
      (do
        if ← Reader.eat .colon then return (key, ← inner.expression)
        else return (key, .ident pos' key)) := by
    refine .eat (fun _ _ hc => hK.afterName_offers (m := .colon) (by nofun) hc) ?_ ?_
    · refine (h.expression hK).at_.andThen fun e e' he => ?_
      refine .pure fun _ _ hc => ⟨Prod.ext rfl he, ?_⟩
      have hs := hK.step rfl hc.here
      exact ⟨hs.offers .comma, hs.offers .rbrace⟩
    · exact .pure fun _ _ hc => ⟨rfl, hK.afterName_offers (by nofun) hc, hK.afterName_offers (by nofun) hc⟩
  refine .here fun pos pos' => .token (hK.token_eq rfl) fun t => ?_
  split
  · rename_i key
    exact hK.advance rfl rfl ((htail pos pos' key).weaken fun _ _ hc => ⟨.code, .inl rfl, hc.here⟩)
  · refine Syntax.Follows.weaken ?_ fun _ _ hc => hc.1
    refine (hK.propertyName (.inl rfl)).andThen fun key key' hkey => ?_
    cases hkey
    exact htail pos pos' key

theorem primary : Syntax.Follows E (K .code) (Yields Expr.erase (At K .code)) inner.primary
    inner.primary := by
  refine .here fun pos pos' => .token (hK.token_eq rfl) fun t => ?_
  split
  · exact hK.advance rfl rfl (.pure fun _ _ hc => ⟨rfl, hc⟩)
  · exact hK.advance rfl rfl (.pure fun _ _ hc => ⟨rfl, hc⟩)
  · exact hK.advance rfl rfl (.pure fun _ _ hc => ⟨rfl, hc⟩)
  · exact hK.advance rfl rfl (.pure fun _ _ hc => ⟨rfl, hc⟩)
  · exact hK.advance rfl rfl (.pure fun _ _ hc => ⟨rfl, hc⟩)
  · exact hK.advance rfl rfl (.pure fun _ _ hc => ⟨rfl, hc⟩)
  · refine ((h.function hK).weaken fun _ _ hc => hc.1).andThen fun f f' hf => ?_
    exact .pure fun _ _ hc => ⟨by rw [Expr.erase, Expr.erase, hf], hc⟩
  · refine hK.advance rfl rfl ?_
    refine (h.expression hK).at_.andThen fun e e' he => ?_
    refine .at_ ?_
    exact hK.expect rfl (.pure fun _ _ hc => ⟨he, hc⟩)
  · refine hK.advance rfl rfl ?_
    refine (h.arguments hK .rbracket rfl).at_.andThen
      fun items items' hitems => ?_
    exact .pure fun _ _ hc => ⟨by rw [Expr.erase, Expr.erase, hitems], hc⟩
  · refine hK.advance rfl rfl ?_
    refine .at_ ?_
    refine hK.commaList (fun c => (takesAt_field h.builds c).mono (Nat.zero_le 1)) rfl rfl
      (h.field hK) fun fields fields' hfields => ?_
    refine .pure fun _ _ hc => ⟨?_, hc⟩
    rw [Expr.erase, Expr.erase, eraseFields_eq_map, eraseFields_eq_map, hfields]
  · exact hK.unexpected nofun

theorem accesses : Syntax.Follows E (K .code) (Yields Expr.erase (At K .code)) inner.accesses
    inner.accesses := by
  rw [accesses_eq]
  refine (h.primary hK).andThen fun e e' he => ?_
  refine .loop (advances_accessRound h.builds) (fun e e' he => ?_) he
  refine .here fun pos pos' => .token (hK.token_eq_at rfl) fun t => ?_
  split
  · refine hK.advance_at rfl rfl ?_
    refine (h.arguments hK .rparen rfl).at_.andThen
      fun args args' hargs => ?_
    exact .pure fun _ _ hc => ⟨by rw [Expr.erase, Expr.erase, he, hargs], hc⟩
  · refine hK.advance_at rfl rfl ?_
    refine hK.memberName.at_.andThen fun name name' hname => ?_
    exact .pure fun _ _ hc => ⟨by rw [Expr.erase, Expr.erase, he, hname], hc⟩
  · refine hK.advance_at rfl rfl ?_
    refine (h.expression hK).at_.andThen fun i i' hi => ?_
    refine .at_ ?_
    refine hK.expect rfl ?_
    exact .pure fun _ _ hc => ⟨by rw [Expr.erase, Expr.erase, he, hi], hc⟩
  · exact .pure fun _ _ hc => ⟨he, hc.1⟩

theorem operandBody : Syntax.Follows E (K .code) (Yields Expr.erase (At K .code))
    inner.operandBody inner.operandBody := by
  refine .here fun pos pos' => .token (hK.token_eq rfl) fun t => ?_
  split
  · refine hK.advance rfl rfl ?_
    refine h.operand.at_.andThen fun e e' he => ?_
    exact .pure fun _ _ hc => ⟨by rw [Expr.erase, Expr.erase, he], hc⟩
  · refine hK.advance rfl rfl ?_
    refine h.operand.at_.andThen fun e e' he => ?_
    exact .pure fun _ _ hc => ⟨by rw [Expr.erase, Expr.erase, he], hc⟩
  · exact (h.accesses hK).weaken fun _ _ hc => hc.1

/-! ## Statements -/

theorem declaration : Syntax.Follows E (K .let_) (Yields eraseField (At K .code))
    inner.declaration inner.declaration := by
  have hident : Syntax.Follows E (K .let_) (Yields (fun name : String => name)
      (At K (.slot .variable_))) (ident .variableName) (ident .variableName) :=
    hK.ident (by nofun) rfl fun _ => rfl
  refine hident.andThen fun name name' hname => ?_
  cases hname
  refine .at_ (hK.skipped .variable_ ?_)
  refine Syntax.Follows.weaken ?_ fun _ _ hd => hd .assign (by nofun)
  refine hK.expect_of_offers ?_
  refine (h.expression hK).at_.andThen fun value value' hvalue => ?_
  refine hK.endStatement.andThen fun _ _ _ => ?_
  exact .pure fun _ _ hc => ⟨Prod.ext rfl hvalue, hc⟩

/-- An expression with the end of its statement. -/
theorem ended {f : Expr → Reader α} {g : Expr → Reader α} {k : α → τ}
    (hf : ∀ e e', e'.erase = e.erase → Syntax.Follows E (At K .code) (Yields k (At K .code))
      (f e) (g e')) :
    Syntax.Follows E (At K .code) (Yields k (At K .code))
      (do let e ← inner.expression; Reader.endStatement; f e)
      (do let e ← inner.expression; Reader.endStatement; g e) := by
  refine (h.expression hK).at_.andThen fun e e' he => ?_
  exact hK.endStatement.andThen fun _ _ _ => hf e e' he

theorem expressionStatement (pos pos' : Pos) :
    Syntax.Follows E (K .code) (Yields Stmt.erase (At K .code)) (inner.expressionStatement pos)
      (inner.expressionStatement pos') := by
  refine (h.expression hK).andThen fun e e' he => ?_
  refine .eat (fun _ _ hc => (hK.step rfl hc.here).offers .assign) ?_ ?_
  · have hassign : Syntax.Follows E (At K .code) (Yields Stmt.erase (At K .code))
        (do
          let value ← inner.expression
          Reader.endStatement
          return .assign pos e value)
        (do
          let value ← inner.expression
          Reader.endStatement
          return .assign pos' e' value) :=
      h.ended hK fun value value' hvalue =>
        .pure fun _ _ hc => ⟨by rw [Stmt.erase, Stmt.erase, he, hvalue], hc⟩
    cases e <;> cases e' <;> first | exact hassign | exact hK.fail id | cases he
  · refine hK.endStatement.andThen fun _ _ _ => ?_
    exact .pure fun _ _ hc => ⟨by rw [Stmt.erase, Stmt.erase, he], hc⟩

theorem statement : Syntax.Follows E (K .code) (Yields Stmt.erase (At K .code)) inner.statement
    inner.statement := by
  refine .here fun pos pos' => .token (hK.token_eq rfl) fun t => ?_
  split
  · refine hK.advance rfl rfl ?_
    refine (h.declaration hK).at_.andThen fun r r' hr => ?_
    obtain ⟨hname, hvalue⟩ := Prod.ext_iff.mp hr
    simp only [eraseField] at hname hvalue
    exact .pure fun _ _ hc => ⟨by rw [Stmt.erase, Stmt.erase, hname, hvalue], hc⟩
  · refine .get fun c c' hc => ?_
    rw [hK.second_isIdent_eq rfl hc.1 hc.2]
    split
    · refine ((h.function hK).weaken fun _ _ hc => hc.1).andThen fun f f' hf => ?_
      exact .pure fun _ _ hc => ⟨by rw [Stmt.erase, Stmt.erase, hf], hc⟩
    · exact (h.expressionStatement hK pos pos').weaken fun _ _ hc => hc.1
  · refine hK.advance rfl rfl ?_
    refine .check (hK.token_eq_at rfl) fun b => ?_
    split
    · refine (hK.endStatement.weaken fun _ _ hc => hc.1).andThen fun _ _ _ => ?_
      exact .pure fun _ _ hc => ⟨rfl, hc⟩
    · refine .check (fun _ _ hc => hK.token_eq_at rfl _ _ hc.1) fun b => ?_
      split
      · exact .pure fun _ _ hc => ⟨rfl, hc.1.1⟩
      · refine ((h.expression hK).weaken fun _ _ hc => hc.1.1.here).andThen
          fun value value' hvalue => ?_
        refine .check (hK.token_eq_at rfl) fun b => ?_
        have hreturn : Syntax.Follows E (At K .code) (Yields Stmt.erase (At K .code))
            (return .return_ pos (some value)) (return .return_ pos' (some value')) :=
          .pure fun _ _ hc => ⟨by rw [Stmt.erase, Stmt.erase, hvalue], hc⟩
        split
        · exact hreturn.weaken fun _ _ hc => hc.1
        · exact (hK.endStatement.weaken fun _ _ hc => hc.1).andThen fun _ _ _ => hreturn
  · refine hK.advance rfl rfl (h.ended hK fun value value' hvalue => ?_)
    exact .pure fun _ _ hc => ⟨by rw [Stmt.erase, Stmt.erase, hvalue], hc⟩
  · exact h.conditional.weaken fun _ _ hc => hc.1
  · exact (h.expressionStatement hK pos pos').weaken fun _ _ hc => hc.1

theorem blockBody (dialect : Dialect) :
    Syntax.Follows E (Offers K .lbrace .code) (Yields Stmt.eraseList (At K .code))
      (inner.blockBody dialect) (inner.blockBody dialect) := by
  have hpick : Syntax.Follows E (At K .code)
      (Pick.Yields Stmt.erase (At K .code) fun d d' => At K .code d.advance d'.advance)
      (blockPick dialect inner) (blockPick dialect inner) := by
    refine .check (hK.token_eq_at rfl) fun b => ?_
    cases b with
    | true => exact .pure fun _ _ hc => ((hK.step rfl hc.1.here).offers .rbrace).at hc.2
    | false =>
      refine .weaken (P := At K .code) ?_ fun _ _ hc => hc.1
      refine .token (hK.token_eq_at rfl) fun t => ?_
      split
      · exact hK.unexpected nofun
      · exact hK.advance_at rfl rfl (.pure fun _ _ hc => hc)
      · exact hK.failHere (by cases dialect <;> exact id)
      · exact hK.failHere (by cases dialect <;> exact id)
      · refine ((h.statement hK).weaken fun _ _ hc => hc.1.here).andThen fun s s' hs => ?_
        exact .pure fun _ _ hc => ⟨hs, hc⟩
  rw [blockBody_eq]
  refine hK.expect_of_offers ?_
  refine (Syntax.Follows.collect (advances_of_cases (blockPick_cases h.builds dialect)) hpick).andThen
    fun body body' hbody => ?_
  refine .advance (fun _ _ hc => hc) (.pure fun _ _ hc => ⟨?_, hc⟩)
  rw [Stmt.eraseList_eq_map, Stmt.eraseList_eq_map, hbody]

theorem conditionalBody : Syntax.Follows E (K .code) (Yields Stmt.erase (At K .code))
    inner.conditionalBody inner.conditionalBody := by
  have hblock : Syntax.Follows E (At K .code) (Yields Stmt.eraseList (At K .code)) inner.block
      inner.block := h.block.weaken fun _ _ hc => (hK.step rfl hc.here).offers .lbrace
  refine .here fun pos pos' => hK.expectKeyword rfl (.at_ (hK.expect rfl ?_))
  refine (h.expression hK).at_.andThen fun cond cond' hcond => .at_ (hK.expect rfl ?_)
  refine hblock.andThen fun thenBody thenBody' hthen => ?_
  refine .checkKeyword (hK.token_eq_at rfl) fun b => ?_
  split
  · rename_i hb
    subst hb
    refine hK.advance_keyword rfl ?_
    refine .checkKeyword (hK.token_eq_at rfl) fun b => ?_
    split
    · refine (h.conditional.weaken fun _ _ hc => hc.1.here).andThen fun nested nested' hn => ?_
      refine .pure fun _ _ hc => ⟨?_, hc⟩
      simp only [Stmt.erase, Stmt.eraseList, hcond, hthen, hn]
    · refine (hblock.weaken fun _ _ hc => hc.1).andThen fun elseBody elseBody' helse => ?_
      refine .pure fun _ _ hc => ⟨?_, hc⟩
      simp only [Stmt.erase, hcond, hthen, helse]
  · refine .pure fun _ _ hc => ⟨?_, hc.1⟩
    simp only [Stmt.erase, hcond, hthen]

end Follows

/-- The readers of every nesting level follow each other. -/
theorem follows_ofDepth (hK : Tracks K E) (dialect : Dialect) (depth : Nat) :
    (ofDepth dialect depth).Follows E K := by
  induction depth with
  | zero =>
    exact ⟨builds_ofDepth dialect 0, hK.failHere nofun, hK.failHere nofun, hK.failHere nofun⟩
  | succ depth ih =>
    exact ⟨builds_ofDepth dialect (depth + 1), ih.blockBody hK dialect, ih.conditionalBody hK,
      ih.operandBody hK⟩

/-! ## Programs -/

section

variable (hK : Tracks K E)

include hK

theorem paired_follows {first second : Reader String}
    (hfirst : Syntax.Follows E (K .code) (Yields (fun name : String => name) (AfterName K)) first first)
    (hsecond : Syntax.Follows E (K .code) (Yields (fun name : String => name) (AfterName K)) second
      second) :
    Syntax.Follows E (K .code) (Yields (fun n : String × String => n) fun d d' =>
        Offers K .comma .code d d' ∧ Offers K .rbrace .code d d') (paired first second)
      (paired first second) := by
  refine hfirst.andThen fun name name' hname => ?_
  cases hname
  refine .checkKeyword hK.afterName_token fun b => ?_
  split
  · rename_i hb
    subst hb
    refine .advance (S := K .code) (fun c c' hc => ?_) ?_
    · obtain ⟨⟨q, hq, hk⟩, ht⟩ := hc
      have ht := Token.isKeyword_iff.mp ht
      have hs : Steps K q c c' := by rcases hq with rfl | rfl | rfl <;> exact hK.step rfl hk
      have hadvance := hs.advance (by rw [ht]; rfl)
      rw [ht] at hadvance
      rcases hq with rfl | rfl | rfl <;> exact hadvance
    · refine hsecond.andThen fun alias_ alias' halias => ?_
      refine .pure fun _ _ hc => ⟨Prod.ext rfl halias, ?_⟩
      exact ⟨hK.afterName_offers (by nofun) hc, hK.afterName_offers (by nofun) hc⟩
  · refine .pure fun _ _ hc => ⟨rfl, ?_⟩
    exact ⟨hK.afterName_offers (by nofun) hc.1, hK.afterName_offers (by nofun) hc.1⟩

/-- Names in braces with commas between them. -/
theorem pairs_follows {first second : Reader String} {P Q : String → Prop}
    (ht : ∀ c, TakesAt c 1 P first) (ht' : ∀ c, TakesAt c 1 Q second) (hpq : ∀ name, P name → Q name)
    (hfirst : Syntax.Follows E (K .code) (Yields (fun name : String => name) (AfterName K)) first first)
    (hsecond : Syntax.Follows E (K .code) (Yields (fun name : String => name) (AfterName K)) second
      second) :
    Syntax.Follows E (K .code) (Yields (fun names : List (String × String) => names) (At K .code))
      (nameList (paired first second)) (nameList (paired first second)) := by
  refine hK.expect rfl (.at_ ?_)
  refine hK.commaList (takesAt_paired ht ht' hpq) rfl rfl (paired_follows hK hfirst hsecond)
    fun names names' hnames => ?_
  rw [List.map_id', List.map_id'] at hnames
  exact .pure fun _ _ hc => ⟨hnames, hc⟩

theorem name {e : Expected} (he : e ≠ .typeName) :
    Syntax.Follows E (K .code) (Yields (fun name : String => name) (At K .code)) (ident e)
      (ident e) :=
  hK.ident he rfl fun _ => rfl

theorem named_ident {e : Expected} (he : e ≠ .typeName) :
    Syntax.Follows E (K .code) (Yields (fun name : String => name) (AfterName K)) (ident e) (ident e) :=
  (name hK he).imp fun _ _ hr => ⟨hr.alike, .code, .inl rfl, hr.cursors.here⟩

theorem importedNames_follows : Syntax.Follows E (K .code)
    (Yields (fun names : List (String × String) => names) (At K .code)) importedNames
    importedNames :=
  pairs_follows hK takesAt_propertyName
    (fun c => (takesAt_ident .importedName c).imp fun _ _ => isPropertyName_of_isName)
    (fun _ => id) (hK.propertyName (.inl rfl)) (named_ident hK nofun)

theorem exportedNames_follows : Syntax.Follows E (K .code)
    (Yields (fun names : List (String × String) => names) (At K .code)) exportedNames
    exportedNames :=
  pairs_follows hK (takesAt_ident .exportedName) takesAt_propertyName
    (fun _ => isPropertyName_of_isName) (named_ident hK nofun) (hK.propertyName (.inl rfl))

theorem importClause_follows : Syntax.Follows E (K .code)
    (Yields (fun clause : ImportClause => clause) (At K .code)) importClause importClause := by
  refine .token (hK.token_eq rfl) fun t => ?_
  split
  · exact hK.advance rfl rfl (.pure fun _ _ hc => ⟨rfl, hc⟩)
  · refine hK.advance rfl rfl (.at_ (hK.expectKeyword rfl (.at_ ?_)))
    refine (name hK (by nofun)).andThen fun n n' hn => .pure fun _ _ hc => ⟨?_, hc⟩
    exact congrArg ImportClause.namespace_ hn
  · refine ((importedNames_follows hK).weaken fun _ _ hc => hc.1).andThen fun ns ns' hns => ?_
    exact .pure fun _ _ hc => ⟨congrArg ImportClause.named hns, hc⟩
  · exact hK.unexpected nofun

theorem importDeclaration_follows : Syntax.Follows E (K .code) (Yields Item.erase (At K .code))
    importDeclaration importDeclaration := by
  refine .here fun pos pos' => hK.expectKeyword rfl ?_
  refine .token (hK.token_eq_at rfl) fun t => ?_
  split
  · refine hK.advance_at rfl rfl (hK.endStatement.andThen fun _ _ _ => ?_)
    exact .pure fun _ _ hc => ⟨rfl, hc⟩
  · refine ((importClause_follows hK).weaken fun _ _ hc => hc.1.here).andThen
      fun clause clause' hclause => ?_
    refine .at_ (hK.expectKeyword rfl (.at_ ?_))
    refine (hK.string (by nofun)).andThen fun source source' hsource => ?_
    refine hK.endStatement.andThen fun _ _ _ => .pure fun _ _ hc => ⟨?_, hc⟩
    rw [Item.erase, Item.erase, hclause, hsource]

end

namespace Follows

variable {inner : Nested} (h : inner.Follows E K) (hK : Tracks K E)

include h hK

theorem exportForm : Syntax.Follows E (K .code) (Yields ExportForm.erase (At K .code))
    inner.exportForm inner.exportForm := by
  refine .token (hK.token_eq rfl) fun t => ?_
  split
  · refine hK.advance rfl rfl ?_
    refine .checkKeyword (hK.token_eq_at rfl) fun b => .get fun c c' hc => ?_
    have hsecond : (b && c'.second.isIdent) = (b && c.second.isIdent) := by
      cases b with
      | false => rfl
      | true => rw [hK.second_isIdent_eq rfl hc.1.here (Token.isKeyword_iff.mp hc.2)]
    rw [hsecond]
    split
    · refine ((h.function hK).weaken fun _ _ hc => hc.1.here).andThen fun f f' hf => ?_
      exact .pure fun _ _ hc => ⟨by rw [ExportForm.erase, ExportForm.erase, hf], hc⟩
    · refine Syntax.Follows.weaken (h.ended hK fun value value' hvalue => ?_) fun _ _ hc => hc.1
      exact .pure fun _ _ hc => ⟨by rw [ExportForm.erase, ExportForm.erase, hvalue], hc⟩
  · refine .get fun c c' hc => ?_
    rw [hK.second_isIdent_eq rfl hc.1 hc.2]
    split
    · refine ((h.function hK).weaken fun _ _ hc => hc.1).andThen fun f f' hf => ?_
      exact .pure fun _ _ hc => ⟨by rw [ExportForm.erase, ExportForm.erase, hf], hc⟩
    · exact hK.failHere id
  · refine hK.advance rfl rfl ?_
    refine (h.declaration hK).at_.andThen fun r r' hr => ?_
    obtain ⟨hname, hvalue⟩ := Prod.ext_iff.mp hr
    simp only [eraseField] at hname hvalue
    exact .pure fun _ _ hc => ⟨by rw [ExportForm.erase, ExportForm.erase, hname, hvalue], hc⟩
  · refine ((exportedNames_follows hK).weaken fun _ _ hc => hc.1).andThen fun ns ns' hns => ?_
    cases hns
    exact hK.endStatement.andThen fun _ _ _ => .pure fun _ _ hc => ⟨rfl, hc⟩
  · exact hK.unexpected nofun

theorem surfaceElement : Syntax.Follows E (K .code) (Yields Item.erase (At K .code))
    inner.surfaceElement inner.surfaceElement := by
  refine .token (hK.token_eq rfl) fun t => ?_
  split
  · exact (importDeclaration_follows hK).weaken fun _ _ hc => hc.1
  · refine Syntax.Follows.weaken ?_ fun _ _ hc => hc.1
    refine .here fun pos pos' => hK.expectKeyword rfl (.at_ ?_)
    refine (h.exportForm hK).andThen fun form form' hform => .pure fun _ _ hc => ⟨?_, hc⟩
    rw [Item.erase, Item.erase, hform]
  · refine ((h.statement hK).weaken fun _ _ hc => hc.1).andThen fun s s' hs => ?_
    exact .pure fun _ _ hc => ⟨by rw [Item.erase, Item.erase, hs], hc⟩

/-- The elements of a surface program. -/
theorem surface : Syntax.Follows E (K .code) (Yields (List.map Item.erase) fun d d' =>
      d.token = .eof ∧ K .code d d')
    (elements inner.surfaceElement) (elements inner.surfaceElement) := by
  have hpick : Syntax.Follows E (K .code)
      (Pick.Yields Item.erase (K .code) fun d d' => d.token = .eof ∧ K .code d d')
      (elementPick inner.surfaceElement) (elementPick inner.surfaceElement) := by
    refine .token (hK.token_eq rfl) fun t => ?_
    split
    · exact .pure fun _ _ hc => ⟨hc.2, hc.1⟩
    · exact hK.advance rfl rfl (.pure fun _ _ hc => hc.here)
    · refine ((h.surfaceElement hK).weaken fun _ _ hc => hc.1).andThen fun item item' hi => ?_
      exact .pure fun _ _ hc => ⟨hi, hc.here⟩
  rw [elements_eq]
  exact .collect (advances_of_cases (elementPick_cases (takesAt_surfaceElement h.builds))) hpick

end Follows

end Nested

end Hotload.Syntax
