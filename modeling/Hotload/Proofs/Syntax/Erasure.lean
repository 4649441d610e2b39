import Mathlib
import Hotload.Proofs.Syntax.Annotations

/-!
# Types leave no trace

Annotations of a program text are erased: removing them and writing new ones changes no tree.

* `readTokens`: the tree of the tokens of a surface program; `parseSurface_eq` ties it to texts.
* `tracks_retyped`: token sequences that differ in annotations are read side by side.
* `WaitsForType`: the reader, at a colon behind some tokens, waits for the name of a type.
* `slot_of_waits`: it does so only where a type may be written.
-/

namespace Hotload.Syntax

open Reader

/-- The tree of the tokens of a surface program. -/
def readTokens (ls : List Lexeme) : Except SyntaxError (List Item) :=
  (Nested.elements (Nested.ofDepth .surface maxNesting).surfaceElement ⟨none, ls⟩).map (·.1)

/-- The tokens without their positions. -/
def tokensOf (ls : List Lexeme) : List Token := ls.map (·.token)

theorem parseSurface_eq (source : List Char) :
    parseSurface source = (tokenize source).bind readTokens := by
  rw [parseSurface, run_eq, tokenize_eq]
  rfl

/-! ## Annotations that a reader passes -/

section

variable {c : Cursor} {t u : Token} {ts : List Token}

theorem Cursor.second_of_tokens (h : c.tokens = t :: u :: ts) : c.second = u := by
  obtain ⟨previous, rest⟩ := c
  rcases rest with _ | ⟨l, _ | ⟨l', ls⟩⟩
  · cases h
  · cases h
  · exact (List.cons.inj (List.cons.inj h).2).1

/-- A reader that meets a pair of brackets has one in front of it. -/
theorem not_pair_of_unannotated (h : Unannotated c.tokens) :
    (c.token.isMark .lbracket && c.second.isMark .rbracket) = false := by
  obtain ⟨previous, rest⟩ := c
  rcases rest with _ | ⟨⟨t, p⟩, _ | ⟨⟨u, p'⟩, ls⟩⟩
  · rfl
  · cases t with
    | mark m => cases m <;> rfl
    | _ => rfl
  · cases t with
    | mark m =>
      cases m with
      | lbracket =>
        cases u with
        | mark m' => cases m' <;> first | rfl | exact h.elim
        | _ => rfl
      | _ => rfl
    | _ => rfl

theorem pass_brackets (n : Nat) (h : c.tokens = brackets n ++ ts) (hts : Unannotated ts) :
    ∃ d, loop bracketsRound () c = .ok ((), d) ∧ d.tokens = ts := by
  induction n generalizing c with
  | zero =>
    have hround := not_pair_of_unannotated (c := c) (by rw [h]; exact hts)
    refine ⟨c, ?_, h⟩
    rw [loop_eq advances_bracketsRound, bracketsRound_eq, hround]
    rfl
  | succ n ih =>
    have hadvance := Cursor.tokens_advance h rfl
    obtain ⟨d, hd, hts⟩ := ih (Cursor.tokens_advance hadvance rfl)
    refine ⟨d, ?_, hts⟩
    rw [loop_eq advances_bracketsRound, bracketsRound_eq, Cursor.token_of_tokens h,
      Cursor.second_of_tokens h]
    exact hd

/-- An annotation is passed as a whole. -/
theorem pass_annotation {a : List Token} (ha : IsAnnotation a) (h : c.tokens = a ++ ts)
    (hts : Unannotated ts) : ∃ d, skipAnnotation c = .ok ((), d) ∧ d.tokens = ts := by
  obtain ⟨t, n, ht, rfl⟩ := ha
  have hname := Cursor.tokens_advance h rfl
  have heof : t.isEof = false := by cases t <;> first | rfl | cases ht
  obtain ⟨d, hd, hts⟩ := pass_brackets n (Cursor.tokens_advance hname heof) hts
  refine ⟨d, ?_, hts⟩
  unfold skipAnnotation
  rw [eat_bind, if_pos (by rw [Cursor.token_of_tokens h]; rfl), if_pos rfl, token_bind,
    Cursor.token_of_tokens hname]
  cases t with
  | ident name => exact hd
  | keyword k => cases k <;> first | exact hd | cases ht
  | _ => cases ht

/-- Where there is none, nothing is passed. -/
theorem pass_nothing (h : Unannotated c.tokens) : skipAnnotation c = .ok ((), c) := by
  have hcolon : c.token.isMark .colon = false := by
    rw [Cursor.token_eq_head?]
    cases hc : c.tokens with
    | nil => rfl
    | cons t ts =>
      rw [hc] at h
      cases t with
      | mark m => cases m <;> first | rfl | exact h.elim
      | _ => rfl
  unfold skipAnnotation
  rw [eat_bind, if_neg (by rw [hcolon]; exact nofun)]
  rfl

end

/-! ## Two readings of the same program -/

/-- The tokens at two cursors differ in annotations. -/
def RetypedAt (q : Spot) (c c' : Cursor) : Prop := Retyped q c.tokens c'.tokens

theorem steps_of_cons {q : Spot} {c c' : Cursor} {t : Token} {ts ts' : List Token}
    (h : c.tokens = t :: ts) (h' : c'.tokens = t :: ts') (hts : Retyped (q.step t) ts ts') :
    Steps RetypedAt q c c' := by
  refine ⟨by rw [Cursor.token_of_tokens h, Cursor.token_of_tokens h'], fun heof => ?_⟩
  rw [Cursor.token_of_tokens h] at heof ⊢
  rw [RetypedAt, Cursor.tokens_advance h heof, Cursor.tokens_advance h' heof]
  exact hts

theorem steps_of_nil {q : Spot} {c c' : Cursor} (h : c.tokens = []) (h' : c'.tokens = []) :
    Steps RetypedAt q c c' := by
  have ht : c.token = .eof := by rw [c.token_eq_head?, h]; rfl
  refine ⟨by rw [ht, c'.token_eq_head?, h']; rfl, fun heof => ?_⟩
  rw [ht] at heof
  cases heof

/-- Token sequences that differ in annotations are read side by side. -/
theorem tracks_retyped : Tracks RetypedAt fun _ => True where
  step hq h := by
    rcases Retyped.cases_of_not_slot hq h with ⟨hc, hc'⟩ | ⟨t, us, us', hc, hc', hus⟩
    · exact steps_of_nil hc hc'
    · exact steps_of_cons hc hc' hus
  slot {s c c'} h := by
    unfold RetypedAt at h
    generalize hts : c.tokens = ts, hts' : c'.tokens = ts' at h
    cases h with
    | nil => exact .inl (steps_of_nil hts hts')
    | keep h => exact .inl (steps_of_cons hts hts' h)
    | remove ha hun h =>
      obtain ⟨d, hd, hus⟩ := pass_annotation ha hts hun
      refine .inr ⟨d, c', hd, pass_nothing ?_, ?_⟩
      · rw [hts']
        exact h.unannotated hun
      · rwa [RetypedAt, hus, hts']
    | insert ha hun h =>
      obtain ⟨d', hd', hus'⟩ := pass_annotation ha hts' (h.unannotated hun)
      refine .inr ⟨c, d', pass_nothing ?_, hd', ?_⟩
      · rwa [hts]
      · rwa [RetypedAt, hts, hus']
  asks _ := trivial
  other _ _ := trivial

/-- Token sequences that differ in annotations have the same tree. -/
theorem readTokens_of_retyped {ls ls' : List Lexeme} {items : List Item}
    (h : Retyped .code (tokensOf ls) (tokensOf ls')) (hr : readTokens ls = .ok items) :
    ∃ items', readTokens ls' = .ok items' ∧ items'.map Item.erase = items.map Item.erase := by
  have hfollows := (Nested.follows_ofDepth tracks_retyped .surface maxNesting).surface
    tracks_retyped ⟨none, ls⟩ ⟨none, ls'⟩ h
  unfold readTokens at hr ⊢
  cases hx : Nested.elements (Nested.ofDepth .surface maxNesting).surfaceElement ⟨none, ls⟩ with
  | error e => simp [hx, Except.map] at hr
  | ok r =>
    rw [hx] at hr hfollows
    obtain ⟨r', hr', hyields⟩ := hfollows
    cases hr
    exact ⟨r'.1, by rw [hr']; rfl, hyields.alike⟩

/-- So have texts. -/
theorem parseSurface_of_retyped {source source' : List Char} {ls ls' : List Lexeme} {items : List Item}
    (hls : tokenize source = .ok ls) (hls' : tokenize source' = .ok ls')
    (h : Retyped .code (tokensOf ls) (tokensOf ls')) (hr : parseSurface source = .ok items) :
    ∃ items', parseSurface source' = .ok items' ∧ items'.map Item.erase = items.map Item.erase := by
  rw [parseSurface_eq, hls] at hr
  rw [parseSurface_eq, hls']
  exact readTokens_of_retyped h hr

/-! ## Where the reader waits for a type -/

/-- With a colon behind the tokens the reader waits for the name of a type. -/
def WaitsForType (ls : List Lexeme) : Prop :=
  ∃ pos pos',
    readTokens (ls ++ [⟨.mark .colon, pos⟩]) = .error ⟨.unexpected .typeName .eof, pos'⟩

/-- The same cursor twice, behind some of the tokens and at their spot. -/
def Reached (ts : List Token) (q : Spot) (c c' : Cursor) : Prop :=
  c' = c ∧ ∃ pre, ts = pre ++ c.tokens ∧ Spot.code.after pre = q

/-- An error that waits for the name of a type comes from behind a colon where a type may be
written. -/
def AtSlot (ts : List Token) (e : SyntaxError) : Prop :=
  ∀ t, e.fault = .unexpected .typeName t → ∃ pre post s,
    ts = pre ++ .mark .colon :: post ∧ Spot.code.after pre = .slot s ∧ post.head?.getD .eof = t

theorem steps_reached {ts : List Token} {q : Spot} {c c' : Cursor} (h : Reached ts q c c') :
    Steps (Reached ts) q c c' := by
  obtain ⟨rfl, pre, hts, hq⟩ := h
  refine ⟨rfl, fun heof => ⟨rfl, pre ++ [c'.token], ?_, ?_⟩⟩
  · rw [hts, Cursor.tokens_eq_of_advance heof, List.append_assoc, List.singleton_append]
  · rw [Spot.after_append, hq]
    rfl

theorem tracks_reached (ts : List Token) : Tracks (Reached ts) (AtSlot ts) where
  step _ h := steps_reached h
  slot h := .inl (steps_reached h)
  asks {s c c'} h t ht := by
    obtain ⟨rfl, pre, hts, hq⟩ := h
    rcases List.eq_nil_or_concat pre with rfl | ⟨pre, u, rfl⟩
    · cases hq
    · rw [List.concat_eq_append] at hts hq
      rw [Spot.after_append] at hq
      obtain ⟨hslot, rfl⟩ := Spot.step_eq_colon hq
      refine ⟨pre, c'.tokens, s, by rw [hts, List.append_assoc]; rfl, hslot, ?_⟩
      rw [← Cursor.token_eq_head?]
      injection ht
  other e hne t ht := absurd (by rw [ht]; trivial) hne

/-- The reader waits for a type only where a type may be written. -/
theorem slot_of_waits {ls : List Lexeme} (heof : ∀ l ∈ ls, l.token.isEof = false)
    (hw : WaitsForType ls) : ∃ s, Spot.code.after (tokensOf ls) = .slot s := by
  obtain ⟨pos, pos', hr⟩ := hw
  have htracks := tracks_reached (tokensOf (ls ++ [⟨.mark .colon, pos⟩]))
  have hfollows := (Nested.follows_ofDepth htracks .surface maxNesting).surface
    htracks ⟨none, ls ++ [⟨.mark .colon, pos⟩]⟩ _ ⟨rfl, [], rfl, rfl⟩
  unfold readTokens at hr
  cases hx : Nested.elements (Nested.ofDepth .surface maxNesting).surfaceElement
      ⟨none, ls ++ [⟨.mark .colon, pos⟩]⟩ with
  | ok r => simp [hx, Except.map] at hr
  | error e =>
    rw [hx] at hr hfollows
    cases hr
    obtain ⟨pre, post, s, hts, hs, hpost⟩ := hfollows .eof rfl
    have hsplit : tokensOf ls ++ [.mark .colon] = pre ++ .mark .colon :: post := by
      rw [← hts, tokensOf, tokensOf, List.map_append]
      rfl
    cases post with
    | nil => exact ⟨s, by rw [(List.append_inj' hsplit rfl).1, hs]⟩
    | cons u us =>
      have hu : u ∈ tokensOf ls ++ [.mark .colon] := by rw [hsplit]; simp
      obtain rfl : u = .eof := hpost
      rcases List.mem_append.mp hu with hmem | hmem
      · obtain ⟨l, hl, hlt⟩ := List.mem_map.mp hmem
        have := heof l hl
        rw [hlt] at this
        cases this
      · cases List.mem_singleton.mp hmem

/-! ## Erasure -/

/-- Types are erased. From a program of the surface dialect any number of annotations may be removed
and any number inserted where they may stand, behind the name of a declared variable, a parameter or
a list of parameters: the tree stays the same up to positions, that of the tokens and that of the text.
That holds in particular of a single annotation, wherever it may stand and wherever the reader waits for
the name of a type. -/
theorem types_are_erased :
    (∀ ls ls' items, Retyped .code (tokensOf ls) (tokensOf ls') → readTokens ls = .ok items →
      ∃ items', readTokens ls' = .ok items' ∧ items'.map Item.erase = items.map Item.erase) ∧
    (∀ source source' ls ls' items, tokenize source = .ok ls → tokenize source' = .ok ls' →
      Retyped .code (tokensOf ls) (tokensOf ls') → parseSurface source = .ok items →
      ∃ items', parseSurface source' = .ok items' ∧ items'.map Item.erase = items.map Item.erase) ∧
    ∀ pre a post, IsAnnotation (tokensOf a) → Unannotated (tokensOf post) →
      ((∃ s, Spot.code.after (tokensOf pre) = .slot s) ∨
        (∀ l ∈ pre, l.token.isEof = false) ∧ WaitsForType pre) →
      (∀ items, readTokens (pre ++ (a ++ post)) = .ok items →
        ∃ items', readTokens (pre ++ post) = .ok items' ∧
          items'.map Item.erase = items.map Item.erase) ∧
      (∀ items, readTokens (pre ++ post) = .ok items →
        ∃ items', readTokens (pre ++ (a ++ post)) = .ok items' ∧
          items'.map Item.erase = items.map Item.erase) := by
  refine ⟨fun ls ls' items => readTokens_of_retyped,
    fun source source' ls ls' items => parseSurface_of_retyped, fun pre a post ha hpost hplace => ?_⟩
  obtain ⟨s, hs⟩ : ∃ s, Spot.code.after (tokensOf pre) = .slot s :=
    hplace.elim id fun h => slot_of_waits h.1 h.2
  have hwith : tokensOf (pre ++ (a ++ post)) = tokensOf pre ++ (tokensOf a ++ tokensOf post) := by
    simp only [tokensOf, List.map_append]
  have hwithout : tokensOf (pre ++ post) = tokensOf pre ++ tokensOf post := by
    simp only [tokensOf, List.map_append]
  refine ⟨fun items => readTokens_of_retyped ?_, fun items => readTokens_of_retyped ?_⟩
  · rw [hwith, hwithout]
    exact .of_remove hs ha hpost
  · rw [hwith, hwithout]
    exact .of_insert hs ha hpost

/-- The tokens of `let x`, of `: nil[]` and of `= 'a'; x`. -/
def typedDeclaration : List Lexeme × List Lexeme × List Lexeme :=
  ([⟨.keyword .let_, .start⟩, ⟨.ident "x", .start⟩],
    [⟨.mark .colon, .start⟩, ⟨.keyword .nil, .start⟩, ⟨.mark .lbracket, .start⟩,
      ⟨.mark .rbracket, .start⟩],
    [⟨.mark .assign, .start⟩, ⟨.str "a", .start⟩, ⟨.mark .semi, .start⟩, ⟨.eof, .start⟩])

theorem types_are_erased_in_declaration :
    (∃ items, readTokens (typedDeclaration.1 ++ typedDeclaration.2.2) = .ok items ∧
      items.map Item.erase = [.stmt (.declare .start "x" (.str .start "a"))]) ∧
    ∃ items, readTokens (typedDeclaration.1 ++ (typedDeclaration.2.1 ++ typedDeclaration.2.2)) =
      .ok items ∧ items.map Item.erase = [.stmt (.declare .start "x" (.str .start "a"))] := by
  have herased := types_are_erased.2.2 typedDeclaration.1 typedDeclaration.2.1 typedDeclaration.2.2
    ⟨.keyword .nil, 1, rfl, rfl⟩ trivial
    (.inr ⟨by decide, .start, .start, rfl⟩)
  exact ⟨herased.1 [.stmt (.declare .start "x" (.str .start "a"))] rfl,
    herased.2 [.stmt (.declare .start "x" (.str .start "a"))] rfl⟩

end Hotload.Syntax
