import Mathlib
import Hotload.Proofs.Syntax.TwoReadings

/-!
# A comment behind a text

A line comment on a line of its own behind a text changes none of its tokens, whatever the text
breaks off in: a comment up to the end of the line and every other token end at the line break in
front of it; a string literal and a comment with brackets stay open, with it and without it.

* `trailer`: a line break and a line comment.
* `lexemes_trailer`: the tokens of a text with and without a trailer.
* `parseCore_trailer`: its trees.
-/

namespace Hotload.Syntax

open Hotload.Text (isBlank)

/-- A line break and a line comment. -/
def trailer (comment : List Char) : List Char := '\n' :: '/' :: '/' :: comment

/-- The comment is on one line, and nothing in it closes a comment with brackets. -/
structure IsTrailing (comment : List Char) : Prop where
  line : '\n' ∉ comment
  star : '*' ∉ comment

instance (comment : List Char) : Decidable (IsTrailing comment) :=
  decidable_of_iff ('\n' ∉ comment ∧ '*' ∉ comment) ⟨fun h => ⟨h.1, h.2⟩, fun h => ⟨h.line, h.star⟩⟩

theorem IsTrailing.append {s t : List Char} (hs : IsTrailing s) (ht : IsTrailing t) :
    IsTrailing (s ++ t) :=
  ⟨List.not_mem_append hs.line ht.line, List.not_mem_append hs.star ht.star⟩

variable {comment : List Char}

/-- What does not begin with a character does not begin with it in front of a line break. -/
theorem append_trailer_ne {cs : List Char} {c : Char} (h : ∀ ds, cs ≠ c :: ds) (hc : c ≠ '\n')
    (ds : List Char) : cs ++ trailer comment ≠ c :: ds := by
  cases cs with
  | nil => exact fun he => hc (List.cons.inj he).1.symm
  | cons d cs =>
    intro he
    rw [(List.cons.inj he).1] at h
    exact h cs rfl

/-! ## Blanks and comments -/

/-- Nothing follows a comment on the last line. -/
theorem skipTrivia_comment {cs : List Char} (h : '\n' ∉ cs) (p : Pos) :
    ∃ q, skipTrivia .line p cs = .ok (q, []) := by
  induction cs generalizing p with
  | nil => exact ⟨p, rfl⟩
  | cons c cs ih =>
    rw [List.mem_cons, not_or] at h
    obtain ⟨q, hq⟩ := ih h.2 (p.next c)
    exact ⟨q, by rw [← hq, skipTrivia]; exact fun hc => h.1 hc.symm⟩

/-- Without an asterisk a comment with brackets stays open. -/
theorem skipTrivia_block {cs : List Char} (h : '*' ∉ cs) (start p : Pos) :
    skipTrivia (.block start) p cs = .error ⟨.unterminatedComment, start⟩ := by
  induction cs generalizing p with
  | nil => rfl
  | cons c cs ih =>
    rw [List.mem_cons, not_or] at h
    rw [← ih h.2 (p.next c), skipTrivia]
    exact fun _ hc => absurd hc.symm h.1

/-- Nothing is left in both scans, or the trailer is left behind what is left without it. -/
def LeftWith (tail : List Char) (r r' : Pos × List Char) : Prop :=
  (r.2 = [] ∧ r'.2 = []) ∨ (r.2 ≠ [] ∧ r' = (r.1, r.2 ++ tail))

theorem skipTrivia_trailer (h : IsTrailing comment) (t : Trivia) (p : Pos) (cs : List Char) :
    Agree (LeftWith (trailer comment)) (skipTrivia t p cs)
      (skipTrivia t p (cs ++ trailer comment)) := by
  have hcomment (p q : Pos) : Agree (LeftWith (trailer comment)) (.ok (p, []))
      (skipTrivia .line q comment) := by
    obtain ⟨r, hr⟩ := skipTrivia_comment h.line q
    rw [hr]
    exact .given (.inl ⟨rfl, rfl⟩)
  fun_induction skipTrivia t p cs with
  | case1 start p =>
    rw [List.nil_append, skipTrivia_block (by simpa [trailer] using h.star)]
    exact .stopped _ _
  | case2 t p ht =>
    cases t with
    | block start => exact (ht start rfl).elim
    | blank => exact hcomment p _
    | line => exact hcomment p _
  | case3 p cs ih => exact ih
  | case4 p cs ih => exact ih
  | case5 p c cs hline hblock hc ih =>
    rw [List.cons_append, skipTrivia, if_pos hc]
    · exact ih
    · exact fun ds hslash => absurd hc (by rw [hslash]; decide)
    · exact fun ds hslash => absurd hc (by rw [hslash]; decide)
  | case6 p c cs hline hblock hc =>
    rw [List.cons_append, skipTrivia, if_neg hc]
    · exact .given (.inr ⟨List.cons_ne_nil _ _, rfl⟩)
    · exact fun ds hslash => append_trailer_ne (fun ds => hline ds hslash) (by decide) ds
    · exact fun ds hslash => append_trailer_ne (fun ds => hblock ds hslash) (by decide) ds
  | case7 p cs ih => exact ih
  | case8 p c cs hc ih =>
    rw [List.cons_append, skipTrivia]
    · exact ih
    · exact hc
  | case9 start p cs ih => exact ih
  | case10 start p c cs hc ih =>
    rw [List.cons_append, skipTrivia]
    · exact ih
    · exact fun ds hstar => append_trailer_ne (fun ds => hc ds hstar) (by decide) ds

/-! ## Tokens -/

/-- The token with more text behind it. -/
def Scanned.before (tail : List Char) (s : Scanned) : Scanned := { s with rest := s.rest ++ tail }

/-- Signs that are marks themselves and begin longer ones. -/
theorem scanMark?_isSome {c : Char} (h : c ∈ ['=', '!', '<', '>']) (cs : List Char) :
    (scanMark? (c :: cs)).isSome = true := by
  unfold scanMark?
  split
  case h_28 heq _ _ hbang _ hlt _ hgt _ _ =>
    simp only [List.mem_cons, List.not_mem_nil, or_false] at h
    rcases h with rfl | rfl | rfl | rfl
    · exact (heq cs rfl).elim
    · exact (hbang cs rfl).elim
    · exact (hlt cs rfl).elim
    · exact (hgt cs rfl).elim
  all_goals rfl

/-- A line break makes no mark. -/
theorem scanMark?_of_trailer {c : Char} {cs : List Char}
    (h : (scanMark? (c :: (cs ++ trailer comment))).isSome = true) :
    (scanMark? (c :: cs)).isSome = true := by
  have hpair {d : Char} {ds : List Char} (hd : d ≠ '\n') (he : cs ++ trailer comment = d :: ds) :
      ∃ ds, cs = d :: ds := by
    by_contra hcs
    exact append_trailer_ne (not_exists.mp hcs) hd ds he
  unfold scanMark? at h
  split at h
  case h_26 he =>
    obtain ⟨rfl, hcs⟩ := List.cons.inj he
    obtain ⟨ds, rfl⟩ := hpair (by decide) hcs
    rfl
  case h_27 he =>
    obtain ⟨rfl, hcs⟩ := List.cons.inj he
    obtain ⟨ds, rfl⟩ := hpair (by decide) hcs
    rfl
  case h_28 => cases h
  all_goals
    rename_i he
    obtain ⟨rfl, -⟩ := List.cons.inj he
    first
    | rfl
    | exact scanMark?_isSome (by decide) cs

/-- The mark at the head of a text is the one that stands there with a line break behind the text:
no mark has a line break in it. -/
theorem scanMark?_trailer (c : Char) (cs : List Char) :
    scanMark? (c :: (cs ++ trailer comment)) =
      (scanMark? (c :: cs)).map (Scanned.before (trailer comment)) := by
  have hne {cs : List Char} (h : ∀ ds, cs = '=' :: ds → False) ds :
      cs ++ trailer comment = '=' :: ds → False := append_trailer_ne (fun ds => h ds) (by decide) ds
  cases hs : scanMark? (c :: cs) with
  | none =>
    rw [Option.map_none, ← Option.not_isSome_iff_eq_none]
    intro h
    simpa [hs] using scanMark?_of_trailer h
  | some s =>
    unfold scanMark? at hs
    split at hs
    case h_17 h he | h_20 h he =>
      obtain ⟨rfl, rfl⟩ := List.cons.inj he
      cases hs
      rw [List.cons_append, scanMark?]
      · rfl
      · exact hne h
    case h_18 h he | h_21 h he =>
      obtain ⟨rfl, rfl⟩ := List.cons.inj he
      cases hs
      rw [scanMark?]
      · rfl
      · exact fun ds => hne h _
      · exact hne h
    case h_23 h he | h_25 h he =>
      obtain ⟨rfl, rfl⟩ := List.cons.inj he
      cases hs
      rw [scanMark?]
      · rfl
      · exact hne h
    case h_28 => cases hs
    all_goals
      rename_i he
      obtain ⟨rfl, rfl⟩ := List.cons.inj he
      cases hs
      rfl

/-- An escape whose four digits are not there is refused. -/
theorem scanString_unicode {quote : Char} {start p : Pos} {ds : List Char}
    (h : ∀ a b c d es, ds = a :: b :: c :: d :: es → unicodeEscape? a b c d = none) :
    scanString quote start p ('\\' :: 'u' :: ds) = .error ⟨.invalidUnicodeEscape, p.right 1⟩ := by
  rcases ds with _ | ⟨a, _ | ⟨b, _ | ⟨c, _ | ⟨d, es⟩⟩⟩⟩
  · rfl
  · rfl
  · rfl
  · rfl
  · rw [scanString, h a b c d es rfl]

/-- The four characters behind a text of fewer have a line break among them. -/
theorem mem_of_short {cs es : List Char} {a b c d : Char}
    (hcs : ∀ a b c d ds, cs = a :: b :: c :: d :: ds → False)
    (h : cs ++ trailer comment = a :: b :: c :: d :: es) : '\n' ∈ [a, b, c, d] := by
  have hmem : '\n' ∈ (cs ++ trailer comment).take 4 := by
    rcases cs with _ | ⟨x, _ | ⟨y, _ | ⟨z, _ | ⟨w, ds⟩⟩⟩⟩
    · simp [trailer]
    · simp [trailer]
    · simp [trailer]
    · simp [trailer]
    · exact (hcs x y z w ds rfl).elim
  rwa [h] at hmem

/-- The rest of a string literal with more text behind it. -/
def StringBefore (tail : List Char) (r r' : List Char × List Char × List Char) : Prop :=
  r' = (r.1, r.2.1, r.2.2 ++ tail)

/-- A string literal that is open at a line break is refused. -/
theorem scanString_trailer {quote : Char} (hquote : quote ≠ '\\') (start p : Pos) (cs : List Char) :
    Agree (StringBefore (trailer comment)) (scanString quote start p cs)
      (scanString quote start p (cs ++ trailer comment)) := by
  have hescape {p : Pos} {c : Char} {ds : List Char} (hu : c ≠ 'u') (hc : simpleEscape? c = none) :
      scanString quote start p ('\\' :: c :: ds) = .error ⟨.invalidEscape, p.right 1⟩ := by
    rw [scanString, hc]
    · exact fun _ _ _ _ _ h => absurd h hu
    · exact hu
  have hplain {p : Pos} {c : Char} (hc : c ≠ '\\') (ds : List Char) :
      scanString quote start p (c :: ds) =
        if c = '\n' then .error ⟨.unterminatedString, start⟩
        else if c = quote then .ok ([], [c], ds)
        else (scanString quote start (p.next c) ds).bind
          fun r => .ok (c :: r.1, c :: r.2.1, r.2.2) := by
    rw [scanString, if_neg hc]
    · rfl
    · exact fun _ _ _ _ _ h => absurd h hc
    · exact fun _ h => absurd h hc
    · exact fun _ _ h => absurd h hc
  fun_induction scanString quote start p cs with
  | case1 p =>
    rw [List.nil_append, trailer, hplain (by decide), if_pos rfl]
    exact .stopped _ _
  | case2 p a b c d cs hnone =>
    rw [List.cons_append, List.cons_append, List.cons_append, List.cons_append, List.cons_append,
      List.cons_append, scanString, hnone]
    exact .stopped _ _
  | case3 p a b c d cs x hx ih =>
    rw [List.cons_append, List.cons_append, List.cons_append, List.cons_append, List.cons_append,
      List.cons_append, scanString, hx]
    exact ih.bind fun r r' hr => .given (by rw [hr]; rfl)
  | case4 p cs hshort =>
    have hnone : ∀ a b c d es, cs ++ trailer comment = a :: b :: c :: d :: es →
        unicodeEscape? a b c d = none :=
      fun a b c d es h => unicodeEscape?_break (mem_of_short hshort h)
    rw [List.cons_append, List.cons_append, scanString_unicode hnone]
    exact .stopped _ _
  | case5 p c cs hlong hu hnone =>
    rw [List.cons_append, List.cons_append, hescape hu hnone]
    exact .stopped _ _
  | case6 p c cs hlong hu x hx ih =>
    rw [List.cons_append, List.cons_append, scanString, hx]
    · exact ih.bind fun r r' hr => .given (by rw [hr]; rfl)
    · exact fun _ _ _ _ _ h => absurd h hu
    · exact hu
  | case7 p cs =>
    rw [List.cons_append, hplain (by decide), if_pos rfl]
    exact .stopped _ _
  | case8 p cs _ _ _ hbreak =>
    rw [List.cons_append, hplain hquote, if_neg hbreak, if_pos rfl]
    exact .given rfl
  | case9 p cs _ _ hlast =>
    cases cs with
    | nil =>
      rw [List.cons_append, List.nil_append, trailer, hescape (by decide) (by decide)]
      exact .stopped _ _
    | cons c cs => exact (hlast c cs rfl rfl).elim
  | case10 p c cs _ _ _ hbreak hc hslash ih =>
    rw [List.cons_append, hplain hslash, if_neg hbreak, if_neg hc]
    exact ih.bind fun r r' hr => .given (by rw [hr]; rfl)

/-! ### Numbers and words -/

theorem takeWhile_trailer {p : Char → Bool} (hp : p '\n' = false) (cs : List Char) :
    (cs ++ trailer comment).takeWhile p = cs.takeWhile p := by
  induction cs with
  | nil => simp [trailer, hp]
  | cons c cs ih => simp [List.takeWhile_cons, ih]

theorem dropWhile_trailer {p : Char → Bool} (hp : p '\n' = false) (cs : List Char) :
    (cs ++ trailer comment).dropWhile p = cs.dropWhile p ++ trailer comment := by
  induction cs with
  | nil => simp [trailer, hp]
  | cons c cs ih =>
    simp only [List.cons_append, List.dropWhile_cons, ih]
    split <;> rfl

theorem scanWord_trailer (cs : List Char) :
    scanWord (cs ++ trailer comment) = (scanWord cs).before (trailer comment) := by
  have hbreak : isWordPart '\n' = false := by decide
  simp only [scanWord, Scanned.before, takeWhile_trailer hbreak, dropWhile_trailer hbreak]

theorem scanNumber_trailer (cs : List Char) :
    scanNumber (cs ++ trailer comment) = (scanNumber cs).before (trailer comment) := by
  have hbreak : isNumberPart '\n' = false := by decide
  simp only [scanNumber, takeWhile_trailer hbreak, dropWhile_trailer hbreak]
  generalize cs.dropWhile isNumberPart = rest
  by_cases hpoint : ∃ d ds, rest = '.' :: d :: ds
  · obtain ⟨d, ds, rfl⟩ := hpoint
    have htake : (d :: ds ++ trailer comment).takeWhile isNumberPart = _ :=
      takeWhile_trailer hbreak (d :: ds)
    have hdrop : (d :: ds ++ trailer comment).dropWhile isNumberPart = _ :=
      dropWhile_trailer hbreak (d :: ds)
    simp only [List.cons_append] at htake hdrop ⊢
    simp only [htake, hdrop]
    split <;> rfl
  · -- A point at the end of the text is not followed by a digit on the next line either.
    have hrest : ∀ d ds, rest = '.' :: d :: ds → False := fun d ds he => hpoint ⟨d, ds, he⟩
    split
    · rename_i d ds he
      rcases rest with _ | ⟨c, _ | ⟨d', ds'⟩⟩
      · exact absurd (List.cons.inj he).1 (by decide)
      · obtain ⟨rfl, hbehind⟩ := List.cons.inj he
        rw [← (List.cons.inj hbehind).1]
        rfl
      · obtain ⟨rfl, -⟩ := List.cons.inj he
        exact (hrest d' ds' rfl).elim
    · rfl

/-- A token ends at a line break. -/
theorem scanToken_trailer (p : Pos) (c : Char) (cs : List Char) :
    Agree (fun s s' => s' = s.before (trailer comment)) (scanToken p c cs)
      (scanToken p c (cs ++ trailer comment)) := by
  rw [scanToken, scanToken, scanMark?_trailer]
  cases scanMark? (c :: cs) with
  | some s => exact .given rfl
  | none =>
    simp only [Option.map_none]
    split
    · rename_i hquote
      have hc : c ≠ '\\' := by rintro rfl; simp at hquote
      refine (scanString_trailer hc p (p.right 1) cs).bind fun r r' hr => .given ?_
      rw [hr]
      rfl
    · split
      · exact .given (scanNumber_trailer (c :: cs))
      · split
        · exact .given (scanWord_trailer (c :: cs))
        · exact .stopped _ _

/-! ## All tokens -/

/-- The tokens of a text with and without a trailer are the same, except that the text ends
elsewhere. -/
theorem lexemes_trailer (h : IsTrailing comment) (p : Pos) (cs : List Char) :
    Agree (List.Forall₂ Lexeme.Same) (lexemes p cs) (lexemes p (cs ++ trailer comment)) := by
  induction hn : cs.length using Nat.strong_induction_on generalizing p cs with
  | _ n ih =>
    have hskip := skipTrivia_trailer h .blank p cs
    rw [lexemes_eq p cs, lexemes_eq p (cs ++ trailer comment)]
    cases hs : skipTrivia .blank p cs with
    | error e =>
      obtain ⟨e', he'⟩ := (hs ▸ hskip).of_error
      rw [he']
      exact .stopped e e'
    | ok r =>
      obtain ⟨q, ds⟩ := r
      obtain ⟨⟨q', ds'⟩, hr', hleft⟩ := (hs ▸ hskip).of_ok
      rw [hr']
      rcases hleft with ⟨rfl, rfl⟩ | ⟨hds, hleft⟩
      · exact .given (.cons ⟨rfl, fun hend => by cases hend⟩ .nil)
      · cases ds with
        | nil => exact (hds rfl).elim
        | cons c ds =>
          cases hleft
          have htoken : Agree _ _ (scanToken q c (ds ++ trailer comment)) :=
            scanToken_trailer q c ds
          have hlen := skipTrivia_length hs
          simp only [List.length_cons, List.cons_append] at hlen ⊢
          cases ht : scanToken q c ds with
          | error e =>
            obtain ⟨e', he'⟩ := (ht ▸ htoken).of_error
            rw [he']
            exact .stopped e e'
          | ok s =>
            obtain ⟨s', hs', rfl⟩ := (ht ▸ htoken).of_ok
            have hrest := scanToken_length ht
            rw [hs']
            exact (ih s.rest.length (by omega) _ s.rest rfl).map
              fun ls ls' hls => .cons ⟨rfl, fun _ => rfl⟩ hls

/-- A trailer behind a text changes nothing of its tree, and none makes a tree of a text that has
none. -/
theorem parseCore_trailer (h : IsTrailing comment) (source : List Char) (ss : List Stmt) :
    parseCore (source ++ trailer comment) = .ok ss ↔ parseCore source = .ok ss := by
  have hagree : Agree Eq (parseCore source) (parseCore (source ++ trailer comment)) := by
    rw [parseCore, parseCore, run_eq, run_eq]
    refine (lexemes_trailer h .start source).bind fun ls ls' hls => ?_
    have hdepth := Nested.concurs_ofDepth .core .core maxNesting
    exact (Nested.concurs_elements hdepth.coreElement).start hls
  exact (hagree.ok_iff ss).symm

end Hotload.Syntax
