import Mathlib
import Hotload.Proofs.SourceMap.Lookup
import Hotload.Proofs.Syntax.Lexing

/-!
# Texts as segments

A text that the lexer accepts is cut into blanks, comments and the spellings of tokens, each of which
goes as far as it can. The tokens and their positions are told by the cut alone.

* `Pos.behind`: the line and the column behind some text.
* `IsTrivia`, `Token.SpeltBy`: what blanks and comments are, and how each token is spelt.
* `Segment`, `Fitting`: the segments of a text.
* `lexemes_trivia`, `leads_of_speltBy`: what the lexer makes of each segment.
* `lexemes_step`: how a text begins.
* `tokens_are_segments`: the tokens of a text.
-/

namespace Hotload.Syntax

open Hotload.Text (isBlank)

/-! ## Lines and columns -/

namespace Pos

/-- The position behind some text: its line is one more than the newlines there are, its column one
more than the characters since the last of them. -/
def behind (before : List Char) : Pos :=
  ⟨before.count '\n' + 1, (before.rtakeWhile (· ≠ '\n')).length + 1⟩

theorem behind_concat (before : List Char) (c : Char) :
    behind (before ++ [c]) = (behind before).next c := by
  by_cases hc : c = '\n'
  · subst hc
    simp [behind, next]
  · simp [behind, next, hc]

theorem after_behind (before cs : List Char) :
    (behind before).after cs = behind (before ++ cs) := by
  induction cs generalizing before with
  | nil => simp
  | cons c cs ih => rw [after_cons, ← behind_concat, ih, List.append_assoc, List.singleton_append]

theorem behind_nil : behind [] = .start := rfl

/-- Characters on one line are columns. -/
theorem right_eq_after {cs : List Char} (h : '\n' ∉ cs) (p : Pos) :
    p.right cs.length = p.after cs := by
  induction cs generalizing p with
  | nil => rfl
  | cons c cs ih =>
    obtain ⟨hc, hcs⟩ := not_or.mp (mt List.mem_cons.mpr h)
    rw [after_cons, ← ih hcs, next, if_neg (Ne.symm hc), right, right, List.length_cons, Nat.add_assoc,
      Nat.add_comm 1]

theorem before_next (p : Pos) (c : Char) : p.Before (p.next c) := by
  unfold next Before
  split <;> simp

theorem before_after {cs : List Char} (h : cs ≠ []) (p : Pos) : p.Before (p.after cs) := by
  induction cs generalizing p with
  | nil => exact absurd rfl h
  | cons c cs ih =>
    rw [after_cons]
    by_cases hcs : cs = []
    · rw [hcs]
      exact before_next p c
    · exact (before_next p c).trans (ih hcs _)

end Pos

/-! ## Blanks, comments and spellings -/

/-- The characters are a blank or a comment, which ends in front of `rest`. A comment up to the end of
the line goes to the newline, and a comment with brackets to the first closing ones. -/
inductive IsTrivia : List Char → List Char → Prop
  | blank {c : Char} {rest : List Char} (h : isBlank c = true) : IsTrivia [c] rest
  | line {cs rest : List Char} (h : '\n' ∉ cs) (hrest : ∀ c, rest.head? = some c → c = '\n') :
      IsTrivia ('/' :: '/' :: cs) rest
  | block {cs rest : List Char} (h : ¬ ['*', '/'] <:+: cs) :
      IsTrivia ('/' :: '*' :: (cs ++ ['*', '/'])) rest

/-- The characters spell the mark, and what follows does not make them another one. Equality and
inequality may be written with a third sign. -/
inductive Mark.SpeltBy : Mark → List Char → List Char → Prop
  | plain {m : Mark} {rest : List Char} (h : m.EndsBefore rest) :
      Mark.SpeltBy m m.spelling.toList rest
  | eq {rest : List Char} : Mark.SpeltBy .eq ['=', '=', '='] rest
  | notEq {rest : List Char} : Mark.SpeltBy .notEq ['!', '=', '='] rest

/-- The characters spell the token, and none of the `rest` behind them belongs to it. -/
inductive Token.SpeltBy : Token → List Char → List Char → Prop
  | mark {m : Mark} {cs rest : List Char} (h : m.SpeltBy cs rest) : Token.SpeltBy (.mark m) cs rest
  | word {cs rest : List Char} (h : isIdentifier cs = true) (hrest : EndsWord rest) :
      Token.SpeltBy (Token.ofWord (String.ofList cs)) cs rest
  | whole {cs rest : List Char} (h : IsDigitRun cs) (hrest : EndsNumber rest) :
      Token.SpeltBy (.num (Number.ofDigits false (cs.filter Char.isDigit) [] 0)) cs rest
  | fraction {cs ds rest : List Char} (h : IsDigitRun cs) (hd : IsDigitRun ds)
      (hrest : ∀ c, rest.head? = some c → isNumberPart c = false) :
      Token.SpeltBy
        (.num (Number.ofDigits false (cs.filter Char.isDigit) (ds.filter Char.isDigit) 0))
        (cs ++ '.' :: ds) rest
  | str {quote : Char} {inside value rest : List Char} (hquote : quote = '"' ∨ quote = '\'')
      (h : Denotes quote inside value) :
      Token.SpeltBy (.str (String.ofList value)) (quote :: (inside ++ [quote])) rest

/-! ### No token is empty or leaves its line -/

theorem newline_not_mem_of_denotes {quote : Char} {inside value : List Char}
    (h : Denotes quote inside value) : '\n' ∉ inside := by
  induction h with
  | nil => exact List.not_mem_nil
  | plain hbreak hquote hslash h ih => simpa using ⟨Ne.symm hbreak, ih⟩
  | @escape x c inside value hx h ih =>
    have hbreak : x ≠ '\n' := by
      rintro rfl
      cases hx
    simpa using ⟨Ne.symm hbreak, ih⟩
  | @unicode a b c d x inside value hx h ih =>
    have hdigits : '\n' ∉ [a, b, c, d] := fun hmem => by
      rw [unicodeEscape?_break hmem] at hx
      cases hx
    simp only [List.mem_cons, not_or] at hdigits ⊢
    exact ⟨by decide, by decide, hdigits.1, hdigits.2.1, hdigits.2.2.1, hdigits.2.2.2.1, ih⟩

theorem newline_not_mem_of_all {p : Char → Bool} {cs : List Char} (hp : p '\n' = false)
    (h : cs.all p = true) : '\n' ∉ cs := by
  intro hmem
  rw [List.all_eq_true.mp h '\n' hmem] at hp
  cases hp

namespace Token.SpeltBy

variable {t : Token} {cs rest : List Char}

theorem newline_not_mem (h : t.SpeltBy cs rest) : '\n' ∉ cs := by
  cases h with
  | @mark m cs rest h =>
    cases h with
    | plain h => cases m <;> decide
    | eq => decide
    | notEq => decide
  | word h => exact newline_not_mem_of_all (by decide) (all_of_isIdentifier h)
  | whole h => exact newline_not_mem_of_all (by decide) (all_of_isDigitRun h)
  | fraction h hd =>
    have h := newline_not_mem_of_all (p := isNumberPart) (by decide) (all_of_isDigitRun h)
    have hd := newline_not_mem_of_all (p := isNumberPart) (by decide) (all_of_isDigitRun hd)
    simpa using ⟨h, hd⟩
  | str hquote h =>
    have hinside := newline_not_mem_of_denotes h
    rcases hquote with rfl | rfl <;> simpa using hinside

theorem ne_nil (h : t.SpeltBy cs rest) : cs ≠ [] := by
  cases h with
  | @mark m cs rest h =>
    cases h with
    | plain h => cases m <;> decide
    | eq => decide
    | notEq => decide
  | word h =>
    rintro rfl
    cases h
  | whole h =>
    rintro rfl
    exact h
  | fraction h hd => simp
  | str hquote h => exact List.cons_ne_nil _ _

theorem ne_eof (h : t.SpeltBy cs rest) : t ≠ .eof := by
  cases h with
  | word h =>
    unfold Token.ofWord
    split <;> exact nofun
  | _ => exact nofun

end Token.SpeltBy

/-! ## Segments are read back -/

theorem lexemes_congr {p q : Pos} {cs ds : List Char}
    (h : skipTrivia .blank p cs = skipTrivia .blank q ds) : lexemes p cs = lexemes q ds := by
  rw [lexemes_eq, lexemes_eq q, h]

theorem skipTrivia_toBreak {cs rest : List Char} (h : '\n' ∉ cs)
    (hrest : ∀ c, rest.head? = some c → c = '\n') (p : Pos) :
    skipTrivia .line p (cs ++ rest) = skipTrivia .blank (p.after cs) rest := by
  induction cs generalizing p with
  | nil =>
    cases rest with
    | nil => rfl
    | cons c rest =>
      rw [hrest c rfl]
      rfl
  | cons c cs ih =>
    obtain ⟨hc, hcs⟩ := not_or.mp (mt List.mem_cons.mpr h)
    rw [List.cons_append, skipTrivia, ih hcs, Pos.after_cons]
    exact fun he => hc he.symm

theorem skipTrivia_closed {cs : List Char} (h : ¬ ['*', '/'] <:+: cs) (start p : Pos)
    (rest : List Char) :
    skipTrivia (.block start) p (cs ++ '*' :: '/' :: rest) =
      skipTrivia .blank (p.after (cs ++ ['*', '/'])) rest := by
  induction cs generalizing p with
  | nil => rfl
  | cons c cs ih =>
    rw [List.cons_append, skipTrivia, ih (mt List.infix_cons h)]
    · rfl
    · rintro ds rfl hds
      cases cs with
      | nil => cases hds
      | cons d cs =>
        cases hds
        exact h ⟨[], cs, rfl⟩

theorem lexemes_trivia {cs rest : List Char} (h : IsTrivia cs rest) (p : Pos) :
    lexemes p (cs ++ rest) = lexemes (p.after cs) rest := by
  cases h with
  | blank h => exact lexemes_blank h p rest
  | line h hrest => exact lexemes_congr (skipTrivia_toBreak h hrest _)
  | @block cs rest h =>
    refine lexemes_congr ?_
    rw [List.cons_append, List.cons_append, List.append_assoc]
    exact skipTrivia_closed h p _ rest

/-- What spells a token is read back as that token. -/
theorem leads_of_speltBy {t : Token} {cs rest : List Char} (h : t.SpeltBy cs rest) :
    Leads t cs.length (cs ++ rest) rest := by
  cases h with
  | @mark m _ _ h =>
    cases h with
    | plain h => exact leads_mark m h
    | eq => exact leads_of_scan (w := ['=', '=', '=']) rfl (fun hc => by cases hc) fun _ => rfl
    | notEq => exact leads_of_scan (w := ['!', '=', '=']) rfl (fun hc => by cases hc) fun _ => rfl
  | word h hrest => exact leads_word h hrest
  | whole h hrest => exact leads_whole h hrest
  | fraction h hd hrest => exact leads_fraction h hd hrest
  | str hquote h => exact leads_literal hquote h rest

/-! ## What the scanners take -/

theorem scanMark?_speltBy {cs : List Char} {s : Scanned} (h : scanMark? cs = some s)
    (hslash : ∀ ds, cs = '/' :: ds → ds.head? ≠ some '/' ∧ ds.head? ≠ some '*') :
    cs = s.spelling ++ s.rest ∧ s.token.SpeltBy s.spelling s.rest := by
  unfold scanMark? at h
  split at h <;> cases h
  all_goals refine ⟨rfl, .mark ?_⟩
  all_goals first
    | exact .plain trivial
    | exact .eq
    | exact .notEq
    | exact .plain (hslash _ rfl)
    | (refine .plain fun he => ?_
       obtain ⟨rest, rfl⟩ := List.head?_eq_some_iff.mp he
       simp_all)

theorem denotes_of_scanString {quote : Char} {start p : Pos} {cs value spelling rest : List Char}
    (h : scanString quote start p cs = .ok (value, spelling, rest)) :
    ∃ inside, spelling = inside ++ [quote] ∧ cs = spelling ++ rest ∧ Denotes quote inside value := by
  fun_induction scanString quote start p cs generalizing value spelling rest with
  | case3 p a b c d cs x hx ih =>
    obtain ⟨v, s, hr⟩ := rest_of_bind (fun r => ⟨_, _, rfl⟩) h
    obtain ⟨inside, rfl, rfl, hd⟩ := ih hr
    rw [hr] at h
    cases h
    exact ⟨_, rfl, by simp, .unicode hx hd⟩
  | case6 p c cs _ hu x hx ih =>
    obtain ⟨v, s, hr⟩ := rest_of_bind (fun r => ⟨_, _, rfl⟩) h
    obtain ⟨inside, rfl, rfl, hd⟩ := ih hr
    rw [hr] at h
    cases h
    exact ⟨_, rfl, by simp, .escape hx hd⟩
  | case8 p cs =>
    cases h
    exact ⟨[], rfl, rfl, .nil⟩
  | case10 p c cs _ _ _ hbreak hquote hslash ih =>
    obtain ⟨v, s, hr⟩ := rest_of_bind (fun r => ⟨_, _, rfl⟩) h
    obtain ⟨inside, rfl, rfl, hd⟩ := ih hr
    rw [hr] at h
    cases h
    exact ⟨_, rfl, by simp, .plain hbreak hquote hslash hd⟩
  | _ => cases h

theorem head?_dropWhile {p : Char → Bool} {cs : List Char} {c : Char}
    (h : (cs.dropWhile p).head? = some c) : p c = false := by
  have hnot := List.head?_dropWhile_not p cs
  rwa [h] at hnot

theorem isDigitRun_takeWhile {c : Char} (h : c.isDigit = true) (cs : List Char) :
    IsDigitRun ((c :: cs).takeWhile isNumberPart) := by
  have hc : isNumberPart c = true := by simp [isNumberPart, h]
  rw [List.takeWhile_cons_of_pos hc]
  exact ⟨h, List.all_takeWhile⟩

theorem scanNumber_speltBy {c : Char} (h : c.isDigit = true) (cs : List Char) :
    c :: cs = (scanNumber (c :: cs)).spelling ++ (scanNumber (c :: cs)).rest ∧
      (scanNumber (c :: cs)).token.SpeltBy (scanNumber (c :: cs)).spelling
        (scanNumber (c :: cs)).rest := by
  have hrun := isDigitRun_takeWhile h cs
  have hspan : (c :: cs).takeWhile isNumberPart ++ (c :: cs).dropWhile isNumberPart = c :: cs :=
    List.takeWhile_append_dropWhile
  have hend : ∀ d, ((c :: cs).dropWhile isNumberPart).head? = some d → isNumberPart d = false :=
    fun d hd => head?_dropWhile hd
  unfold scanNumber
  simp only []
  split
  · rename_i d ds hdrop
    rw [hdrop] at hspan hend
    split
    · rename_i hd
      have hrest : (d :: ds).takeWhile isNumberPart ++ (d :: ds).dropWhile isNumberPart = d :: ds :=
        List.takeWhile_append_dropWhile
      refine ⟨?_, .fraction hrun (isDigitRun_takeWhile hd ds) fun e he => head?_dropWhile he⟩
      rw [List.append_assoc, List.cons_append, hrest, hspan]
    · rename_i hd
      refine ⟨by rw [hdrop, hspan], .whole hrun ⟨by rwa [hdrop], fun e es he => ?_⟩⟩
      rw [hdrop] at he
      cases he
      simpa using hd
  · rename_i hpoint
    exact ⟨hspan.symm, .whole hrun ⟨hend, fun e es he => absurd he (hpoint e es)⟩⟩

theorem scanWord_speltBy {c : Char} (h : isWordStart c = true) (cs : List Char) :
    c :: cs = (scanWord (c :: cs)).spelling ++ (scanWord (c :: cs)).rest ∧
      (scanWord (c :: cs)).token.SpeltBy (scanWord (c :: cs)).spelling (scanWord (c :: cs)).rest := by
  have hword : isIdentifier ((c :: cs).takeWhile isWordPart) = true := by
    rw [List.takeWhile_cons_of_pos (isWordPart_of_isWordStart h)]
    simp only [isIdentifier, h, Bool.true_and]
    exact List.all_takeWhile
  exact ⟨List.takeWhile_append_dropWhile.symm, .word hword fun d hd => head?_dropWhile hd⟩

theorem scanToken_speltBy {p : Pos} {c : Char} {cs : List Char} {s : Scanned}
    (h : scanToken p c cs = .ok s) (hslash : c = '/' → cs.head? ≠ some '/' ∧ cs.head? ≠ some '*') :
    c :: cs = s.spelling ++ s.rest ∧ s.token.SpeltBy s.spelling s.rest := by
  unfold scanToken at h
  split at h
  · rename_i hm
    cases h
    refine scanMark?_speltBy hm fun ds he => ?_
    obtain ⟨hc, rfl⟩ := List.cons.inj he
    exact hslash hc
  · split at h
    · rename_i hquote
      cases hr : scanString c p (p.right 1) cs with
      | error e => simp [hr, bind, Except.bind] at h
      | ok r =>
        obtain ⟨inside, hspelling, hcs, hd⟩ := denotes_of_scanString hr
        simp only [hr, bind, Except.bind, Except.ok.injEq] at h
        subst h
        refine ⟨by rw [hcs]; rfl, ?_⟩
        rw [hspelling]
        exact .str hquote hd
    · split at h
      · rename_i hd
        cases h
        exact scanNumber_speltBy hd cs
      · split at h
        · rename_i hw
          cases h
          exact scanWord_speltBy hw cs
        · cases h

/-! ## Where the scanners stop -/

/-- The position is that of a character or of the end of the characters, which begin at `p`. If it is
that of a newline then a backslash stands in front of it. -/
def Within (p : Pos) (cs : List Char) (q : Pos) : Prop :=
  ∃ front rest, cs = front ++ rest ∧ q = p.after front ∧
    (rest.head? = some '\n' → front.getLast? = some '\\')

theorem Within.append {p q : Pos} {front cs : List Char} (h : Within (p.after front) cs q) :
    Within p (front ++ cs) q := by
  obtain ⟨front', rest, rfl, rfl, hlast⟩ := h
  refine ⟨front ++ front', rest, by simp, (Pos.after_append p front front').symm, fun hhead => ?_⟩
  rw [List.getLast?_append, hlast hhead]
  rfl

theorem within_start {p : Pos} {cs : List Char} (h : cs.head? ≠ some '\n') : Within p cs p :=
  ⟨[], cs, rfl, rfl, fun hhead => absurd hhead h⟩

theorem within_escape (p : Pos) (cs : List Char) : Within p ('\\' :: cs) (p.right 1) :=
  ⟨['\\'], cs, rfl, rfl, fun _ => rfl⟩

theorem error_of_bind {ε α β : Type} {x : Except ε α} {f : α → Except ε β} {e : ε}
    (hf : ∀ a, ∃ b, f a = .ok b) (h : x >>= f = .error e) : x = .error e := by
  cases x with
  | error e' =>
    cases h
    rfl
  | ok a =>
    obtain ⟨b, hb⟩ := hf a
    simp [bind, Except.bind, hb] at h

theorem scanString_error {quote : Char} {start p : Pos} {cs : List Char} {e : SyntaxError}
    (h : scanString quote start p cs = .error e) : e.pos = start ∨ Within p cs e.pos := by
  have further {p q : Pos} {front ds : List Char} (hfront : '\n' ∉ front) {n : Nat}
      (hn : front.length = n) (h : q = start ∨ Within (p.right n) ds q) :
      q = start ∨ Within p (front ++ ds) q := by
    subst hn
    rw [Pos.right_eq_after hfront] at h
    exact h.imp_right Within.append
  fun_induction scanString quote start p cs with
  | case1 =>
    cases h
    exact .inl rfl
  | case2 p a b c d cs =>
    cases h
    exact .inr (within_escape p _)
  | case3 p a b c d cs x hx ih =>
    have hd := newline_not_mem_of_denotes (show Denotes quote _ _ from .unicode hx .nil)
    exact further hd rfl (ih (error_of_bind (fun r => ⟨_, rfl⟩) h))
  | case4 p cs =>
    cases h
    exact .inr (within_escape p _)
  | case5 p c cs =>
    cases h
    exact .inr (within_escape p _)
  | case6 p c cs _ hu x hx ih =>
    have hd := newline_not_mem_of_denotes (show Denotes quote _ _ from .escape hx .nil)
    exact further hd rfl (ih (error_of_bind (fun r => ⟨_, rfl⟩) h))
  | case7 =>
    cases h
    exact .inl rfl
  | case8 => cases h
  | case9 p cs =>
    cases h
    exact .inr (within_escape p _)
  | case10 p c cs _ _ _ hbreak hquote hslash ih =>
    have h := ih (error_of_bind (fun r => ⟨_, rfl⟩) h)
    exact h.imp_right (@Within.append _ _ [c] _)

theorem scanToken_error {p : Pos} {c : Char} {cs : List Char} {e : SyntaxError}
    (h : scanToken p c cs = .error e) (hc : isBlank c = false) : Within p (c :: cs) e.pos := by
  have hstart : Within p (c :: cs) p := by
    refine within_start fun hhead => ?_
    cases hhead
    cases hc
  unfold scanToken at h
  split at h
  · cases h
  · split at h
    · rename_i hquote
      have herror := error_of_bind (fun r => ⟨_, rfl⟩) h
      rcases scanString_error herror with he | he
      · rw [he]
        exact hstart
      · have hbreak : '\n' ∉ [c] := by rcases hquote with rfl | rfl <;> decide
        have hright : p.right 1 = p.after [c] := Pos.right_eq_after hbreak p
        rw [hright] at he
        exact he.append
    · split at h
      · cases h
      · split at h
        · cases h
        · cases h
          exact hstart

/-! ## How a text begins -/

/-- A comment with brackets is closed where they stand first, or it is never closed. -/
theorem block_cases (cs : List Char) :
    (∃ body rest, cs = body ++ '*' :: '/' :: rest ∧ ¬ ['*', '/'] <:+: body) ∨
      ∀ start p, skipTrivia (.block start) p cs = .error ⟨.unterminatedComment, start⟩ := by
  induction cs with
  | nil => exact .inr fun _ _ => rfl
  | cons c cs ih =>
    by_cases hclosed : ∃ rest, c :: cs = '*' :: '/' :: rest
    · obtain ⟨rest, hrest⟩ := hclosed
      exact .inl ⟨[], rest, hrest, by decide⟩
    · rcases ih with ⟨body, rest, rfl, hbody⟩ | herror
      · refine .inl ⟨c :: body, rest, rfl, fun hinfix => ?_⟩
        rcases List.infix_cons_iff.mp hinfix with ⟨tail, htail⟩ | hinfix
        · refine hclosed ⟨tail ++ '*' :: '/' :: rest, ?_⟩
          rw [← List.cons_append, ← htail]
          rfl
        · exact hbody hinfix
      · refine .inr fun start p => ?_
        rw [skipTrivia, herror]
        rintro ds rfl rfl
        exact hclosed ⟨ds, rfl⟩

/-- A text is empty, begins with a blank, a comment or a token, or is refused for what stands in it. -/
theorem lexemes_step (p : Pos) (cs : List Char) :
    cs = [] ∨ (∃ front rest, cs = front ++ rest ∧ IsTrivia front rest) ∨
      (∃ t front rest, cs = front ++ rest ∧ Token.SpeltBy t front rest) ∨
      ∃ e, lexemes p cs = .error e ∧ Within p cs e.pos := by
  rcases cs with _ | ⟨c, cs⟩
  · exact .inl rfl
  refine .inr ?_
  by_cases hline : ∃ ds, c :: cs = '/' :: '/' :: ds
  · obtain ⟨ds, hds⟩ := hline
    refine .inl ⟨'/' :: '/' :: ds.takeWhile (· ≠ '\n'), ds.dropWhile (· ≠ '\n'), ?_, .line ?_ ?_⟩
    · rw [hds, List.cons_append, List.cons_append, List.takeWhile_append_dropWhile]
    · exact newline_not_mem_of_all (p := (· ≠ '\n')) (by decide) List.all_takeWhile
    · intro d hd
      simpa using head?_dropWhile hd
  by_cases hblock : ∃ ds, c :: cs = '/' :: '*' :: ds
  · obtain ⟨ds, hds⟩ := hblock
    rw [hds]
    rcases block_cases ds with ⟨body, rest, rfl, hbody⟩ | herror
    · exact .inl ⟨'/' :: '*' :: (body ++ ['*', '/']), rest, by simp, .block hbody⟩
    · refine .inr (.inr ⟨⟨.unterminatedComment, p⟩, ?_, within_start (by simp)⟩)
      rw [lexemes_eq, skipTrivia, herror]
  cases hblank : isBlank c with
  | true => exact .inl ⟨[c], cs, rfl, .blank hblank⟩
  | false =>
    have hskip : skipTrivia .blank p (c :: cs) = .ok (p, c :: cs) := by
      rw [skipTrivia, hblank]
      · rfl
      · exact fun ds hc hds => hline ⟨ds, by rw [hc, hds]⟩
      · exact fun ds hc hds => hblock ⟨ds, by rw [hc, hds]⟩
    cases hscan : scanToken p c cs with
    | error e =>
      refine .inr (.inr ⟨e, ?_, scanToken_error hscan hblank⟩)
      rw [lexemes_eq, hskip]
      simp only [hscan]
    | ok s =>
      have hslash : c = '/' → cs.head? ≠ some '/' ∧ cs.head? ≠ some '*' := by
        rintro rfl
        refine ⟨fun hhead => ?_, fun hhead => ?_⟩
        · obtain ⟨ds, rfl⟩ := List.head?_eq_some_iff.mp hhead
          exact hline ⟨ds, rfl⟩
        · obtain ⟨ds, rfl⟩ := List.head?_eq_some_iff.mp hhead
          exact hblock ⟨ds, rfl⟩
      exact .inr (.inl ⟨s.token, s.spelling, s.rest, scanToken_speltBy hscan hslash⟩)

theorem ne_nil_of_isTrivia {cs rest : List Char} (h : IsTrivia cs rest) : cs ≠ [] := by
  cases h <;> exact List.cons_ne_nil _ _

/-- The lexer refuses a text for a character of it or for its end. -/
theorem within_of_lexemes {p : Pos} {cs : List Char} {e : SyntaxError}
    (h : lexemes p cs = .error e) : Within p cs e.pos := by
  induction hn : cs.length using Nat.strong_induction_on generalizing p cs with
  | _ n ih =>
    rcases lexemes_step p cs with rfl | ⟨front, rest, rfl, hfront⟩ | ⟨t, front, rest, rfl, hfront⟩ |
      ⟨e', he', hwithin⟩
    · rw [lexemes_nil] at h
      cases h
    · have hlength := List.length_pos_iff.mpr (ne_nil_of_isTrivia hfront)
      rw [List.length_append] at hn
      rw [lexemes_trivia hfront] at h
      exact (ih rest.length (by omega) h rfl).append
    · have hlength := List.length_pos_iff.mpr hfront.ne_nil
      rw [List.length_append] at hn
      rw [leads_of_speltBy hfront p, Pos.right_eq_after hfront.newline_not_mem] at h
      cases hrest : lexemes (p.after front) rest with
      | error e' =>
        rw [hrest] at h
        cases h
        exact (ih rest.length (by omega) hrest rfl).append
      | ok ls =>
        rw [hrest] at h
        cases h
    · rw [he'] at h
      cases h
      exact hwithin

/-! ## Whole texts -/

/-- A piece of a text: blanks or a comment, or the spelling of a token. -/
inductive Segment where
  | trivia (cs : List Char)
  | lexeme (t : Token) (cs : List Char)

/-- The characters of a segment. -/
def Segment.chars : Segment → List Char
  | trivia cs | lexeme _ cs => cs

/-- The segment is one in front of this text, and nothing of the text belongs to it. -/
def Segment.Fits (rest : List Char) : Segment → Prop
  | trivia cs => IsTrivia cs rest
  | lexeme t cs => t.SpeltBy cs rest

/-- Each segment fits in front of the ones behind it. -/
def Fitting : List Segment → Prop
  | [] => True
  | s :: ss => s.Fits (ss.flatMap Segment.chars) ∧ Fitting ss

/-- The tokens among the segments that stand behind some text, each where its spelling begins, and the
end of the text behind the last segment. -/
def lexemesBehind (before : List Char) : List Segment → List Lexeme
  | [] => [⟨.eof, .behind before⟩]
  | .trivia cs :: ss => lexemesBehind (before ++ cs) ss
  | .lexeme t cs :: ss => ⟨t, .behind before⟩ :: lexemesBehind (before ++ cs) ss

theorem lexemes_of_fitting {ss : List Segment} (h : Fitting ss) (before : List Char) :
    lexemes (.behind before) (ss.flatMap Segment.chars) = .ok (lexemesBehind before ss) := by
  induction ss generalizing before with
  | nil => rfl
  | cons s ss ih =>
    obtain ⟨hfits, hfitting⟩ := h
    rw [List.flatMap_cons]
    cases s with
    | trivia cs =>
      rw [Segment.chars, lexemes_trivia hfits, Pos.after_behind, ih hfitting]
      rfl
    | lexeme t cs =>
      rw [Segment.chars, leads_of_speltBy hfits, Pos.right_eq_after hfits.newline_not_mem,
        Pos.after_behind, ih hfitting]
      rfl

theorem exists_fitting {before cs : List Char} {ls : List Lexeme}
    (h : lexemes (.behind before) cs = .ok ls) :
    ∃ ss, ss.flatMap Segment.chars = cs ∧ Fitting ss ∧ ls = lexemesBehind before ss := by
  induction hn : cs.length using Nat.strong_induction_on generalizing before cs ls with
  | _ n ih =>
    rcases lexemes_step (.behind before) cs with rfl | ⟨front, rest, rfl, hfront⟩ |
      ⟨t, front, rest, rfl, hfront⟩ | ⟨e, he, -⟩
    · rw [lexemes_nil] at h
      cases h
      exact ⟨[], rfl, trivial, rfl⟩
    · have hlength := List.length_pos_iff.mpr (ne_nil_of_isTrivia hfront)
      rw [List.length_append] at hn
      rw [lexemes_trivia hfront, Pos.after_behind] at h
      obtain ⟨ss, rfl, hfitting, rfl⟩ := ih rest.length (by omega) h rfl
      exact ⟨.trivia front :: ss, rfl, ⟨hfront, hfitting⟩, rfl⟩
    · have hlength := List.length_pos_iff.mpr hfront.ne_nil
      rw [List.length_append] at hn
      rw [leads_of_speltBy hfront, Pos.right_eq_after hfront.newline_not_mem, Pos.after_behind] at h
      cases hrest : lexemes (.behind (before ++ front)) rest with
      | error e =>
        rw [hrest] at h
        cases h
      | ok ls =>
        rw [hrest] at h
        cases h
        obtain ⟨ss, rfl, hfitting, rfl⟩ := ih rest.length (by omega) hrest rfl
        exact ⟨.lexeme t front :: ss, rfl, ⟨hfront, hfitting⟩, rfl⟩
    · rw [he] at h
      cases h

/-- Every token stands where some of the text is in front of it, and in front of no newline. -/
theorem pos_of_mem_lexemesBehind {ss : List Segment} (h : Fitting ss) {before : List Char} {l : Lexeme}
    (hl : l ∈ lexemesBehind before ss) :
    ∃ front rest, ss.flatMap Segment.chars = front ++ rest ∧ l.pos = .behind (before ++ front) ∧
      rest.head? ≠ some '\n' := by
  induction ss generalizing before with
  | nil =>
    rw [List.mem_singleton.mp hl]
    exact ⟨[], [], rfl, by rw [List.append_nil], nofun⟩
  | cons s ss ih =>
    obtain ⟨hfits, hfitting⟩ := h
    have behind {cs : List Char} (hmem : l ∈ lexemesBehind (before ++ cs) ss) :
        ∃ front rest, cs ++ ss.flatMap Segment.chars = front ++ rest ∧
          l.pos = .behind (before ++ front) ∧ rest.head? ≠ some '\n' := by
      obtain ⟨front, rest, hsplit, hpos, hhead⟩ := ih hfitting hmem
      exact ⟨cs ++ front, rest, by rw [hsplit, List.append_assoc], by rw [hpos, List.append_assoc], hhead⟩
    rw [List.flatMap_cons]
    cases s with
    | trivia cs => exact behind hl
    | lexeme t cs =>
      rcases List.mem_cons.mp hl with rfl | hl
      · refine ⟨[], cs ++ ss.flatMap Segment.chars, rfl, by rw [List.append_nil], fun hhead => ?_⟩
        rw [List.head?_append_of_ne_nil _ hfits.ne_nil] at hhead
        exact hfits.newline_not_mem (List.mem_of_mem_head? hhead)
      · exact behind hl

theorem pairwise_lexemesBehind {ss : List Segment} (h : Fitting ss) (before : List Char) :
    ((lexemesBehind before ss).map Lexeme.pos).Pairwise Pos.Before := by
  induction ss generalizing before with
  | nil => exact List.pairwise_singleton _ _
  | cons s ss ih =>
    obtain ⟨hfits, hfitting⟩ := h
    cases s with
    | trivia cs => exact ih hfitting _
    | lexeme t cs =>
      rw [lexemesBehind, List.map_cons, List.pairwise_cons]
      refine ⟨fun q hq => ?_, ih hfitting _⟩
      obtain ⟨l, hl, rfl⟩ := List.mem_map.mp hq
      obtain ⟨front, -, -, hpos, -⟩ := pos_of_mem_lexemesBehind hfitting hl
      rw [hpos, List.append_assoc, ← Pos.after_behind]
      exact Pos.before_after (List.append_ne_nil_of_left_ne_nil hfits.ne_nil _) _

theorem lexemesBehind_eq_concat {ss : List Segment} (h : Fitting ss) (before : List Char) :
    ∃ ls, lexemesBehind before ss = ls ++ [⟨.eof, .behind (before ++ ss.flatMap Segment.chars)⟩] ∧
      ∀ l ∈ ls, l.token ≠ .eof := by
  induction ss generalizing before with
  | nil => exact ⟨[], by simp [lexemesBehind], List.forall_mem_nil _⟩
  | cons s ss ih =>
    obtain ⟨hfits, hfitting⟩ := h
    rw [List.flatMap_cons, ← List.append_assoc]
    obtain ⟨ls, hls, htokens⟩ := ih hfitting (before ++ s.chars)
    cases s with
    | trivia cs => exact ⟨ls, hls, htokens⟩
    | lexeme t cs =>
      refine ⟨⟨t, .behind before⟩ :: ls, ?_, List.forall_mem_cons.mpr ⟨hfits.ne_eof, htokens⟩⟩
      rw [lexemesBehind, List.cons_append]
      exact congrArg _ hls

/-- The lexer accepts just the texts that are blanks, comments and spellings of tokens, each as long as
it can be, and it gives the tokens that are spelt, with the line and the column of their first
characters. Each stands behind the one in front of it, and the end of the text is the last one and no
other. -/
theorem tokens_are_segments (source : List Char) (ls : List Lexeme) :
    tokenize source = .ok ls ↔
      ∃ segments : List Segment, segments.flatMap Segment.chars = source ∧ Fitting segments ∧
        ls = lexemesBehind [] segments ∧ (ls.map Lexeme.pos).Pairwise Pos.Before ∧
        ∃ tokens, ls = tokens ++ [⟨.eof, .behind source⟩] ∧ ∀ l ∈ tokens, l.token ≠ .eof := by
  rw [tokenize_eq, ← Pos.behind_nil]
  constructor
  · intro h
    obtain ⟨segments, rfl, hfitting, rfl⟩ := exists_fitting h
    exact ⟨segments, rfl, hfitting, rfl, pairwise_lexemesBehind hfitting [],
      lexemesBehind_eq_concat hfitting []⟩
  · rintro ⟨segments, rfl, hfitting, rfl, -⟩
    exact lexemes_of_fitting hfitting []

example : (tokenize "a // b\n/* c\n */ 'd'".toList).toOption.map (·.map Lexeme.pos) =
    some [⟨1, 1⟩, ⟨3, 5⟩, ⟨3, 8⟩] := by
  decide +kernel

end Hotload.Syntax
