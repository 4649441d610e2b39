import Mathlib
import Hotload.Syntax.Parser
import Hotload.Syntax.Literal
import Hotload.Proofs.Number.Literal

/-!
# The tokens of a text

The lexer bounds the number of tokens by the number of characters. Here the bound goes: the tokens
of a text satisfy equations in the text alone, and each kind of token has a lemma that says what
has to follow its spelling for it to be read back.

* `lexemes`: the tokens of some characters from a position on.
* `Leads`: some characters begin with a token.
* `leads_word`, `leads_numeral`, `leads_quote`, `leads_mark`: the spellings of the tokens.
* `Denotes`: what stands between the quotes of a string literal.
* `tokenize_quote`: string literals are read back.
-/

namespace Hotload.Syntax

open Hotload.Text (isBlank isAlphabetic isAlphanumeric)
open Hotload.Number (AllDigits numeralOf)

/-! ## Scanners take characters off the front -/

theorem skipTrivia_length {t : Trivia} {p p' : Pos} {cs ds : List Char}
    (h : skipTrivia t p cs = .ok (p', ds)) : ds.length ≤ cs.length := by
  fun_induction skipTrivia t p cs with
  | case1 => simp at h
  | case2 => simp_all
  | _ => first
    | (rename_i ih; have := ih h; simp only [List.length_cons]; omega)
    | (cases h; simp)

theorem rest_of_bind {m : Except SyntaxError (List Char × List Char × List Char)}
    {k : List Char × List Char × List Char → Except SyntaxError (List Char × List Char × List Char)}
    {value spelling rest : List Char} (hk : ∀ r, ∃ v s, k r = .ok (v, s, r.2.2))
    (h : m >>= k = .ok (value, spelling, rest)) : ∃ v s, m = .ok (v, s, rest) := by
  cases m with
  | error e => simp [bind, Except.bind] at h
  | ok r =>
    obtain ⟨v, s, hr⟩ := hk r
    simp only [bind, Except.bind, hr, Except.ok.injEq, Prod.mk.injEq] at h
    obtain ⟨-, -, rfl⟩ := h
    exact ⟨r.1, r.2.1, rfl⟩

theorem scanString_length {quote : Char} {start p : Pos} {cs value spelling rest : List Char}
    (h : scanString quote start p cs = .ok (value, spelling, rest)) :
    rest.length < cs.length := by
  fun_induction scanString quote start p cs generalizing value spelling rest with
  | case3 =>
    rename_i ih
    obtain ⟨v, s, hr⟩ := rest_of_bind (fun r => ⟨_, _, rfl⟩) h
    have := ih hr
    simp only [List.length_cons]
    omega
  | case6 =>
    rename_i ih
    obtain ⟨v, s, hr⟩ := rest_of_bind (fun r => ⟨_, _, rfl⟩) h
    have := ih hr
    simp only [List.length_cons]
    omega
  | case8 =>
    simp only [Except.ok.injEq, Prod.mk.injEq] at h
    obtain ⟨-, -, rfl⟩ := h
    simp
  | case10 =>
    rename_i ih
    obtain ⟨v, s, hr⟩ := rest_of_bind (fun r => ⟨_, _, rfl⟩) h
    have := ih hr
    simp only [List.length_cons]
    omega
  | _ => simp at h

/-- A mark begins with a character that begins no word and no number, and takes it off. -/
theorem scanMark?_found {cs : List Char} {s : Scanned} (h : scanMark? cs = some s) :
    (∃ m, s.token = .mark m) ∧ ∃ c ds, cs = c :: ds ∧ isWordStart c = false ∧
      c.isDigit = false ∧ s.rest.length ≤ ds.length := by
  unfold scanMark? at h
  split at h <;> cases h
  all_goals
    refine ⟨⟨_, rfl⟩, _, _, rfl, by decide, by decide, ?_⟩
    simp only [List.length_cons]
    omega

theorem scanMark?_length {cs : List Char} {s : Scanned} (h : scanMark? cs = some s) :
    s.rest.length < cs.length := by
  obtain ⟨-, c, ds, rfl, -, -, hlength⟩ := scanMark?_found h
  exact Nat.lt_succ_of_le hlength

theorem dropWhile_cons_length {p : Char → Bool} {c : Char} (h : p c = true) (cs : List Char) :
    ((c :: cs).dropWhile p).length ≤ cs.length := by
  rw [List.dropWhile_cons_of_pos h]
  exact List.length_dropWhile_le p cs

theorem scanNumber_length {c : Char} (h : c.isDigit = true) (cs : List Char) :
    (scanNumber (c :: cs)).rest.length ≤ cs.length := by
  have hc : isNumberPart c = true := by simp [isNumberPart, h]
  have hrest := dropWhile_cons_length hc cs
  unfold scanNumber
  simp only []
  split
  · rename_i d ds hdrop
    split
    · rename_i hd
      rw [hdrop] at hrest
      have hp : isNumberPart d = true := by simp [isNumberPart, hd]
      have := dropWhile_cons_length hp ds
      simp only [List.length_cons] at hrest
      exact Nat.le_trans this (by omega)
    · exact hrest
  · exact hrest

theorem scanToken_length {p : Pos} {c : Char} {cs : List Char} {s : Scanned}
    (h : scanToken p c cs = .ok s) : s.rest.length ≤ cs.length := by
  unfold scanToken at h
  split at h
  · rename_i scanned hm
    have := scanMark?_length hm
    cases h
    simp only [List.length_cons] at this
    omega
  · split at h
    · cases hr : scanString c p (p.right 1) cs with
      | error e => simp [hr, bind, Except.bind] at h
      | ok r =>
        have := scanString_length hr
        simp only [hr, bind, Except.bind, Except.ok.injEq] at h
        rw [← h]
        exact Nat.le_of_lt this
    · split at h
      · rename_i hd
        cases h
        exact scanNumber_length hd cs
      · split at h
        · rename_i hw
          cases h
          have hp : isWordPart c = true := by
            simp only [isWordStart, isWordPart, isAlphanumeric, Bool.or_eq_true] at hw ⊢
            tauto
          exact dropWhile_cons_length hp cs
        · simp at h

/-! ## Tokens without a bound -/

/-- The tokens of some characters from a position on, the end of the text as the last one. -/
def lexemes (p : Pos) (cs : List Char) : Except SyntaxError (List Lexeme) :=
  tokensFrom (cs.length + 1) [] p cs

theorem tokensFrom_found (bound : Nat) (found : List Lexeme) (p : Pos) (cs : List Char) :
    tokensFrom bound found p cs = (tokensFrom bound [] p cs).map (found.reverse ++ ·) := by
  induction bound generalizing found p cs with
  | zero => rfl
  | succ bound ih =>
    unfold tokensFrom
    cases skipTrivia .blank p cs with
    | error e => rfl
    | ok r =>
      obtain ⟨p', cs'⟩ := r
      cases cs' with
      | nil => rfl
      | cons c cs' =>
        simp only [bind, Except.bind]
        cases scanToken p' c cs' with
        | error e => rfl
        | ok s =>
          simp only []
          rw [ih (_ :: found), ih [_]]
          cases tokensFrom bound [] (p'.right s.spelling.length) s.rest with
          | error e => rfl
          | ok ls => simp [Except.map]

theorem tokensFrom_bound {bound : Nat} {cs : List Char} (h : cs.length < bound)
    (found : List Lexeme) (p : Pos) :
    tokensFrom bound found p cs = tokensFrom (cs.length + 1) found p cs := by
  induction bound using Nat.strong_induction_on generalizing found p cs with
  | _ bound ih =>
    obtain ⟨b, rfl⟩ : ∃ b, bound = b + 1 := ⟨bound - 1, by omega⟩
    unfold tokensFrom
    cases hs : skipTrivia .blank p cs with
    | error e => rfl
    | ok r =>
      obtain ⟨p', cs'⟩ := r
      cases cs' with
      | nil => rfl
      | cons c cs' =>
        simp only [bind, Except.bind]
        cases ht : scanToken p' c cs' with
        | error e => rfl
        | ok s =>
          have h1 := skipTrivia_length hs
          have h2 := scanToken_length ht
          simp only [List.length_cons] at h1
          simp only []
          rw [ih b (by omega) (by omega)]
          by_cases hb : cs.length < b
          · rw [ih cs.length (by omega) (by omega)]
          · rw [ih cs.length (by omega) (by omega)]

/-- The tokens of a text, one at a time. -/
theorem lexemes_eq (p : Pos) (cs : List Char) :
    lexemes p cs =
      match skipTrivia .blank p cs with
      | .error e => .error e
      | .ok (p, []) => .ok [⟨.eof, p⟩]
      | .ok (p, c :: cs) =>
        match scanToken p c cs with
        | .error e => .error e
        | .ok s => (lexemes (p.right s.spelling.length) s.rest).map (⟨s.token, p⟩ :: ·) := by
  rw [lexemes, tokensFrom]
  cases hs : skipTrivia .blank p cs with
  | error e => rfl
  | ok r =>
    obtain ⟨p', cs'⟩ := r
    cases cs' with
    | nil => rfl
    | cons c cs' =>
      simp only [bind, Except.bind]
      cases ht : scanToken p' c cs' with
      | error e => rfl
      | ok s =>
        have h1 := skipTrivia_length hs
        have h2 := scanToken_length ht
        simp only [List.length_cons] at h1
        simp only [lexemes]
        have hbound : s.rest.length < cs.length := by omega
        rw [tokensFrom_found, tokensFrom_bound hbound]
        rfl

theorem tokenize_eq (source : List Char) : tokenize source = lexemes .start source := rfl

/-- The characters begin with the token, and the rest follows its spelling of `n` characters. -/
def Leads (t : Token) (n : Nat) (cs rest : List Char) : Prop :=
  ∀ p, lexemes p cs = (lexemes (p.right n) rest).map (⟨t, p⟩ :: ·)

theorem lexemes_blank {c : Char} (h : isBlank c = true) (p : Pos) (cs : List Char) :
    lexemes p (c :: cs) = lexemes (p.next c) cs := by
  have hc : c ≠ '/' := by
    rintro rfl
    exact absurd h (by decide)
  have hs : skipTrivia .blank p (c :: cs) = skipTrivia .blank (p.next c) cs := by
    rw [skipTrivia.eq_5 _ _ _ (by simp [hc]) (by simp [hc]), if_pos h]
  rw [lexemes_eq, lexemes_eq (p.next c), hs]

theorem lexemes_nil (p : Pos) : lexemes p [] = .ok [⟨.eof, p⟩] := rfl

theorem leads_of_scan {t : Token} {c : Char} {cs w rest : List Char} (hb : isBlank c = false)
    (hc : c = '/' → cs.head? ≠ some '/' ∧ cs.head? ≠ some '*')
    (hs : ∀ p, scanToken p c cs = .ok ⟨t, w, rest⟩) : Leads t w.length (c :: cs) rest := by
  intro p
  have h1 : ∀ ds, c = '/' → cs = '/' :: ds → False := by
    rintro ds h rfl
    exact (hc h).1 rfl
  have h2 : ∀ ds, c = '/' → cs = '*' :: ds → False := by
    rintro ds h rfl
    exact (hc h).2 rfl
  have ht : skipTrivia .blank p (c :: cs) = .ok (p, c :: cs) := by
    rw [skipTrivia.eq_5 _ _ _ h1 h2, hb]
    rfl
  rw [lexemes_eq, ht]
  simp only [hs]

/-! ## Marks -/

/-- The text after a mark does not continue it to another token. -/
def Mark.EndsBefore : Mark → List Char → Prop
  | .assign, rest | .bang, rest | .lt, rest | .gt, rest | .eq, rest | .notEq, rest =>
    rest.head? ≠ some '='
  | .slash, rest => rest.head? ≠ some '/' ∧ rest.head? ≠ some '*'
  | _, _ => True

theorem scanMark?_spelling (m : Mark) {rest : List Char} (h : m.EndsBefore rest) :
    scanMark? (m.spelling.toList ++ rest) = some ⟨.mark m, m.spelling.toList, rest⟩ := by
  cases m <;> first
    | rfl
    | (cases rest with
        | nil => rfl
        | cons d rest =>
          have hd : d ≠ '=' := fun hd => h (by rw [hd]; rfl)
          simp [Mark.spelling, scanMark?, hd])

theorem leads_mark (m : Mark) {rest : List Char} (h : m.EndsBefore rest) :
    Leads (.mark m) m.spelling.toList.length (m.spelling.toList ++ rest) rest := by
  have hm := scanMark?_spelling m h
  obtain ⟨c, cs, hs⟩ : ∃ c cs, m.spelling.toList = c :: cs := by
    cases m <;> exact ⟨_, _, rfl⟩
  have hb : isBlank c = false := by
    cases m <;> simp [Mark.spelling] at hs <;> obtain ⟨rfl, rfl⟩ := hs <;> rfl
  have hc : c = '/' → (cs ++ rest).head? ≠ some '/' ∧ (cs ++ rest).head? ≠ some '*' := by
    rintro rfl
    cases m <;> simp [Mark.spelling] at hs
    subst hs
    exact h
  rw [hs, List.cons_append] at hm ⊢
  refine leads_of_scan (w := c :: cs) hb hc fun p => ?_
  unfold scanToken
  rw [hm]

/-! ## Words -/

theorem inRanges_mem {n : Nat} {ranges : List (Nat × Nat)} (h : Text.inRanges n ranges = true) :
    ∃ r ∈ ranges, r.1 ≤ n ∧ n ≤ r.2 := by
  induction ranges with
  | nil => simp [Text.inRanges] at h
  | cons r ranges ih =>
    obtain ⟨lo, hi⟩ := r
    rw [Text.inRanges] at h
    split at h
    · simp at h
    · split at h
      · exact ⟨(lo, hi), List.mem_cons_self, by omega, by assumption⟩
      · obtain ⟨r, hr, hn⟩ := ih h
        exact ⟨r, List.mem_cons_of_mem _ hr, hn⟩

theorem isBlank_of_isWordStart {c : Char} (h : isWordStart c = true) : isBlank c = false := by
  have hranges : ∀ r ∈ Text.blankRanges, ∀ k < r.2 + 1 - r.1,
      Text.inRanges (r.1 + k) Text.alphabeticRanges = false := by
    set_option maxRecDepth 20000 in decide
  rw [Bool.eq_false_iff]
  intro hb
  obtain ⟨r, hr, hlo, hhi⟩ := inRanges_mem hb
  have ha := hranges r hr (c.toNat - r.1) (by omega)
  rw [show r.1 + (c.toNat - r.1) = c.toNat by omega] at ha
  simp only [isWordStart, isAlphabetic, ha, Bool.false_or, Bool.or_eq_true,
    decide_eq_true_eq] at h
  rcases h with rfl | rfl <;> exact absurd hb (by decide)

theorem scanMark?_of_isWordStart {c : Char} (h : isWordStart c = true) (cs : List Char) :
    scanMark? (c :: cs) = none := by
  rw [Option.eq_none_iff_forall_ne_some]
  intro s hs
  obtain ⟨-, d, ds, hcs, hword, -⟩ := scanMark?_found hs
  cases hcs
  rw [h] at hword
  cases hword

theorem isWordStart_of_isDigit {c : Char} (h : c.isDigit = true) : isWordStart c = false := by
  have hdigits : ∀ k < 10, Text.inRanges (48 + k) Text.alphabeticRanges = false := by
    decide
  have hc : 48 ≤ c.toNat ∧ c.toNat ≤ 57 := Char.isDigit_iff_toNat.mp h
  have ha := hdigits (c.toNat - 48) (by omega)
  rw [show 48 + (c.toNat - 48) = c.toNat by omega] at ha
  simp only [isWordStart, isAlphabetic, ha, Bool.false_or, Bool.or_eq_false_iff,
    decide_eq_false_iff_not]
  constructor <;> rintro rfl <;> simp at hc

/-- The text after a word does not continue it. -/
def EndsWord (rest : List Char) : Prop := ∀ c, rest.head? = some c → isWordPart c = false

theorem span_of_all {p : Char → Bool} {w rest : List Char} (hw : w.all p = true)
    (hr : ∀ c, rest.head? = some c → p c = false) :
    (w ++ rest).takeWhile p = w ∧ (w ++ rest).dropWhile p = rest := by
  rw [List.takeWhile_append_of_pos (by simpa using hw),
    List.dropWhile_append_of_pos (by simpa using hw)]
  cases rest with
  | nil => simp
  | cons c rest => simp [hr c rfl]

theorem isWordPart_of_isWordStart {c : Char} (h : isWordStart c = true) :
    isWordPart c = true := by
  simp only [isWordStart, isWordPart, isAlphanumeric, Bool.or_eq_true] at h ⊢
  tauto

theorem all_of_isIdentifier {cs : List Char} (h : isIdentifier cs = true) :
    cs.all isWordPart = true := by
  cases cs with
  | nil => rfl
  | cons c cs =>
    rw [isIdentifier, Bool.and_eq_true] at h
    rw [List.all_cons, isWordPart_of_isWordStart h.1, h.2]
    rfl

theorem leads_word {w rest : List Char} (hw : isIdentifier w = true) (hr : EndsWord rest) :
    Leads (Token.ofWord (String.ofList w)) w.length (w ++ rest) rest := by
  cases w with
  | nil => simp [isIdentifier] at hw
  | cons c cs =>
    have hc : isWordStart c = true := by
      rw [isIdentifier, Bool.and_eq_true] at hw
      exact hw.1
    obtain ⟨htake, hdrop⟩ := span_of_all (all_of_isIdentifier hw) hr
    have hquote : ¬ (c = '"' ∨ c = '\'') := by
      rintro (rfl | rfl) <;> exact absurd hc (by decide)
    have hdigit : ¬ c.isDigit = true := by
      intro hd
      rw [isWordStart_of_isDigit hd] at hc
      exact absurd hc (by decide)
    have hslash : c ≠ '/' := by
      rintro rfl
      exact absurd hc (by decide)
    refine leads_of_scan (w := c :: cs) (isBlank_of_isWordStart hc) (fun h => absurd h hslash)
      fun p => ?_
    unfold scanToken
    rw [scanMark?_of_isWordStart hc]
    simp only [if_neg hquote, if_neg hdigit, if_pos hc]
    rw [scanWord, show c :: cs.append rest = c :: cs ++ rest from rfl, htake, hdrop]

/-! ## Numbers -/

/-- The text after a number does not continue it. -/
def EndsNumber (rest : List Char) : Prop :=
  (∀ c, rest.head? = some c → isNumberPart c = false) ∧
    ∀ d ds, rest = '.' :: d :: ds → d.isDigit = false

/-- A digit, and digits and underscores behind it. -/
def IsDigitRun : List Char → Prop
  | [] => False
  | d :: ds => d.isDigit = true ∧ ds.all isNumberPart = true

theorem isDigitRun_of_allDigits {ds : List Char} (hne : ds ≠ []) (h : AllDigits ds) :
    IsDigitRun ds := by
  obtain ⟨d, ds, rfl⟩ := List.exists_cons_of_ne_nil hne
  refine ⟨h d List.mem_cons_self, List.all_eq_true.mpr fun c hc => ?_⟩
  rw [isNumberPart, h c (List.mem_cons_of_mem _ hc)]
  rfl

theorem all_of_isDigitRun {cs : List Char} (h : IsDigitRun cs) : cs.all isNumberPart = true := by
  cases cs with
  | nil => exact h.elim
  | cons d ds =>
    have hd : isNumberPart d = true := by simp [isNumberPart, h.1]
    rw [List.all_cons, hd, h.2]
    rfl

theorem scanNumber_whole {cs rest : List Char} (h : IsDigitRun cs) (hrest : EndsNumber rest) :
    scanNumber (cs ++ rest) = ⟨.num (Number.ofDigits false (cs.filter Char.isDigit) [] 0), cs, rest⟩ := by
  obtain ⟨hpart, hpoint⟩ := hrest
  obtain ⟨htake, hdrop⟩ := span_of_all (all_of_isDigitRun h) hpart
  rw [scanNumber]
  simp only [htake, hdrop]
  split
  · rename_i d ds
    rw [if_neg (by rw [hpoint d ds rfl]; decide)]
  · rfl

theorem scanNumber_fraction {cs ds rest : List Char} (h : IsDigitRun cs) (hd : IsDigitRun ds)
    (hrest : ∀ c, rest.head? = some c → isNumberPart c = false) :
    scanNumber (cs ++ ('.' :: ds ++ rest)) =
      ⟨.num (Number.ofDigits false (cs.filter Char.isDigit) (ds.filter Char.isDigit) 0),
        cs ++ '.' :: ds, rest⟩ := by
  have hdot : ∀ c, ('.' :: ds ++ rest).head? = some c → isNumberPart c = false := by
    intro c hc
    cases hc
    rfl
  obtain ⟨htake, hdrop⟩ := span_of_all (all_of_isDigitRun h) hdot
  obtain ⟨hdtake, hddrop⟩ := span_of_all (all_of_isDigitRun hd) hrest
  cases ds with
  | nil => exact hd.elim
  | cons d ds =>
    rw [scanNumber]
    simp only [List.cons_append] at htake hdrop hdtake hddrop ⊢
    simp only [htake, hdrop, if_pos hd.1, hdtake, hddrop]

theorem scanMark?_of_isDigit {c : Char} (h : c.isDigit = true) (cs : List Char) :
    scanMark? (c :: cs) = none := by
  rw [Option.eq_none_iff_forall_ne_some]
  intro s hs
  obtain ⟨-, d, ds, hcs, -, hdigit, -⟩ := scanMark?_found hs
  cases hcs
  rw [h] at hdigit
  cases hdigit

theorem isBlank_of_isDigit {c : Char} (h : c.isDigit = true) : isBlank c = false := by
  have hranges : ∀ k < 10, Text.inRanges (48 + k) Text.blankRanges = false := by decide
  have hc : 48 ≤ c.toNat ∧ c.toNat ≤ 57 := Char.isDigit_iff_toNat.mp h
  have ha := hranges (c.toNat - 48) (by omega)
  rwa [show 48 + (c.toNat - 48) = c.toNat by omega] at ha

theorem leads_of_scanNumber {c : Char} {cs w rest : List Char} {t : Token} (hc : c.isDigit = true)
    (h : scanNumber (c :: cs) = ⟨t, w, rest⟩) : Leads t w.length (c :: cs) rest := by
  have hquote : ¬ (c = '"' ∨ c = '\'') := by
    rintro (rfl | rfl) <;> exact absurd hc (by decide)
  have hslash : c ≠ '/' := by
    rintro rfl
    exact absurd hc (by decide)
  refine leads_of_scan (isBlank_of_isDigit hc) (fun he => absurd he hslash) fun p => ?_
  rw [scanToken, scanMark?_of_isDigit hc]
  simp only [if_neg hquote, if_pos hc, h]

theorem leads_whole {cs rest : List Char} (h : IsDigitRun cs) (hrest : EndsNumber rest) :
    Leads (.num (Number.ofDigits false (cs.filter Char.isDigit) [] 0)) cs.length (cs ++ rest) rest := by
  have hscan := scanNumber_whole h hrest
  cases cs with
  | nil => exact h.elim
  | cons c cs => exact leads_of_scanNumber h.1 hscan

theorem leads_fraction {cs ds rest : List Char} (h : IsDigitRun cs) (hd : IsDigitRun ds)
    (hrest : ∀ c, rest.head? = some c → isNumberPart c = false) :
    Leads (.num (Number.ofDigits false (cs.filter Char.isDigit) (ds.filter Char.isDigit) 0))
      (cs ++ '.' :: ds).length (cs ++ '.' :: ds ++ rest) rest := by
  have hscan := scanNumber_fraction h hd hrest
  rw [← List.append_assoc] at hscan
  cases cs with
  | nil => exact h.elim
  | cons c cs => exact leads_of_scanNumber h.1 hscan

theorem leads_numeralOf {whole fraction rest : List Char} (hne : whole ≠ [])
    (hw : AllDigits whole) (hf : AllDigits fraction) (hr : EndsNumber rest) :
    Leads (.num (Number.ofDigits false whole fraction 0)) (numeralOf whole fraction).length
      (numeralOf whole fraction ++ rest) rest := by
  have hwhole : whole.filter Char.isDigit = whole := List.filter_eq_self.mpr hw
  have hrun := isDigitRun_of_allDigits hne hw
  by_cases hnil : fraction = []
  · have hleads := leads_whole hrun hr
    rw [hwhole] at hleads
    rwa [hnil, numeralOf, if_pos rfl, List.append_nil]
  · have hleads := leads_fraction hrun (isDigitRun_of_allDigits hnil hf) hr.1
    rw [hwhole, List.filter_eq_self.mpr hf] at hleads
    rwa [numeralOf, if_neg hnil]

/-- The token that the numeral of a number literal spells: beyond the doubles it is a word. -/
def numberToken (x : Float) : Token :=
  if Number.isFinite x then .num x else .ident "inf"

theorem leads_numeral {bits : Nat} {rest : List Char} (h : bits ≤ Number.infinityBits)
    (hn : EndsNumber rest) (hw : EndsWord rest) :
    Leads (numberToken (Number.ofMagnitude false bits))
      (numeral (Number.ofMagnitude false bits)).length
      (numeral (Number.ofMagnitude false bits) ++ rest) rest := by
  by_cases hb : bits < Number.infinityBits
  · obtain ⟨whole, fraction, hne, hwhole, hfraction, hd, hx⟩ := Number.display_digits hb
    have hfin : Number.isFinite (Number.ofMagnitude false bits) = true := by
      obtain ⟨mant, exp, -, -, hparts⟩ := Number.ofFloat_ofMagnitude hb
      rw [Number.isFinite, hparts]
    rw [numberToken, if_pos hfin, numeral, hd, ← hx]
    exact leads_numeralOf hne hwhole hfraction hn
  · obtain rfl : bits = Number.infinityBits := by omega
    have hfin : ¬ Number.isFinite (Number.ofMagnitude false Number.infinityBits) = true := by
      rw [Number.isFinite, Number.ofFloat_ofMagnitude_infinity]
      decide
    rw [numberToken, if_neg hfin, numeral, Number.display_infinity]
    exact leads_word (w := "inf".toList) (by decide) hw

/-! ## Strings -/

theorem unicodeEscape?_hex4 {c : Char} (h : Text.isControl c = true) :
    ∃ a b d e, hex4 c.toNat = [a, b, d, e] ∧ unicodeEscape? a b d e = some c := by
  have hall : ∀ n < 160, unicodeEscape? (Nat.digitChar (n / 4096 % 16))
      (Nat.digitChar (n / 256 % 16)) (Nat.digitChar (n / 16 % 16)) (Nat.digitChar (n % 16))
        = some (Char.ofNat n) := by
    set_option maxRecDepth 20000 in decide
  have hc : c.toNat < 160 := by
    simp only [Text.isControl, Bool.or_eq_true, Bool.and_eq_true, decide_eq_true_eq] at h
    omega
  refine ⟨_, _, _, _, rfl, ?_⟩
  rw [hall c.toNat hc, Char.ofNat_toNat]

/-- A line break is no hexadecimal digit. -/
theorem unicodeEscape?_break {a b c d : Char} (h : '\n' ∈ [a, b, c, d]) :
    unicodeEscape? a b c d = none := by
  have hbreak : Number.hexDigit? '\n' = none := by decide
  simp only [List.mem_cons, List.not_mem_nil, or_false] at h
  unfold unicodeEscape?
  rcases h with rfl | rfl | rfl | rfl
  · rw [hbreak]
    rfl
  · rw [hbreak]
    cases Number.hexDigit? a <;> rfl
  · rw [hbreak]
    cases Number.hexDigit? a <;> cases Number.hexDigit? b <;> rfl
  · rw [hbreak]
    cases Number.hexDigit? a <;> cases Number.hexDigit? b <;> cases Number.hexDigit? c <;> rfl

/-- The characters between the quotes of a string literal denote the text. -/
inductive Denotes (quote : Char) : List Char → List Char → Prop
  | nil : Denotes quote [] []
  | plain {c : Char} {inside value : List Char} (hbreak : c ≠ '\n') (hquote : c ≠ quote)
      (hslash : c ≠ '\\') (h : Denotes quote inside value) : Denotes quote (c :: inside) (c :: value)
  | escape {x c : Char} {inside value : List Char} (hx : simpleEscape? x = some c)
      (h : Denotes quote inside value) : Denotes quote ('\\' :: x :: inside) (c :: value)
  | unicode {a b c d x : Char} {inside value : List Char} (hx : unicodeEscape? a b c d = some x)
      (h : Denotes quote inside value) :
      Denotes quote ('\\' :: 'u' :: a :: b :: c :: d :: inside) (x :: value)

theorem scanString_denotes {quote : Char} {inside value : List Char}
    (hquote : quote = '"' ∨ quote = '\'') (h : Denotes quote inside value) (start p : Pos)
    (rest : List Char) :
    scanString quote start p (inside ++ quote :: rest) = .ok (value, inside ++ [quote], rest) := by
  induction h generalizing p with
  | nil => rcases hquote with rfl | rfl <;> rfl
  | plain hbreak hne hslash h ih =>
    simp [scanString, hbreak, hne, hslash, ih, bind, Except.bind]
  | @escape x c inside value hx h ih =>
    have hu : x ≠ 'u' := by
      rintro rfl
      cases hx
    simp [scanString, hx, hu, ih, bind, Except.bind]
  | unicode hx h ih => simp [scanString, hx, ih, bind, Except.bind]

/-- Either quote may be used. -/
theorem leads_literal {quote : Char} {inside value : List Char} (hquote : quote = '"' ∨ quote = '\'')
    (h : Denotes quote inside value) (rest : List Char) :
    Leads (.str (String.ofList value)) (quote :: (inside ++ [quote])).length
      (quote :: (inside ++ [quote]) ++ rest) rest := by
  have hblank : isBlank quote = false := by rcases hquote with rfl | rfl <;> decide
  have hslash : quote ≠ '/' := by rcases hquote with rfl | rfl <;> decide
  have hmark (ds : List Char) : scanMark? (quote :: ds) = none := by
    rcases hquote with rfl | rfl <;> rfl
  rw [List.cons_append, List.append_assoc]
  refine leads_of_scan (w := quote :: (inside ++ [quote])) hblank (fun he => absurd he hslash)
    fun p => ?_
  rw [scanToken, hmark]
  simp only [if_pos hquote]
  rw [List.singleton_append, scanString_denotes hquote h]
  rfl

/-- The escapes that are printed denote the characters that they are printed for. -/
theorem denotes_quote (cs : List Char) : Denotes '"' (cs.flatMap quoteChar) cs := by
  induction cs with
  | nil => exact .nil
  | cons c cs ih =>
    rw [List.flatMap_cons]
    by_cases hquote : c = '"'
    · rw [hquote]
      exact .escape rfl ih
    by_cases hslash : c = '\\'
    · rw [hslash]
      exact .escape rfl ih
    by_cases hbreak : c = '\n'
    · rw [hbreak]
      exact .escape rfl ih
    by_cases hreturn : c = '\r'
    · rw [hreturn]
      exact .escape rfl ih
    by_cases htab : c = '\t'
    · rw [htab]
      exact .escape rfl ih
    rw [quoteChar, if_neg hquote, if_neg hslash, if_neg hbreak, if_neg hreturn, if_neg htab]
    split
    · rename_i hcontrol
      obtain ⟨a, b, d, e, hhex, hx⟩ := unicodeEscape?_hex4 hcontrol
      rw [hhex]
      exact .unicode hx ih
    · exact .plain hbreak hquote hslash ih

/-- A string literal reads back as its text. -/
theorem leads_quote (s : String) (rest : List Char) :
    Leads (.str s) (quote s.toList).length (quote s.toList ++ rest) rest := by
  have h := leads_literal (.inl rfl) (denotes_quote s.toList) rest
  rwa [String.ofList_toList] at h

/-- The literal of a text is a token of its own, whatever characters there are in the text. -/
theorem tokenize_quote (s : String) :
    tokenize (quote s.toList) =
      .ok [⟨.str s, .start⟩, ⟨.eof, Pos.start.right (quote s.toList).length⟩] := by
  have h := leads_quote s [] .start
  rw [List.append_nil, lexemes_nil] at h
  rw [tokenize_eq, h]
  rfl

example : quote "\x7f".toList = "\"\\u007f\"".toList := by
  decide

/-! ## What tokens carry -/

/-- The word is an identifier and no keyword. -/
def IsName (name : String) : Prop :=
  isIdentifier name.toList = true ∧ Keyword.ofWord? name = none

/-- The number is one that a numeral denotes: it has no sign. -/
def IsMagnitude (x : Float) : Prop :=
  ∃ bits ≤ Number.infinityBits, x = Number.ofMagnitude false bits

/-- What the lexer promises of a token. -/
def Token.Lexical : Token → Prop
  | .ident name => IsName name
  | .num x => IsMagnitude x
  | _ => True

theorem isMagnitude_ofMagnitude (bits : Nat) : IsMagnitude (Number.ofMagnitude false bits) := by
  refine ⟨min bits Number.infinityBits, Nat.min_le_right _ _, ?_⟩
  unfold Number.ofMagnitude
  rw [Nat.min_assoc, Nat.min_self]

theorem isMagnitude_ofDigits (whole fraction : List Char) (exp : Int) :
    IsMagnitude (Number.ofDigits false whole fraction exp) := by
  unfold Number.ofDigits Number.ofDecimal Number.nearest
  split
  · exact isMagnitude_ofMagnitude _
  · split
    · exact isMagnitude_ofMagnitude _
    · split
      · exact isMagnitude_ofMagnitude _
      · split <;> exact isMagnitude_ofMagnitude _

theorem scanNumber_lexical (cs : List Char) : (scanNumber cs).token.Lexical := by
  unfold scanNumber
  simp only []
  split
  · split <;> exact isMagnitude_ofDigits _ _ _
  · exact isMagnitude_ofDigits _ _ _

theorem scanMark?_lexical {cs : List Char} {s : Scanned} (h : scanMark? cs = some s) :
    s.token.Lexical := by
  obtain ⟨⟨m, hm⟩, -⟩ := scanMark?_found h
  rw [hm]
  trivial

theorem scanWord_lexical {c : Char} (h : isWordStart c = true) (cs : List Char) :
    (scanWord (c :: cs)).token.Lexical := by
  have hid : isIdentifier ((c :: cs).takeWhile isWordPart) = true := by
    rw [List.takeWhile_cons_of_pos (isWordPart_of_isWordStart h)]
    simp only [isIdentifier, h, Bool.true_and]
    exact List.all_takeWhile
  simp only [scanWord, Token.ofWord]
  split
  · trivial
  · rename_i hw
    exact ⟨by rwa [String.toList_ofList], hw⟩

theorem scanToken_lexical {p : Pos} {c : Char} {cs : List Char} {s : Scanned}
    (h : scanToken p c cs = .ok s) : s.token.Lexical := by
  unfold scanToken at h
  split at h
  · rename_i hm
    cases h
    exact scanMark?_lexical hm
  · split at h
    · cases hr : scanString c p (p.right 1) cs with
      | error e => simp [hr, bind, Except.bind] at h
      | ok r =>
        simp only [hr, bind, Except.bind, Except.ok.injEq] at h
        rw [← h]
        trivial
    · split at h
      · cases h
        exact scanNumber_lexical _
      · split at h
        · rename_i hw
          cases h
          exact scanWord_lexical hw cs
        · simp at h

/-- Identifiers are names and numbers have no sign in every text that has tokens. -/
theorem lexemes_lexical {p : Pos} {cs : List Char} {ls : List Lexeme}
    (h : lexemes p cs = .ok ls) : ∀ l ∈ ls, l.token.Lexical := by
  induction hn : cs.length using Nat.strong_induction_on generalizing p cs ls with
  | _ n ih =>
    rw [lexemes_eq] at h
    split at h
    · simp at h
    · cases h
      intro l hl
      rw [List.mem_singleton] at hl
      rw [hl]
      trivial
    · rename_i p' c cs' hs
      split at h
      · simp at h
      · rename_i s ht
        have hlen := skipTrivia_length hs
        have hrest := scanToken_length ht
        simp only [List.length_cons] at hlen
        cases hls : lexemes (p'.right s.spelling.length) s.rest with
        | error e => simp [hls, Except.map] at h
        | ok ls' =>
          simp only [hls, Except.map, Except.ok.injEq] at h
          rw [← h]
          intro l hl
          rcases List.mem_cons.1 hl with rfl | hl
          · exact scanToken_lexical ht
          · exact ih s.rest.length (by omega) hls rfl l hl

end Hotload.Syntax
