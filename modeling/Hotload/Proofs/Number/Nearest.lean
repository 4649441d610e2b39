import Mathlib
import Hotload.Number.Decimal
import Hotload.Number.Shortest

/-!
# What rounds to a double

Every rational in the rounding interval of a double is rounded to that double.

* `Canonical`: the significands and exponents that doubles have, and `encode`, their bits.
* `Rounding.Holds`: membership in the rounding interval.
* `nearestBits_of_holds`: the nearest double of a rational in the interval.
* `ofDecimal_of_holds`: the double that a decimal in the interval reads as.
-/

namespace Hotload.Number

/-! ## Powers -/

theorem two_zpow_pos (e : Int) : (0 : ℚ) < 2 ^ e := by positivity

theorem powerOfTwo_pos (e : Int) : 0 < (powerOfTwo e).1 ∧ 0 < (powerOfTwo e).2 :=
  ⟨Nat.pow_pos (by decide), Nat.pow_pos (by decide)⟩

/-- A power split into the parts of the exponent above and below zero. -/
theorem zpow_toNat_div {b : ℚ} (hb : b ≠ 0) (e : Int) :
    b ^ e.toNat / b ^ (-e).toNat = b ^ e := by
  rw [← zpow_natCast, ← zpow_natCast, ← zpow_sub₀ hb]
  congr 1
  omega

theorem powerOfTwo_div (e : Int) : ((powerOfTwo e).1 : ℚ) / (powerOfTwo e).2 = 2 ^ e := by
  simp only [powerOfTwo, Nat.pow_eq, Nat.cast_pow, Nat.cast_ofNat]
  exact zpow_toNat_div (by norm_num) e

theorem powerOfTen_pos (e : Int) : 0 < (powerOfTen e).1 ∧ 0 < (powerOfTen e).2 :=
  ⟨Nat.pow_pos (by decide), Nat.pow_pos (by decide)⟩

theorem powerOfTen_div (e : Int) : ((powerOfTen e).1 : ℚ) / (powerOfTen e).2 = 10 ^ e := by
  simp only [powerOfTen, Nat.pow_eq, Nat.cast_pow, Nat.cast_ofNat]
  exact zpow_toNat_div (by norm_num) e

/-! ## Doubles and their intervals -/

/-- The significand and exponent of a finite double. -/
structure Canonical (mant : Nat) (exp : Int) : Prop where
  exp_ge : -1074 ≤ exp
  exp_le : exp ≤ 971
  mant_lt : mant < 2 ^ 53
  normal : exp = -1074 ∨ 2 ^ 52 ≤ mant

/-- The bits of the magnitude `mant · 2 ^ exp`. -/
def encode (mant : Nat) (exp : Int) : Nat := (exp + 1074).toNat * 2 ^ 52 + mant

/-- The rational lies in the interval. -/
def Rounding.Holds (r : Rounding) (q : ℚ) : Prop :=
  if r.closed then r.low * 2 ^ r.exp ≤ q ∧ q ≤ r.high * 2 ^ r.exp
  else r.low * 2 ^ r.exp < q ∧ q < r.high * 2 ^ r.exp

theorem Rounding.Holds.bounds {r : Rounding} {q : ℚ} (h : r.Holds q) :
    r.low * 2 ^ r.exp ≤ q ∧ q ≤ r.high * 2 ^ r.exp := by
  unfold Rounding.Holds at h
  split at h
  · exact h
  · exact ⟨h.1.le, h.2.le⟩

theorem two_zpow_sub_two (e : Int) : (2 : ℚ) ^ (e - 2) = 2 ^ e / 4 := by
  rw [zpow_sub₀ (by norm_num)]
  norm_num

/-- The ends of the interval, in halves of a unit; half as far below at a power of two. -/
theorem Rounding.Holds.halves {mant : Nat} {exp : Int} {q : ℚ} (hpos : 0 < mant)
    (h : (Rounding.of mant exp).Holds q) :
    ((mant : ℚ) - 1 / 2) * 2 ^ exp ≤ q ∧ q ≤ (mant + 1 / 2) * 2 ^ exp ∧
      (mant = 2 ^ 52 → -1074 < exp → ((mant : ℚ) - 1 / 4) * 2 ^ exp ≤ q) ∧
      (mant % 2 = 1 → ((mant : ℚ) - 1 / 2) * 2 ^ exp < q ∧ q < (mant + 1 / 2) * 2 ^ exp) := by
  have hp := two_zpow_pos exp
  obtain ⟨hl, hh⟩ := h.bounds
  simp only [Rounding.of, two_zpow_sub_two] at hl hh
  have hlow : ((4 * mant - 2 : ℕ) : ℚ) = 4 * mant - 2 := by
    rw [Nat.cast_sub (by omega)]; push_cast; ring
  have hlow1 : ((4 * mant - 1 : ℕ) : ℚ) = 4 * mant - 1 := by
    rw [Nat.cast_sub (by omega)]; push_cast; ring
  push_cast at hh
  refine ⟨?_, by linarith, fun hm he => ?_, fun hodd => ?_⟩
  · split at hl
    · rw [hlow1] at hl; linarith
    · rw [hlow] at hl; linarith
  · rw [if_pos (by simp [hm, he]), hlow1] at hl
    linarith
  · unfold Rounding.Holds at h
    have hne : mant ≠ 2 ^ 52 := by rintro rfl; omega
    rw [if_neg (by simp [Rounding.of, hodd])] at h
    simp only [Rounding.of, two_zpow_sub_two] at h
    rw [if_neg (by simp; omega), hlow] at h
    push_cast at h
    constructor <;> linarith [h.1, h.2]

/-- The double itself lies in its interval. -/
theorem Rounding.holds_self {mant : Nat} {exp : Int} (hpos : 0 < mant) :
    (Rounding.of mant exp).Holds (mant * 2 ^ exp) := by
  have hp := two_zpow_pos exp
  have hlow : (((Rounding.of mant exp).low : ℕ) : ℚ) ≤ 4 * mant - 1 := by
    simp only [Rounding.of]
    split
    · rw [Nat.cast_sub (by omega)]; push_cast; linarith
    · rw [Nat.cast_sub (by omega)]; push_cast; linarith
  have hexp : (Rounding.of mant exp).exp = exp - 2 := rfl
  have hhigh : (((Rounding.of mant exp).high : ℕ) : ℚ) = 4 * mant + 2 := by
    simp [Rounding.of]
  have h1 : ((Rounding.of mant exp).low : ℚ) * 2 ^ (Rounding.of mant exp).exp
      < mant * 2 ^ exp := by
    rw [hexp, two_zpow_sub_two]
    nlinarith
  have h2 : (mant : ℚ) * 2 ^ exp
      < (Rounding.of mant exp).high * 2 ^ (Rounding.of mant exp).exp := by
    rw [hexp, hhigh, two_zpow_sub_two]
    nlinarith
  unfold Rounding.Holds
  split
  · exact ⟨h1.le, h2.le⟩
  · exact ⟨h1, h2⟩

/-! ## Rounding a quotient -/

/-- A quotient within half a unit of a natural number is rounded to it, and so is a quotient half a
unit away if the number is even. -/
theorem roundHalfEven_eq {num den n : Nat} (hden : 0 < den) (hl : (2 * n) * den ≤ 2 * num + den)
    (hh : 2 * num ≤ (2 * n + 1) * den)
    (hodd : n % 2 = 1 → (2 * n) * den < 2 * num + den ∧ 2 * num < (2 * n + 1) * den) :
    roundHalfEven num den = n := by
  have hdiv := Nat.div_add_mod num den
  have hmod := Nat.mod_lt num hden
  unfold roundHalfEven
  simp only []
  generalize num / den = q at *
  generalize num % den = r at *
  have hq : q ≤ n := by
    by_contra hc
    have : den * (n + 1) ≤ den * q := Nat.mul_le_mul_left _ (by omega)
    nlinarith
  have hq' : n ≤ q + 1 := by
    by_contra hc
    have : den * (q + 2) ≤ den * n := Nat.mul_le_mul_left _ (by omega)
    nlinarith
  rcases Nat.lt_or_ge q n with hlt | hge
  · obtain rfl : n = q + 1 := by omega
    have h2 : den ≤ 2 * r := by nlinarith
    rw [if_neg (by omega)]
    split
    · have : (q + 1) % 2 ≠ 1 := by
        intro ho
        have := (hodd ho).1
        nlinarith
      omega
    · rfl
  · obtain rfl : n = q := by omega
    have h2 : 2 * r ≤ den := by nlinarith
    split
    · rfl
    · rw [if_pos (by omega)]
      have : n % 2 ≠ 1 := by
        intro ho
        have := (hodd ho).2
        nlinarith
      omega

/-! ## The nearest double -/

/-- The quotient of a rational by a power of two, rounded down, compared with a natural number. -/
theorem le_quotient_iff {num den n : Nat} (hden : 0 < den) (e : Int) :
    n ≤ num * (powerOfTwo e).2 / (den * (powerOfTwo e).1) ↔ (n : ℚ) * 2 ^ e ≤ num / den := by
  obtain ⟨ha, hb⟩ := powerOfTwo_pos e
  rw [Nat.le_div_iff_mul_le (Nat.mul_pos hden ha), ← powerOfTwo_div e, mul_div_assoc',
    div_le_div_iff₀ (by exact_mod_cast hb) (by exact_mod_cast hden)]
  constructor
  · intro h
    have : ((n * (den * (powerOfTwo e).1) : ℕ) : ℚ) ≤ (num * (powerOfTwo e).2 : ℕ) := by
      exact_mod_cast h
    push_cast at this
    linarith
  · intro h
    have : ((n * (den * (powerOfTwo e).1) : ℕ) : ℚ) ≤ (num * (powerOfTwo e).2 : ℕ) := by
      push_cast
      linarith
    exact_mod_cast this

/-- A quotient lies between the powers of two around the difference of the logarithms. -/
theorem log2_bounds {num den : Nat} (hnum : 0 < num) (hden : 0 < den) :
    (2 : ℚ) ^ ((num.log2 : Int) - den.log2 - 1) < num / den ∧
      (num : ℚ) / den < 2 ^ ((num.log2 : Int) - den.log2 + 1) := by
  have hn1 : ((2 ^ num.log2 : ℕ) : ℚ) ≤ num := by
    exact_mod_cast Nat.log2_self_le (by omega)
  have hn2 : (num : ℚ) < ((2 ^ (num.log2 + 1) : ℕ) : ℚ) := by
    exact_mod_cast Nat.lt_log2_self
  have hd1 : ((2 ^ den.log2 : ℕ) : ℚ) ≤ den := by
    exact_mod_cast Nat.log2_self_le (by omega)
  have hd2 : (den : ℚ) < ((2 ^ (den.log2 + 1) : ℕ) : ℚ) := by
    exact_mod_cast Nat.lt_log2_self
  push_cast at hn1 hn2 hd1 hd2
  have hd : (0 : ℚ) < den := by exact_mod_cast hden
  have h2 : (2 : ℚ) ≠ 0 := by norm_num
  rw [lt_div_iff₀ hd, div_lt_iff₀ hd]
  constructor
  · calc (2 : ℚ) ^ ((num.log2 : Int) - den.log2 - 1) * den
        < 2 ^ ((num.log2 : Int) - den.log2 - 1) * 2 ^ (den.log2 + 1) := by
          exact mul_lt_mul_of_pos_left hd2 (two_zpow_pos _)
      _ = 2 ^ num.log2 := by
          rw [← zpow_natCast, ← zpow_natCast, ← zpow_add₀ h2]
          congr 1
          push_cast
          ring
      _ ≤ num := hn1
  · calc (num : ℚ) < 2 ^ (num.log2 + 1) := hn2
      _ = 2 ^ ((num.log2 : Int) - den.log2 + 1) * 2 ^ den.log2 := by
          rw [← zpow_natCast, ← zpow_natCast, ← zpow_add₀ h2]
          congr 1
          push_cast
          ring
      _ ≤ 2 ^ ((num.log2 : Int) - den.log2 + 1) * den := by
          exact mul_le_mul_of_nonneg_left hd1 (two_zpow_pos _).le

/-- The exponent that the significand of a quotient gets. -/
theorem nearestBits_eq {num den : Nat} {exp : Int} (hnum : 0 < num) (hden : 0 < den)
    (hge : -1074 ≤ exp) (hlt : (num : ℚ) / den < 2 ^ (53 + exp))
    (hle : exp = -1074 ∨ (2 : ℚ) ^ (52 + exp) ≤ num / den) :
    nearestBits num den = (exp + 1074).toNat * 2 ^ 52 +
      roundHalfEven (num * (powerOfTwo exp).2) (den * (powerOfTwo exp).1) := by
  obtain ⟨hl, hh⟩ := log2_bounds hnum hden
  have hmono {a b : Int} (h : (2 : ℚ) ^ a < 2 ^ b) : a < b :=
    (zpow_lt_zpow_iff_right₀ (by norm_num)).1 h
  have hup : (num.log2 : Int) - den.log2 - 54 < exp := by
    have := hmono (hl.trans hlt)
    omega
  have hdown : exp = -1074 ∨ exp ≤ (num.log2 : Int) - den.log2 - 53 + 1 := by
    refine hle.imp_right fun h => ?_
    have := hmono (h.trans_lt hh)
    omega
  unfold nearestBits
  rw [if_neg (by omega)]
  simp only []
  -- The first guess is the exponent itself or the one below it.
  have hexp : (if Nat.pow 2 53 ≤
      num * (powerOfTwo (max ((num.log2 : Int) - den.log2 - 53) (-1074))).2 /
        (den * (powerOfTwo (max ((num.log2 : Int) - den.log2 - 53) (-1074))).1)
      then max ((num.log2 : Int) - den.log2 - 53) (-1074) + 1
      else max ((num.log2 : Int) - den.log2 - 53) (-1074)) = exp := by
    generalize hf : max ((num.log2 : Int) - den.log2 - 53) (-1074) = first
    have hquot : Nat.pow 2 53 ≤ num * (powerOfTwo first).2 / (den * (powerOfTwo first).1) ↔ _ :=
      le_quotient_iff hden first
    have hpow : ((Nat.pow 2 53 : ℕ) : ℚ) * 2 ^ first = 2 ^ (53 + first) := by
      rw [show ((Nat.pow 2 53 : ℕ) : ℚ) = 2 ^ (53 : Int) by norm_num, ← zpow_add₀ (by norm_num)]
    rw [hpow] at hquot
    rcases (show first = exp ∨ first + 1 = exp by omega) with rfl | rfl
    · rw [if_neg]
      rw [hquot, not_le]
      exact hlt
    · rw [if_pos]
      rw [hquot]
      rcases hle with h | h
      · omega
      · rwa [show (53 : Int) + first = 52 + (first + 1) by ring]
  rw [hexp, Nat.pow_eq]

/-- Every quotient in the rounding interval of a double is rounded to it. -/
theorem nearestBits_of_holds {num den mant : Nat} {exp : Int} (hc : Canonical mant exp)
    (hpos : 0 < mant) (hden : 0 < den) (h : (Rounding.of mant exp).Holds (num / den)) :
    nearestBits num den = encode mant exp := by
  obtain ⟨hl, hh, hquarter, hodd⟩ := h.halves hpos
  have hp := two_zpow_pos exp
  have hd : (0 : ℚ) < den := by exact_mod_cast hden
  have hm1 : (1 : ℚ) ≤ mant := by exact_mod_cast hpos
  have hnum : 0 < num := by
    have : (0 : ℚ) < num / den := lt_of_lt_of_le (by nlinarith) hl
    have : (0 : ℚ) < num := by
      rwa [div_pos_iff_of_pos_right hd] at this
    exact_mod_cast this
  have hlt : (num : ℚ) / den < 2 ^ (53 + exp) := by
    have hmant : (mant : ℚ) ≤ 9007199254740991 := by exact_mod_cast Nat.le_of_lt_succ hc.mant_lt
    have := mul_le_mul_of_nonneg_right hmant hp.le
    rw [zpow_add₀ (by norm_num), show (2 : ℚ) ^ (53 : Int) = 9007199254740992 by norm_num]
    linarith
  -- Rounding in units of `2 ^ e`, of which the double is `k`.
  have round {e : Int} {k : Nat} (hl : ((k : ℚ) - 1 / 2) * 2 ^ e ≤ num / den)
      (hh : (num : ℚ) / den ≤ (k + 1 / 2) * 2 ^ e)
      (hodd : k % 2 = 1 → ((k : ℚ) - 1 / 2) * 2 ^ e < num / den ∧
        (num : ℚ) / den < (k + 1 / 2) * 2 ^ e) :
      roundHalfEven (num * (powerOfTwo e).2) (den * (powerOfTwo e).1) = k := by
    obtain ⟨ha, hb⟩ := powerOfTwo_pos e
    have ha' : (0 : ℚ) < (powerOfTwo e).1 := by exact_mod_cast ha
    have hb' : (0 : ℚ) < (powerOfTwo e).2 := by exact_mod_cast hb
    rw [← powerOfTwo_div e] at hl hh hodd
    rw [mul_div_assoc', div_le_div_iff₀ hb' hd] at hl
    rw [mul_div_assoc', div_le_div_iff₀ hd hb'] at hh
    rw [mul_div_assoc', mul_div_assoc', div_lt_div_iff₀ hb' hd, div_lt_div_iff₀ hd hb'] at hodd
    apply roundHalfEven_eq (Nat.mul_pos hden ha)
    · have : ((2 * k * (den * (powerOfTwo e).1) : ℕ) : ℚ)
          ≤ (2 * (num * (powerOfTwo e).2) + den * (powerOfTwo e).1 : ℕ) := by
        push_cast
        nlinarith
      exact_mod_cast this
    · have : ((2 * (num * (powerOfTwo e).2) : ℕ) : ℚ)
          ≤ ((2 * k + 1) * (den * (powerOfTwo e).1) : ℕ) := by
        push_cast
        nlinarith
      exact_mod_cast this
    · intro ho
      obtain ⟨h1, h2⟩ := hodd ho
      constructor
      · have : ((2 * k * (den * (powerOfTwo e).1) : ℕ) : ℚ)
            < (2 * (num * (powerOfTwo e).2) + den * (powerOfTwo e).1 : ℕ) := by
          push_cast
          nlinarith
        exact_mod_cast this
      · have : ((2 * (num * (powerOfTwo e).2) : ℕ) : ℚ)
            < ((2 * k + 1) * (den * (powerOfTwo e).1) : ℕ) := by
          push_cast
          nlinarith
        exact_mod_cast this
  by_cases hlow : exp = -1074 ∨ (2 : ℚ) ^ (52 + exp) ≤ num / den
  · rw [nearestBits_eq hnum hden hc.exp_ge hlt hlow, round hl hh hodd, encode]
  · -- The quotient is below the power of two that the double is: it is rounded up to it.
    obtain ⟨hne, hsmall⟩ := not_or.1 hlow
    rw [not_le, zpow_add₀ (by norm_num)] at hsmall
    have hge := hc.exp_ge
    have hmant : mant = 2 ^ 52 := by
      rcases hc.normal with h | h
      · exact absurd h hne
      · by_contra hgt
        have hmant : (4503599627370497 : ℚ) ≤ mant := by
          exact_mod_cast (show 4503599627370497 ≤ mant by omega)
        have := mul_le_mul_of_nonneg_right hmant hp.le
        rw [show (2 : ℚ) ^ (52 : Int) = 4503599627370496 by norm_num] at hsmall
        linarith
    subst hmant
    have hq := hquarter rfl (by omega)
    have hhalf : (2 : ℚ) ^ (exp - 1) = 2 ^ exp / 2 := by
      rw [zpow_sub₀ (by norm_num)]
      norm_num
    have hround := round (e := exp - 1) (k := 2 ^ 53)
      (by rw [hhalf]; push_cast at hq ⊢; linarith)
      (by rw [hhalf]; norm_num at hsmall ⊢; linarith)
      (fun h => absurd h (by decide))
    have hle : exp - 1 = -1074 ∨ (2 : ℚ) ^ (52 + (exp - 1)) ≤ num / den := by
      right
      rw [zpow_add₀ (by norm_num), hhalf]
      norm_num at hq ⊢
      linarith
    have hlt' : (num : ℚ) / den < 2 ^ (53 + (exp - 1)) := by
      rw [zpow_add₀ (by norm_num), hhalf]
      norm_num at hsmall ⊢
      linarith
    rw [nearestBits_eq hnum hden (by omega) hlt' hle, hround, encode]
    have : (exp + 1074).toNat = (exp - 1 + 1074).toNat + 1 := by omega
    rw [this]
    ring

/-! ## Reading a decimal -/

theorem Rounding.Holds.gt {mant : Nat} {exp : Int} {q : ℚ} (hc : Canonical mant exp)
    (hpos : 0 < mant) (h : (Rounding.of mant exp).Holds q) : (2 : ℚ) ^ (-1076 : Int) < q := by
  obtain ⟨hl, -⟩ := h.halves hpos
  have hm1 : (1 : ℚ) ≤ mant := by exact_mod_cast hpos
  have hp := two_zpow_pos exp
  have hexp : (2 : ℚ) ^ (-1074 : Int) ≤ 2 ^ exp := zpow_le_zpow_right₀ (by norm_num) hc.exp_ge
  have h4 : (2 : ℚ) ^ (-1076 : Int) = 2 ^ (-1074 : Int) / 4 := by
    rw [← two_zpow_sub_two]
    norm_num
  have := mul_le_mul_of_nonneg_right (show (1 / 2 : ℚ) ≤ mant - 1 / 2 by linarith) hp.le
  linarith [two_zpow_pos (-1074)]

theorem Rounding.Holds.lt {mant : Nat} {exp : Int} {q : ℚ} (hc : Canonical mant exp)
    (hpos : 0 < mant) (h : (Rounding.of mant exp).Holds q) : q < 2 ^ (1024 : Int) := by
  obtain ⟨-, hh, -⟩ := h.halves hpos
  have hmant : (mant : ℚ) ≤ 9007199254740991 := by exact_mod_cast Nat.le_of_lt_succ hc.mant_lt
  have hexp : (2 : ℚ) ^ exp ≤ 2 ^ (971 : Int) := zpow_le_zpow_right₀ (by norm_num) hc.exp_le
  have hsplit : (2 : ℚ) ^ (1024 : Int) = 9007199254740992 * 2 ^ (971 : Int) := by
    rw [show (1024 : Int) = 53 + 971 by norm_num, zpow_add₀ (by norm_num)]
    norm_num
  calc q ≤ (mant + 1 / 2) * 2 ^ exp := hh
    _ ≤ (9007199254740991 + 1 / 2) * 2 ^ (971 : Int) := by gcongr
    _ < 9007199254740992 * 2 ^ (971 : Int) :=
        mul_lt_mul_of_pos_right (by norm_num) (two_zpow_pos _)
    _ = 2 ^ (1024 : Int) := hsplit.symm

/-- A decimal that the short cut of `ofDecimal` takes for zero is below every double. -/
theorem decimal_lt {digits : Nat} {k : Int} (hk : k < 0)
    (h : (digits.log2 : Int) + 3 * k < -1200) : (digits : ℚ) * 10 ^ k < 2 ^ (-1076 : Int) := by
  have hd : (digits : ℚ) < 2 ^ ((digits.log2 : Int) + 1) := by
    have : (digits : ℚ) < ((2 ^ (digits.log2 + 1) : ℕ) : ℚ) := by exact_mod_cast Nat.lt_log2_self
    push_cast at this
    exact_mod_cast this
  have hten : (10 : ℚ) ^ k ≤ 2 ^ (3 * k) := by
    rw [zpow_mul, show (2 : ℚ) ^ (3 : Int) = 8 by norm_num]
    obtain ⟨n, rfl⟩ : ∃ n : Nat, k = -n := ⟨(-k).toNat, by omega⟩
    rw [zpow_neg, zpow_neg, zpow_natCast, zpow_natCast]
    gcongr
    norm_num
  calc (digits : ℚ) * 10 ^ k ≤ digits * 2 ^ (3 * k) := by gcongr
    _ < 2 ^ ((digits.log2 : Int) + 1) * 2 ^ (3 * k) := by
        exact mul_lt_mul_of_pos_right hd (two_zpow_pos _)
    _ = 2 ^ ((digits.log2 : Int) + 1 + 3 * k) := by rw [← zpow_add₀ (by norm_num)]
    _ ≤ 2 ^ (-1076 : Int) := zpow_le_zpow_right₀ (by norm_num) (by omega)

/-- A decimal in the rounding interval of a double reads as that double. -/
theorem ofDecimal_of_holds {digits mant : Nat} {k exp : Int} (negative : Bool)
    (hc : Canonical mant exp) (hpos : 0 < mant)
    (h : (Rounding.of mant exp).Holds (digits * 10 ^ k)) :
    ofDecimal negative digits k = ofMagnitude negative (encode mant exp) := by
  have hgt := h.gt hc hpos
  have hlt := h.lt hc hpos
  have hne : digits ≠ 0 := by
    rintro rfl
    have := two_zpow_pos (-1076)
    rw [Nat.cast_zero, zero_mul] at hgt
    linarith
  have hone : (1 : ℚ) ≤ digits := by exact_mod_cast Nat.one_le_iff_ne_zero.2 hne
  unfold ofDecimal
  rw [if_neg hne]
  split
  · rename_i hk
    have hten : (10 : ℚ) ^ (400 : Int) ≤ 10 ^ k := zpow_le_zpow_right₀ (by norm_num) hk
    have hbig : (2 : ℚ) ^ (1024 : Int) ≤ 10 ^ (400 : Int) := by
      rw [zpow_ofNat, zpow_ofNat]
      calc (2 : ℚ) ^ 1024 ≤ 2 ^ (3 * 400) := pow_le_pow_right₀ (by norm_num) (by norm_num)
        _ = (2 ^ 3) ^ 400 := pow_mul 2 3 400
        _ ≤ 10 ^ 400 := pow_le_pow_left₀ (by norm_num) (by norm_num) 400
    have hmul := mul_le_mul_of_nonneg_right hone (zpow_pos (by norm_num : (0 : ℚ) < 10) k).le
    rw [one_mul] at hmul
    exact absurd (hbig.trans (hten.trans hmul)) hlt.not_ge
  · split
    · rename_i hk
      rw [nearest, nearestBits_of_holds hc hpos (by decide)]
      convert h using 1
      push_cast
      rw [div_one, Nat.pow_eq, Nat.cast_pow, Nat.cast_ofNat, ← zpow_natCast, Int.toNat_of_nonneg hk]
    · rename_i hk
      split
      · rename_i hsmall
        have := decimal_lt (by omega) hsmall
        linarith
      · have hten : 0 < Nat.pow 10 (-k).toNat := Nat.pow_pos (by decide)
        rw [nearest, nearestBits_of_holds hc hpos hten]
        convert h using 1
        rw [Nat.pow_eq, Nat.cast_pow, Nat.cast_ofNat, ← zpow_natCast,
          Int.toNat_of_nonneg (by omega), zpow_neg, div_inv_eq_mul]

end Hotload.Number
