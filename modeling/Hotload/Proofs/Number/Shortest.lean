import Hotload.Proofs.Number.Nearest

/-!
# Shortest decimals read back

The decimal that is printed for a double lies in the rounding interval of the double.

* `Rounding.multiple?_holds`, `Rounding.multiple?_isSome`: what the search on one grid finds.
* `shortest_holds`: seventeen digits are enough, so the search always ends on a decimal.
-/

namespace Hotload.Number

/-! ## One grid -/

/-- The search on a grid accepts the decimal `c · 10 ^ place`. -/
def Rounding.accepts (r : Rounding) (place : Int) (c : Nat) : Bool :=
  let scale := (powerOfTwo r.exp).1 * (powerOfTen place).2
  let unit := (powerOfTen place).1 * (powerOfTwo r.exp).2
  if r.closed then r.low * scale ≤ c * unit && c * unit ≤ r.high * scale
  else r.low * scale < c * unit && c * unit < r.high * scale

/-- The multiple of `10 ^ place` below the double. -/
def Rounding.below (r : Rounding) (place : Int) : Nat :=
  r.inner * ((powerOfTwo r.exp).1 * (powerOfTen place).2) /
    ((powerOfTen place).1 * (powerOfTwo r.exp).2)

theorem Rounding.accepts_iff (r : Rounding) (place : Int) (c : Nat) :
    r.accepts place c = true ↔ r.Holds (c * 10 ^ place) := by
  obtain ⟨ha, hb⟩ := powerOfTwo_pos r.exp
  obtain ⟨hu, hw⟩ := powerOfTen_pos place
  have hb' : (0 : ℚ) < (powerOfTwo r.exp).2 := by exact_mod_cast hb
  have hw' : (0 : ℚ) < (powerOfTen place).2 := by exact_mod_cast hw
  simp only [Rounding.accepts, Rounding.Holds]
  rw [← powerOfTwo_div, ← powerOfTen_div, mul_div_assoc', mul_div_assoc', mul_div_assoc',
    div_le_div_iff₀ hb' hw', div_le_div_iff₀ hw' hb', div_lt_div_iff₀ hb' hw',
    div_lt_div_iff₀ hw' hb']
  generalize (powerOfTwo r.exp).1 = a, (powerOfTwo r.exp).2 = b at *
  generalize (powerOfTen place).1 = u, (powerOfTen place).2 = w at *
  have e1 : (r.low : ℚ) * a * w = (r.low * (a * w) : ℕ) := by push_cast; ring
  have e2 : (c : ℚ) * u * b = (c * (u * b) : ℕ) := by push_cast; ring
  have e3 : (r.high : ℚ) * a * w = (r.high * (a * w) : ℕ) := by push_cast; ring
  rw [e1, e2, e3, Nat.cast_le, Nat.cast_le, Nat.cast_lt, Nat.cast_lt]
  split <;> simp

/-- The search looks at the two multiples next to the double. -/
theorem Rounding.multiple?_eq (r : Rounding) (place : Int) :
    ∃ prefersBelow : Bool, r.multiple? place =
      if r.accepts place (r.below place) &&
          (prefersBelow || !r.accepts place (r.below place + 1)) then some (r.below place)
      else if r.accepts place (r.below place + 1) then some (r.below place + 1)
      else none :=
  ⟨_, rfl⟩

theorem Rounding.multiple?_holds {r : Rounding} {place : Int} {c : Nat}
    (h : r.multiple? place = some c) : r.Holds (c * 10 ^ place) := by
  obtain ⟨prefersBelow, he⟩ := r.multiple?_eq place
  rw [he] at h
  rw [← Rounding.accepts_iff]
  grind

/-- If any decimal of a grid lies in the interval, then so does one next to the double. -/
theorem Rounding.multiple?_isSome {mant : Nat} {exp place : Int} {c : Nat} (hpos : 0 < mant)
    (h : (Rounding.of mant exp).Holds (c * 10 ^ place)) :
    ((Rounding.of mant exp).multiple? place).isSome := by
  set r := Rounding.of mant exp
  have hself : r.Holds (mant * 2 ^ exp) := Rounding.holds_self hpos
  have hten : (0 : ℚ) < 10 ^ place := by positivity
  -- Between two members of the interval there are only members.
  have hmid {p q x : ℚ} (hp : r.Holds p) (hq : r.Holds q) (h1 : p ≤ x) (h2 : x ≤ q) :
      r.Holds x := by
    unfold Rounding.Holds at *
    split at hp <;> rename_i hc
    · rw [if_pos hc] at *
      exact ⟨hp.1.trans h1, h2.trans hq.2⟩
    · rw [if_neg hc] at *
      exact ⟨hp.1.trans_le h1, h2.trans_lt hq.2⟩
  have hval : (r.inner : ℚ) * 2 ^ r.exp = mant * 2 ^ exp := by
    simp only [r, Rounding.of, two_zpow_sub_two]
    push_cast
    ring
  have hbelow (n : Nat) : n ≤ r.below place ↔ (n : ℚ) * 10 ^ place ≤ mant * 2 ^ exp := by
    obtain ⟨ha, hb⟩ := powerOfTwo_pos r.exp
    obtain ⟨hu, hw⟩ := powerOfTen_pos place
    have hb' : (0 : ℚ) < (powerOfTwo r.exp).2 := by exact_mod_cast hb
    have hw' : (0 : ℚ) < (powerOfTen place).2 := by exact_mod_cast hw
    rw [Rounding.below, Nat.le_div_iff_mul_le (Nat.mul_pos hu hb), ← hval, ← powerOfTwo_div,
      ← powerOfTen_div, mul_div_assoc', mul_div_assoc', div_le_div_iff₀ hw' hb',
      ← Nat.cast_le (α := ℚ)]
    push_cast
    rw [mul_assoc, mul_assoc]
  obtain ⟨prefersBelow, he⟩ := r.multiple?_eq place
  rcases le_or_gt ((c : ℚ) * 10 ^ place) (mant * 2 ^ exp) with hle | hgt
  · have hb : r.accepts place (r.below place) = true := by
      rw [Rounding.accepts_iff]
      refine hmid h hself ?_ ((hbelow _).1 le_rfl)
      have := (hbelow c).2 hle
      have : (c : ℚ) ≤ r.below place := by exact_mod_cast this
      gcongr
    rw [he]
    grind
  · have hb : r.accepts place (r.below place + 1) = true := by
      rw [Rounding.accepts_iff]
      have hlt : (mant : ℚ) * 2 ^ exp < ((r.below place + 1 : ℕ) : ℚ) * 10 ^ place := by
        rw [← not_le, ← hbelow]
        omega
      refine hmid hself h hlt.le ?_
      have : r.below place + 1 ≤ c := by
        by_contra hc
        exact absurd ((hbelow c).1 (by omega)) hgt.not_ge
      have : ((r.below place + 1 : ℕ) : ℚ) ≤ c := by exact_mod_cast this
      gcongr
    rw [he]
    grind

/-! ## All grids -/

theorem pow_digitCount_le {n : Nat} (h : 0 < n) : 10 ^ (digitCount n - 1) ≤ n := by
  rcases Nat.lt_or_ge 1 (digitCount n) with hlt | hle
  · by_contra hc
    have := (Nat.length_toDigits_le_iff (b := 10) (by decide) (by omega)).2 (not_le.1 hc)
    unfold digitCount at hlt this
    omega
  · rw [show digitCount n - 1 = 0 by omega]
    exact h

theorem lt_pow_digitCount (n : Nat) : n < 10 ^ digitCount n :=
  (Nat.length_toDigits_le_iff (by decide) Nat.length_toDigits_pos).1 le_rfl

/-- A quotient has at least the size that `decimalSize` gives it. -/
theorem ten_zpow_decimalSize_le {num den : Nat} (hnum : 0 < num) (hden : 0 < den) :
    (10 : ℚ) ^ (decimalSize num den - 1) ≤ num / den := by
  have hn : (0 : ℚ) < num := by exact_mod_cast hnum
  have hd : (0 : ℚ) < den := by exact_mod_cast hden
  unfold decimalSize
  split
  · rename_i hle
    have hq : 0 < num / den := Nat.div_pos hle hden
    have hpow := pow_digitCount_le hq
    have hpos : 0 < digitCount (num / den) := Nat.length_toDigits_pos
    rw [show (digitCount (num / den) : Int) - 1 = ((digitCount (num / den) - 1 : ℕ) : Int) by omega,
      zpow_natCast, le_div_iff₀ hd]
    have := (Nat.mul_le_mul_right den hpow).trans (Nat.div_mul_le_self num den)
    exact_mod_cast this
  · rename_i hlt
    have hq : 0 < den / num := Nat.div_pos (by omega) hnum
    have hpos : 0 < digitCount (den / num) := Nat.length_toDigits_pos
    simp only []
    split
    · rename_i heq
      rw [show (1 - ((digitCount (den / num) - 1 : ℕ) : Int) - 1)
        = -((digitCount (den / num) - 1 : ℕ) : Int) by ring, zpow_neg, zpow_natCast, inv_eq_one_div,
        div_le_div_iff₀ (by positivity) hd]
      rw [Nat.pow_eq] at heq
      have : ((num * 10 ^ (digitCount (den / num) - 1) : ℕ) : ℚ) = den := by exact_mod_cast heq
      push_cast at this
      linarith
    · have hlt : den < num * 10 ^ digitCount (den / num) := by
        have := lt_pow_digitCount (den / num)
        have := Nat.div_add_mod den num
        have := Nat.mod_lt den hnum
        have : num * (den / num + 1) ≤ num * 10 ^ digitCount (den / num) :=
          Nat.mul_le_mul_left _ (by omega)
        rw [Nat.mul_succ] at this
        omega
      rw [show (-((digitCount (den / num) - 1 : ℕ) : Int) - 1) = -(digitCount (den / num) : Int) by
        omega, zpow_neg, zpow_natCast, inv_eq_one_div, div_le_div_iff₀ (by positivity) hd]
      have : ((den : ℕ) : ℚ) ≤ (num * 10 ^ digitCount (den / num) : ℕ) := by exact_mod_cast hlt.le
      push_cast at this
      linarith

/-- On a grid finer than the interval is wide, some decimal lies in the interval. -/
theorem Rounding.exists_holds {mant : Nat} {exp place : Int} (hpos : 0 < mant)
    (hw : (10 : ℚ) ^ place < 2 ^ exp)
    (hpow : mant = 2 ^ 52 → (10 : ℚ) ^ place < 3 / 4 * 2 ^ exp) :
    ∃ c : Nat, (Rounding.of mant exp).Holds (c * 10 ^ place) := by
  set r := Rounding.of mant exp
  have hten : (0 : ℚ) < 10 ^ place := by positivity
  have hp := two_zpow_pos exp
  have hm1 : (1 : ℚ) ≤ mant := by exact_mod_cast hpos
  have hhigh : (r.high : ℚ) * 2 ^ r.exp = (mant + 1 / 2) * 2 ^ exp := by
    simp only [r, Rounding.of, two_zpow_sub_two]
    push_cast
    ring
  have hlow : (r.low : ℚ) * 2 ^ r.exp + 10 ^ place < (mant + 1 / 2) * 2 ^ exp := by
    simp only [r, Rounding.of, two_zpow_sub_two]
    split
    · rename_i hm
      have := hpow (of_decide_eq_true (Bool.and_eq_true _ _ ▸ hm).1)
      rw [Nat.cast_sub (by omega)]
      push_cast
      linarith
    · rw [Nat.cast_sub (by omega)]
      push_cast
      linarith
  have hnonneg : 0 ≤ (r.low : ℚ) * 2 ^ r.exp / 10 ^ place := by
    have := two_zpow_pos r.exp
    positivity
  -- The first multiple above the lower end is below the upper one.
  refine ⟨⌊(r.low : ℚ) * 2 ^ r.exp / 10 ^ place⌋₊ + 1, ?_⟩
  have hfloor := Nat.floor_le hnonneg
  have hceil := Nat.lt_floor_add_one ((r.low : ℚ) * 2 ^ r.exp / 10 ^ place)
  rw [le_div_iff₀ hten] at hfloor
  rw [div_lt_iff₀ hten] at hceil
  push_cast
  have hlt : ((⌊(r.low : ℚ) * 2 ^ r.exp / 10 ^ place⌋₊ : ℚ) + 1) * 10 ^ place
      < r.high * 2 ^ r.exp := by
    rw [hhigh]
    linarith
  unfold Rounding.Holds
  split
  · exact ⟨hceil.le, hlt.le⟩
  · exact ⟨hceil, hlt⟩

/-- The search over the grids ends on the first grid with a decimal in the interval. -/
theorem Rounding.firstGrid_holds {r : Rounding} {size : Int} {count tries : Nat}
    (h : ∃ i < tries, (r.multiple? (size - (count + i : ℕ))).isSome) :
    r.Holds ((r.firstGrid size count tries).1 * 10 ^ (r.firstGrid size count tries).2) := by
  induction tries generalizing count with
  | zero => obtain ⟨i, hi, -⟩ := h; omega
  | succ tries ih =>
    unfold Rounding.firstGrid
    split
    · rename_i d hd
      exact Rounding.multiple?_holds hd
    · rename_i hnone
      apply ih
      obtain ⟨i, hi, hs⟩ := h
      rcases i with _ | i
      · rw [Nat.add_zero, hnone] at hs
        cases hs
      · exact ⟨i, by omega, by rwa [show count + 1 + i = count + (i + 1) by omega]⟩

/-- The shortest decimal lies in the interval. -/
theorem shortest_holds {mant : Nat} {exp : Int} (hc : Canonical mant exp) (hpos : 0 < mant) :
    (Rounding.of mant exp).Holds ((shortest mant exp).1 * 10 ^ (shortest mant exp).2) := by
  obtain ⟨ha, hb⟩ := powerOfTwo_pos exp
  have hp := two_zpow_pos exp
  have hsize := ten_zpow_decimalSize_le (Nat.mul_pos hpos ha) hb
  unfold shortest
  simp only []
  generalize decimalSize (mant * (powerOfTwo exp).1) (powerOfTwo exp).2 = size at *
  rw [Nat.cast_mul, mul_div_assoc, powerOfTwo_div] at hsize
  apply Rounding.firstGrid_holds
  -- The grid of seventeen digits is finer than the interval.
  refine ⟨16, by decide, ?_⟩
  have hfine : (10 : ℚ) ^ (size - 17) * 10 ^ 16 ≤ mant * 2 ^ exp := by
    rw [← zpow_natCast, ← zpow_add₀ (by norm_num)]
    convert hsize using 2
    push_cast
    ring
  have hmant : (mant : ℚ) < 9007199254740992 := by exact_mod_cast hc.mant_lt
  have hwide : (10 : ℚ) ^ (size - 17) < 2 ^ exp := by
    have := mul_lt_mul_of_pos_right hmant hp
    linarith
  obtain ⟨c, hholds⟩ : ∃ c : Nat, (Rounding.of mant exp).Holds (c * 10 ^ (size - 17)) := by
    refine Rounding.exists_holds hpos hwide fun hm => ?_
    subst hm
    norm_num at hfine
    linarith
  exact Rounding.multiple?_isSome hpos (c := c) (by exact_mod_cast hholds)

end Hotload.Number
