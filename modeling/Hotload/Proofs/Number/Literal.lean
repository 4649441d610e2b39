import Mathlib
import Hotload.Proofs.Number.Shortest

/-!
# Printed numbers

A number of a program is a double without a sign. Its bits determine it, and its printed digits
read back as the same double.

* `toNat_toBits_ofMagnitude`: the bits of a magnitude.
* `display_digits`: the digits of a finite number.
* `display_infinity`: the one number that is not printed by digits.
-/

namespace Hotload.Number

open Float.Model (Format UnpackedFloat)
open Float.Model.UnpackedFloat (Sign packComponents unpackSign unpackExponent unpackMantissa)

/-! ## Bits -/

theorem packComponents_unpack {spec : Format} (b : BitVec spec.numBits) :
    packComponents spec (Sign.ofBitVec (unpackSign b)) (unpackExponent b) (unpackMantissa b)
      = b := by
  have hs (v : BitVec 1) : (Sign.ofBitVec v).toBitVec = v := by
    revert v
    decide
  have hm := spec.hm
  have he := spec.he
  apply BitVec.eq_of_getLsbD_eq
  intro i hi
  simp only [Format.numBits] at hi
  simp only [packComponents, hs, unpackSign, unpackExponent, unpackMantissa,
    BitVec.getLsbD_append, BitVec.getLsbD_cast, BitVec.getLsbD_extractLsb]
  by_cases h1 : i < spec.mantissaBitsWithoutImplicit
  · rw [if_pos h1, decide_eq_true (by omega), Bool.true_and, Nat.zero_add]
  · by_cases h2 : i - spec.mantissaBitsWithoutImplicit < spec.exponentBits
    · rw [if_neg h1, if_pos h2, decide_eq_true (by omega), Bool.true_and]
      congr 1
      omega
    · rw [if_neg h1, if_neg h2, decide_eq_true (by omega), Bool.true_and]
      congr 1
      omega

/-- Bits that are not those of NaN are packed as they were. -/
theorem pack_unpack {spec : Format} (hwide : 2 ≤ spec.exponentBits) (b : BitVec spec.numBits)
    (h : (unpackExponent b).toNat + 1 = 2 ^ spec.exponentBits → unpackMantissa b = 0#_) :
    UnpackedFloat.pack spec (UnpackedFloat.unpack spec b) = b := by
  have hb := packComponents_unpack b
  have hlt := (unpackExponent b).isLt
  have hmlt := (unpackMantissa b).isLt
  have hfour : 2 ^ 2 ≤ 2 ^ spec.exponentBits := Nat.pow_le_pow_right (by decide) hwide
  have hmax : unpackExponent b = -1#_ ↔ (unpackExponent b).toNat + 1 = 2 ^ spec.exponentBits := by
    have hone : 1 % 2 ^ spec.exponentBits = 1 := Nat.mod_eq_of_lt (by omega)
    rw [← BitVec.toNat_inj, BitVec.toNat_neg, BitVec.toNat_ofNat, hone,
      Nat.mod_eq_of_lt (by omega)]
    omega
  unfold UnpackedFloat.unpack
  simp only []
  split
  · rename_i hx
    have hm0 := h (hmax.1 hx)
    rw [if_pos hm0]
    simp only [UnpackedFloat.pack, UnpackedFloat.packedInfinity]
    rwa [hx, hm0] at hb
  · rename_i hx
    rw [hmax] at hx
    split
    · rename_i h0
      split
      · rename_i hm0
        simp only [UnpackedFloat.pack, UnpackedFloat.packedZero]
        rwa [h0, hm0] at hb
      · rename_i hm0
        -- Below the normal numbers the exponent field is zero, but counts as one.
        have hzero : (unpackExponent b).toNat = 0 := by simp [h0]
        have hlog : (unpackMantissa b).toNat.log2 < spec.mantissaBitsWithoutImplicit := by
          rw [Nat.log2_lt (by simpa [← BitVec.toNat_inj] using hm0)]
          exact hmlt
        simp only [UnpackedFloat.pack]
        rw [if_neg (by omega), if_neg (by simp only [Format.mantissaBits]; omega), ← h0,
          BitVec.ofNat_toNat, BitVec.setWidth_eq]
        exact hb
    · have hnat : (1#1 ++ unpackMantissa b).toNat
          = 2 ^ spec.mantissaBitsWithoutImplicit + (unpackMantissa b).toNat := by
        rw [BitVec.toNat_append, Nat.shiftLeft_eq, Nat.mul_comm, ← Nat.two_pow_add_eq_or_of_lt hmlt]
        simp
      have hlog : (1#1 ++ unpackMantissa b).toNat.log2 = spec.mantissaBitsWithoutImplicit := by
        rw [Nat.log2_eq_iff (by omega), hnat, Nat.pow_succ]
        omega
      have hmant : BitVec.ofNat spec.mantissaBitsWithoutImplicit (1#1 ++ unpackMantissa b).toNat
          = unpackMantissa b := by
        apply BitVec.eq_of_toNat_eq
        rw [BitVec.toNat_ofNat, hnat, Nat.add_mod_left, Nat.mod_eq_of_lt hmlt]
      have hexp : ((unpackExponent b).toNat - ((spec.exponentBias : Int)
          + spec.mantissaBitsWithoutImplicit) + spec.exponentBias
          + spec.mantissaBitsWithoutImplicit).toNat = (unpackExponent b).toNat := by omega
      simp only [UnpackedFloat.pack]
      rw [hexp, if_neg (by omega), if_pos (by simp only [Format.mantissaBits]; omega), hmant,
        BitVec.ofNat_toNat, BitVec.setWidth_eq]
      exact hb

/-- The bits of a magnitude are not changed by making a double of them. -/
theorem toNat_toBits_ofMagnitude {bits : Nat} (h : bits ≤ infinityBits) :
    (ofMagnitude false bits).toBits.toNat = bits := by
  have hval : infinityBits = 2047 * 2 ^ 52 := rfl
  have hlt : bits < 2 ^ 64 := by omega
  have hvec : (UInt64.ofNat bits).toBitVec.toNat = bits := by
    rw [UInt64.toNat_toBitVec, UInt64.toNat_ofNat']
    exact Nat.mod_eq_of_lt hlt
  have hpack : UnpackedFloat.pack Format.binary64
      (UnpackedFloat.unpack Format.binary64 (UInt64.ofNat bits).toBitVec)
        = (UInt64.ofNat bits).toBitVec := by
    apply pack_unpack (by decide)
    intro hexp
    apply BitVec.eq_of_toNat_eq
    simp only [unpackExponent, unpackMantissa, BitVec.toNat_cast, BitVec.extractLsb_toNat,
      Nat.shiftRight_eq_div_pow, hvec] at hexp ⊢
    norm_num at hexp ⊢
    omega
  simp only [ofMagnitude, Nat.min_eq_left h, Float.ofBits, Float.toBits, Float.Model.ofBits,
    Float.Model.pack]
  simp only [Bool.false_eq_true, ↓reduceIte, Nat.add_zero]
  rw [hpack]
  exact hvec

/-- The parts of a magnitude. -/
theorem ofFloat_ofMagnitude {bits : Nat} (h : bits < infinityBits) :
    ∃ mant exp, Canonical mant exp ∧ encode mant exp = bits ∧
      Binary64.ofFloat (ofMagnitude false bits) = .finite false mant exp := by
  have hval : infinityBits = 2047 * 2 ^ 52 := rfl
  have hbits := toNat_toBits_ofMagnitude h.le
  unfold Binary64.ofFloat
  simp only [hbits, Nat.pow_eq]
  rw [decide_eq_false (by omega), if_neg (by omega)]
  split
  · refine ⟨bits % 2 ^ 52, -1074, ⟨by omega, by omega, by omega, .inl rfl⟩, ?_, rfl⟩
    unfold encode
    omega
  · refine ⟨2 ^ 52 + bits % 2 ^ 52, (bits / 2 ^ 52 % 2 ^ 11 : ℕ) - 1075,
      ⟨by omega, by omega, by omega, .inr (by omega)⟩, ?_, rfl⟩
    unfold encode
    omega

theorem ofFloat_ofMagnitude_infinity :
    Binary64.ofFloat (ofMagnitude false infinityBits) = .infinite false := by
  decide

/-! ## Digits -/

/-- The characters are decimal digits. -/
def AllDigits (cs : List Char) : Prop := ∀ c ∈ cs, c.isDigit

theorem AllDigits.append {cs ds : List Char} (hc : AllDigits cs) (hd : AllDigits ds) :
    AllDigits (cs ++ ds) := by
  intro c h
  rcases List.mem_append.1 h with h | h
  · exact hc c h
  · exact hd c h

theorem allDigits_toDigits (n : Nat) : AllDigits (Nat.toDigits 10 n) :=
  fun _ h => Nat.isDigit_of_mem_toDigits (by decide) (by decide) h

theorem allDigits_zeros (n : Nat) : AllDigits (List.replicate n '0') := by
  intro c h
  rw [(List.mem_replicate.1 h).2]
  decide

theorem digitsValue_eq {cs : List Char} (h : AllDigits cs) :
    digitsValue cs = Nat.ofDigitChars 10 cs 0 := by
  unfold digitsValue Nat.ofDigitChars
  generalize 0 = n
  induction cs generalizing n with
  | nil => rfl
  | cons c cs ih =>
    have hc : c.isDigit := h c List.mem_cons_self
    simp only [List.foldl_cons, digit?, hc, ↓reduceIte]
    exact ih (fun c hc => h c (List.mem_cons_of_mem _ hc)) _

theorem digitsValue_toDigits (n : Nat) : digitsValue (Nat.toDigits 10 n) = n := by
  rw [digitsValue_eq (allDigits_toDigits n), Nat.ofDigitChars_ten_toDigits]

theorem digitsValue_zeros_append (n d : Nat) :
    digitsValue (List.replicate n '0' ++ Nat.toDigits 10 d) = d := by
  rw [digitsValue_eq ((allDigits_zeros n).append (allDigits_toDigits d)), Nat.ofDigitChars_append,
    Nat.ofDigitChars_replicate_zero, Nat.mul_zero, Nat.ofDigitChars_ten_toDigits]

theorem digitsValue_append_zeros (n d : Nat) :
    digitsValue (Nat.toDigits 10 d ++ List.replicate n '0') = d * 10 ^ n := by
  rw [digitsValue_eq ((allDigits_toDigits d).append (allDigits_zeros n)), Nat.ofDigitChars_append,
    Nat.ofDigitChars_ten_toDigits, Nat.ofDigitChars_replicate_zero, Nat.mul_comm]

/-- A printed number: digits, and a point before the digits of its fraction if it has one. -/
def numeralOf (whole fraction : List Char) : List Char :=
  whole ++ if fraction = [] then [] else '.' :: fraction

/-- The positional text of a decimal has the value of the decimal. -/
theorem positional_digits (d : Nat) (k : Int) :
    ∃ whole fraction, whole ≠ [] ∧ AllDigits whole ∧ AllDigits fraction ∧
      positional d k = numeralOf whole fraction ∧
      (digitsValue (whole ++ fraction) : ℚ) * 10 ^ (0 - (fraction.length : Int)) = d * 10 ^ k := by
  have hne : Nat.toDigits 10 d ≠ [] := Nat.toDigits_ne_nil
  have hd := allDigits_toDigits d
  unfold positional
  simp only []
  split
  · rename_i hk
    refine ⟨Nat.toDigits 10 d ++ List.replicate k.toNat '0', [], by simp [hne],
      hd.append (allDigits_zeros _), fun c h => absurd h List.not_mem_nil, by simp [numeralOf], ?_⟩
    rw [List.append_nil, digitsValue_append_zeros, Nat.cast_mul, Nat.cast_pow, Nat.cast_ofNat,
      ← zpow_natCast, Int.toNat_of_nonneg hk]
    simp
  · rename_i hk
    generalize hp : (-k).toNat = places
    have hk' : 0 - (places : Int) = k := by omega
    split
    · rename_i hlt
      refine ⟨(Nat.toDigits 10 d).take ((Nat.toDigits 10 d).length - places),
        (Nat.toDigits 10 d).drop ((Nat.toDigits 10 d).length - places), ?_,
        fun c h => hd c (List.mem_of_mem_take h), fun c h => hd c (List.mem_of_mem_drop h), ?_, ?_⟩
      · rw [Ne, List.take_eq_nil_iff, not_or]
        exact ⟨by omega, hne⟩
      · rw [numeralOf, if_neg]
        rw [List.drop_eq_nil_iff]
        omega
      · rw [List.take_append_drop, digitsValue_toDigits, List.length_drop,
          show (Nat.toDigits 10 d).length - ((Nat.toDigits 10 d).length - places) = places by omega,
          hk']
    · rename_i hge
      refine ⟨['0'], List.replicate (places - (Nat.toDigits 10 d).length) '0' ++ Nat.toDigits 10 d,
        by decide, allDigits_zeros 1, (allDigits_zeros _).append hd, ?_, ?_⟩
      · simp [numeralOf, hne]
      · rw [← List.append_assoc, show ['0'] = List.replicate 1 '0' from rfl,
          ← List.replicate_add, digitsValue_zeros_append, List.length_append, List.length_replicate,
          show places - (Nat.toDigits 10 d).length + (Nat.toDigits 10 d).length = places by omega,
          hk']

theorem trimZeros_value (fuel d : Nat) (k : Int) :
    ((trimZeros fuel d k).1 : ℚ) * 10 ^ (trimZeros fuel d k).2 = d * 10 ^ k := by
  induction fuel generalizing d k with
  | zero => rfl
  | succ fuel ih =>
    unfold trimZeros
    split
    · rename_i h
      rw [ih, zpow_add_one₀ (by norm_num)]
      have : ((d / 10 * 10 : ℕ) : ℚ) = d := by exact_mod_cast (by omega)
      push_cast at this
      linear_combination (10 : ℚ) ^ k * this
    · rfl

/-! ## Printing and reading -/

/-- A natural number is the value of a double with a fitting quotient. -/
theorem natCast_quotient {mant : Nat} {exp : Int}
    (h : mant * (powerOfTwo exp).1 % (powerOfTwo exp).2 = 0) :
    ((mant * (powerOfTwo exp).1 / (powerOfTwo exp).2 : ℕ) : ℚ) = mant * 2 ^ exp := by
  have hb : ((powerOfTwo exp).2 : ℚ) ≠ 0 := by exact_mod_cast (powerOfTwo_pos exp).2.ne'
  rw [Nat.cast_div (Nat.dvd_of_mod_eq_zero h) hb, Nat.cast_mul, mul_div_assoc, powerOfTwo_div]

/-- Small integers are printed as such, and zero is one of them. -/
theorem display_cases (x : Float) :
    (∃ i, integer? x = some i ∧ display x = toString i) ∨
      (integer? x ≠ some 0 ∧ display x = text x) := by
  have hbound : 0 < Nat.pow 10 15 := Nat.pow_pos (by decide)
  unfold display
  generalize Nat.pow 10 15 = bound at *
  cases integer? x with
  | none => exact .inr ⟨by simp, rfl⟩
  | some i =>
    by_cases hi : i.natAbs < bound
    · exact .inl ⟨i, rfl, if_pos hi⟩
    · refine .inr ⟨?_, if_neg hi⟩
      rintro ⟨⟩
      exact hi hbound

/-- Digits whose value lies in the interval of a double are printed and read as that double. -/
theorem ofDigits_of_holds {mant : Nat} {exp : Int} {whole fraction : List Char}
    (hc : Canonical mant exp) (hpos : 0 < mant)
    (h : (Rounding.of mant exp).Holds
      (digitsValue (whole ++ fraction) * 10 ^ (0 - (fraction.length : Int)))) :
    ofDigits false whole fraction 0 = ofMagnitude false (encode mant exp) :=
  ofDecimal_of_holds false hc hpos h

/-- The digits of a finite number read back as the number. -/
theorem display_digits {bits : Nat} (h : bits < infinityBits) :
    ∃ whole fraction, whole ≠ [] ∧ AllDigits whole ∧ AllDigits fraction ∧
      (display (ofMagnitude false bits)).toList = numeralOf whole fraction ∧
      ofDigits false whole fraction 0 = ofMagnitude false bits := by
  obtain ⟨mant, exp, hc, rfl, hparts⟩ := ofFloat_ofMagnitude h
  have hzero : mant = 0 → encode mant exp = 0 := by
    rintro rfl
    have := hc.normal
    unfold encode
    omega
  -- An integer is printed by its own digits.
  have hint (n : Nat) (hn : (n : ℚ) = mant * 2 ^ exp) :
      ∃ whole fraction, whole ≠ [] ∧ AllDigits whole ∧ AllDigits fraction ∧
        (toString (n : Int)).toList = numeralOf whole fraction ∧
        ofDigits false whole fraction 0 = ofMagnitude false (encode mant exp) := by
    refine ⟨Nat.toDigits 10 n, [], Nat.toDigits_ne_nil, allDigits_toDigits n,
      fun c h => absurd h List.not_mem_nil, ?_, ?_⟩
    · rw [numeralOf, if_pos rfl, List.append_nil]
      exact Nat.toList_repr
    rcases Nat.eq_zero_or_pos mant with hm | hm
    · rw [hm, Nat.cast_zero, zero_mul, Nat.cast_eq_zero] at hn
      rw [hzero hm, hn, ofDigits, List.append_nil, digitsValue_toDigits, ofDecimal, if_pos rfl]
    · apply ofDigits_of_holds hc hm
      rw [List.append_nil, digitsValue_toDigits, hn]
      simpa using Rounding.holds_self hm
  have htext (hm : 0 < mant) :
      ∃ whole fraction, whole ≠ [] ∧ AllDigits whole ∧ AllDigits fraction ∧
        (text (ofMagnitude false (encode mant exp))).toList = numeralOf whole fraction ∧
        ofDigits false whole fraction 0 = ofMagnitude false (encode mant exp) := by
    obtain ⟨whole, fraction, hw, hwd, hfd, hpos, hval⟩ :=
      positional_digits (trimZeros 17 (shortest mant exp).1 (shortest mant exp).2).1
        (trimZeros 17 (shortest mant exp).1 (shortest mant exp).2).2
    refine ⟨whole, fraction, hw, hwd, hfd, ?_, ofDigits_of_holds hc hm ?_⟩
    · rw [text, hparts]
      simp only [hm.ne', ↓reduceIte, Bool.false_eq_true]
      rw [String.toList_ofList, hpos]
    · rw [hval, trimZeros_value]
      exact shortest_holds hc hm
  have hinteger : integer? (ofMagnitude false (encode mant exp)) =
      if mant * (powerOfTwo exp).1 % (powerOfTwo exp).2 = 0 then
        some ((mant * (powerOfTwo exp).1 / (powerOfTwo exp).2 : ℕ) : Int)
      else none := by
    rw [integer?, hparts]
    rfl
  rcases display_cases (ofMagnitude false (encode mant exp)) with ⟨i, hi, hd⟩ | ⟨hne, hd⟩
  · rw [hinteger, Option.ite_none_right_eq_some] at hi
    obtain ⟨hmod, hi⟩ := hi
    obtain rfl := Option.some.inj hi
    rw [hd]
    exact hint _ (natCast_quotient hmod)
  · rw [hd]
    apply htext
    rcases Nat.eq_zero_or_pos mant with hm | hm
    · rw [hinteger, hm, Nat.zero_mul, Nat.zero_mod, if_pos rfl, Nat.zero_div] at hne
      exact absurd rfl hne
    · exact hm

theorem display_infinity : display (ofMagnitude false infinityBits) = "inf" := by
  simp [display, integer?, text, ofFloat_ofMagnitude_infinity]

end Hotload.Number
