/-
StepTone.Proofs.DoubleArithmetic — the operations on doubles are correctly rounded.

Each of the four operations on finite doubles stands for the exact result, rounded once
(`denotes_add`, `denotes_sub`, `denotes_mul`, `denotes_div`), and an integer becomes the
nearest double (`denotes_ofInt`). Nothing is assumed: the operations are those that the
core library defines, and the lemmas follow them case by case.
-/
import StepTone.Arithmetic
import StepTone.Proofs.DoubleRounding

namespace StepTone.Binary64

open Float.Model (Format UnpackedFloat totalExponent)
open Float.Model.UnpackedFloat

/-! ## Sums -/

/-- Bringing a number to a lower exponent keeps its value. -/
theorem apply_decreaseExponent (s : Sign) (m : ℕ) {e t : ℤ} (h : t ≤ e) :
    ((s.apply ((decreaseExponent m e t).1 : ℤ) : ℤ) : ℚ) * 2 ^ t =
      withSign (isNegative s) (m * 2 ^ e) := by
  have hvalue : ((m <<< (e - t).toNat : ℕ) : ℚ) * 2 ^ t = m * 2 ^ e := by
    have hexp : e = ((e - t).toNat : ℤ) + t := by omega
    rw [Nat.shiftLeft_eq]
    conv_rhs => rw [hexp, zpow_add₀ (by norm_num), zpow_natCast]
    push_cast
    ring
  cases s
  · simp only [Sign.apply, decreaseExponent, withSign_negative, Int.cast_neg, Int.cast_natCast,
      neg_mul, hvalue]
  · simp only [Sign.apply, decreaseExponent, withSign_positive, Int.cast_natCast, hvalue]

/-- A sum is brought to the lower of the two exponents, where it is exact, and then rounded
once. -/
theorem add_rounds {a b : UnpackedFloat} (ha : Fits a) (hb : Fits b) (hfa : a.isFinite = true)
    (hfb : b.isFinite = true) :
    Rounds (ratOf a + ratOf b) (UnpackedFloat.add Format.binary64 a b) := by
  cases a with
  | notANumber => cases hfa
  | infinity s => cases hfa
  | zero s =>
    rw [ratOf_zero, zero_add]
    cases b with
    | notANumber => cases hfb
    | infinity s' => cases hfb
    | zero s' =>
      rw [ratOf_zero]
      simp only [UnpackedFloat.add]
      split_ifs <;> exact .zero _ signedMagnitude_zero
    | finite s' m' e' hm' => exact rounds_self hb hfb
  | finite s m e hm =>
    cases b with
    | notANumber => cases hfb
    | infinity s' => cases hfb
    | zero s' =>
      rw [ratOf_zero, add_zero]
      exact rounds_self ha hfa
    | finite s' m' e' hm' =>
      have hround := normalize_rounds
        (s.apply (decreaseExponent m e (min e e')).1 +
          s'.apply (decreaseExponent m' e' (min e e')).1)
        (min e e') .positive
      rw [Int.cast_add, add_mul, apply_decreaseExponent s m (min_le_left e e'),
        apply_decreaseExponent s' m' (min_le_right e e')] at hround
      exact hround

theorem withSign_neg (s : Sign) (q : ℚ) :
    withSign (isNegative (-s)) q = -withSign (isNegative s) q := by
  cases s
  · exact (neg_neg q).symm
  · rfl

theorem sub_rounds {a b : UnpackedFloat} (ha : Fits a) (hb : Fits b) (hfa : a.isFinite = true)
    (hfb : b.isFinite = true) :
    Rounds (ratOf a - ratOf b) (UnpackedFloat.sub Format.binary64 a b) := by
  cases a with
  | notANumber => cases hfa
  | infinity s => cases hfa
  | zero s =>
    rw [ratOf_zero, zero_sub]
    cases b with
    | notANumber => cases hfb
    | infinity s' => cases hfb
    | zero s' =>
      rw [ratOf_zero, neg_zero]
      simp only [UnpackedFloat.sub]
      split_ifs <;> exact .zero _ signedMagnitude_zero
    | finite s' m' e' hm' =>
      have hself := rounds_self (u := .finite (-s') m' e' hm') hb rfl
      rw [ratOf_finite, withSign_neg] at hself
      exact hself
  | finite s m e hm =>
    cases b with
    | notANumber => cases hfb
    | infinity s' => cases hfb
    | zero s' =>
      rw [ratOf_zero, sub_zero]
      exact rounds_self ha hfa
    | finite s' m' e' hm' =>
      have hround := normalize_rounds
        (s.apply (decreaseExponent m e (min e e')).1 -
          s'.apply (decreaseExponent m' e' (min e e')).1)
        (min e e') .positive
      rw [Int.cast_sub, sub_mul, apply_decreaseExponent s m (min_le_left e e'),
        apply_decreaseExponent s' m' (min_le_right e e')] at hround
      exact hround

/-! ## Products -/

theorem withSign_mul (s s' : Sign) (p q : ℚ) :
    withSign (isNegative (s * s')) (p * q) =
      withSign (isNegative s) p * withSign (isNegative s') q := by
  cases s <;> cases s'
  · exact (neg_mul_neg p q).symm
  · exact (neg_mul p q).symm
  · exact (mul_neg p q).symm
  · rfl

/-- The product of two mantissas is exact. It is rounded properly if it has all the bits of a
double, or if nothing can be kept below its last place anyway. -/
theorem mul_finite_rounds (s s' : Sign) {m m' : ℕ} (e e' : ℤ) (hm : 0 < m) (hm' : 0 < m')
    (h : 52 ≤ (m * m').log2 ∨ e + e' ≤ -1074) :
    Rounds (withSign (isNegative s) (m * 2 ^ e) * withSign (isNegative s') (m' * 2 ^ e'))
      (UnpackedFloat.mul Format.binary64 (.finite s m e hm) (.finite s' m' e' hm')) := by
  have hpos : 0 < m * m' := Nat.mul_pos hm hm'
  have hvalue : (m : ℚ) * 2 ^ e * (m' * 2 ^ e') = ((m * m' : ℕ) : ℚ) * 2 ^ (e + e') := by
    rw [zpow_add₀ (by norm_num)]
    push_cast
    ring
  rw [← withSign_mul, hvalue]
  refine roundWithAccuracy_rounds (s * s') (extends_exact _) (by exact_mod_cast hpos) ?_ ?_
  · omega
  · intro hzero
    exact absurd hzero hpos.ne'

theorem mul_rounds {a b : UnpackedFloat} (ha : Fits a) (hb : Fits b) (hfa : a.isFinite = true)
    (hfb : b.isFinite = true) :
    Rounds (ratOf a * ratOf b) (UnpackedFloat.mul Format.binary64 a b) := by
  cases a with
  | notANumber => cases hfa
  | infinity s => cases hfa
  | zero s =>
    rw [ratOf_zero, zero_mul]
    cases b with
    | notANumber => cases hfb
    | infinity s' => cases hfb
    | zero s' => exact .zero _ signedMagnitude_zero
    | finite s' m' e' hm' => exact .zero _ signedMagnitude_zero
  | finite s m e hm =>
    cases b with
    | notANumber => cases hfb
    | infinity s' => cases hfb
    | zero s' =>
      rw [ratOf_zero, mul_zero]
      exact .zero _ signedMagnitude_zero
    | finite s' m' e' hm' =>
      refine mul_finite_rounds s s' e e' hm hm' ?_
      -- Two factors that both lack the leading bit have the least exponent.
      by_cases hlarge : 2 ^ 52 ≤ m * m'
      · exact .inl ((Nat.le_log2 (Nat.mul_pos hm hm').ne').mpr hlarge)
      · have hlt : m < 2 ^ 52 := lt_of_le_of_lt (Nat.le_mul_of_pos_right m hm') (by omega)
        have hlt' : m' < 2 ^ 52 := lt_of_le_of_lt (Nat.le_mul_of_pos_left m' hm) (by omega)
        have he := ha.1.2.2.resolve_left (by omega)
        have he' := hb.1.2.2.resolve_left (by omega)
        right
        omega

/-! ## Quotients -/

/-- The quotient and the remainder of a division tell how to round. -/
theorem extends_div (n : ℕ) {d : ℕ} (hd : 0 < d) :
    Extends (.ofMantissaAndAccuracy (n / d) (accuracyOfFraction (n % d) d)) (n / d) := by
  have hdq : (0 : ℚ) < d := by exact_mod_cast hd
  have hdiv : (n : ℚ) = d * ((n / d : ℕ) : ℚ) + ((n % d : ℕ) : ℚ) := by
    exact_mod_cast (Nat.div_add_mod n d).symm
  have hmod : n % d < d := Nat.mod_lt n hd
  -- All cases are about the fraction that the remainder leaves.
  have hquot : (n : ℚ) / d = ((n / d : ℕ) : ℚ) + ((n % d : ℕ) : ℚ) / d := by
    rw [hdiv]
    field_simp
  unfold accuracyOfFraction
  split_ifs with hzero
  · rw [hquot, hzero, Nat.cast_zero, zero_div, add_zero]
    exact extends_exact _
  · have hnum : (0 : ℚ) < ((n % d : ℕ) : ℚ) := by exact_mod_cast Nat.pos_of_ne_zero hzero
    have hfrac : (0 : ℚ) < ((n % d : ℕ) : ℚ) / d := div_pos hnum hdq
    rcases lt_trichotomy (2 * (n % d)) d with h | h | h
    · rw [Nat.compare_eq_lt.mpr h]
      have hhalf : ((n % d : ℕ) : ℚ) / d < 1 / 2 := by
        rw [div_lt_div_iff₀ hdq (by norm_num)]
        have : (2 : ℚ) * ((n % d : ℕ) : ℚ) < d := by exact_mod_cast h
        linarith
      refine ⟨?_, ?_, ?_⟩ <;> rw [hquot] <;>
        simp only [ExtendedMantissa.ofMantissaAndAccuracy, half, Bool.false_eq_true, if_false,
          reduceCtorEq, false_iff]
      · linarith
      · linarith
      · intro heq
        linarith
    · rw [Nat.compare_eq_eq.mpr h]
      have hhalf : ((n % d : ℕ) : ℚ) / d = 1 / 2 := by
        rw [div_eq_div_iff hdq.ne' (by norm_num)]
        have : (2 : ℚ) * ((n % d : ℕ) : ℚ) = d := by exact_mod_cast h
        linarith
      refine ⟨?_, ?_, ?_⟩ <;> rw [hquot, hhalf] <;>
        simp only [ExtendedMantissa.ofMantissaAndAccuracy, half, if_true]
      · exact le_rfl
      · linarith
    · rw [Nat.compare_eq_gt.mpr h]
      have hhalf : 1 / 2 < ((n % d : ℕ) : ℚ) / d := by
        rw [div_lt_div_iff₀ (by norm_num) hdq]
        have : (d : ℚ) < 2 * ((n % d : ℕ) : ℚ) := by exact_mod_cast h
        linarith
      have hone : ((n % d : ℕ) : ℚ) / d < 1 := by
        rw [div_lt_one hdq]
        exact_mod_cast hmod
      refine ⟨?_, ?_, ?_⟩ <;> rw [hquot] <;>
        simp only [ExtendedMantissa.ofMantissaAndAccuracy, half, if_true, reduceCtorEq, false_iff]
      · linarith
      · linarith
      · intro heq
        linarith

theorem withSign_div (s s' : Sign) (p q : ℚ) :
    withSign (isNegative (s / s')) (p / q) =
      withSign (isNegative s) p / withSign (isNegative s') q := by
  cases s <;> cases s'
  · exact (neg_div_neg_eq p q).symm
  · exact (neg_div q p).symm
  · exact (div_neg p).symm
  · rfl

/-- The quotient of two mantissas has enough bits, except near zero. -/
theorem two_pow_le_quotient {m m' k : ℕ} (hm : 0 < m) (hm' : 0 < m')
    (hk : (m'.log2 : ℤ) - m.log2 + 53 ≤ k) : 2 ^ 52 ≤ m * 2 ^ k / m' := by
  rw [Nat.le_div_iff_mul_le hm']
  have hlow := Nat.log2_self_le hm.ne'
  have hhigh : m' < 2 ^ (m'.log2 + 1) := Nat.lt_log2_self
  calc 2 ^ 52 * m' ≤ 2 ^ 52 * 2 ^ (m'.log2 + 1) := Nat.mul_le_mul_left _ hhigh.le
    _ = 2 ^ (52 + (m'.log2 + 1)) := (Nat.pow_add 2 52 _).symm
    _ ≤ 2 ^ (m.log2 + k) := Nat.pow_le_pow_right (by norm_num) (by omega)
    _ = 2 ^ m.log2 * 2 ^ k := Nat.pow_add 2 _ _
    _ ≤ m * 2 ^ k := Nat.mul_le_mul_right _ hlow

/-- The dividend is shifted until the quotient has all the bits that a double keeps, and the
remainder decides how to round. -/
theorem div_finite_rounds (s s' : Sign) {m m' : ℕ} (e e' : ℤ) (hm : 0 < m) (hm' : 0 < m') :
    Rounds (withSign (isNegative s) (m * 2 ^ e) / withSign (isNegative s') (m' * 2 ^ e'))
      (UnpackedFloat.div Format.binary64 (.finite s m e hm) (.finite s' m' e' hm')) := by
  have hbits : Format.binary64.mantissaBits = 53 := rfl
  have hmin : Format.binary64.minExponent = -1074 := rfl
  simp only [UnpackedFloat.div, divCore, Nat.shiftLeft_eq, Format.targetExponent, totalExponent,
    hbits, hmin]
  generalize ht :
    min (e - e') (max ((m.log2 : ℤ) + 1 + e - (m'.log2 + 1 + e') - (53 : ℕ)) (-1074)) = t
  generalize hk : (e - e' - t).toNat = k
  have hvalue : (m : ℚ) * 2 ^ e / (m' * 2 ^ e') = ((m * 2 ^ k : ℕ) : ℚ) / m' * 2 ^ t := by
    have hexp : e - e' = k + t := by omega
    have hpow : (2 : ℚ) ^ e / 2 ^ e' = 2 ^ k * 2 ^ t := by
      rw [← zpow_sub₀ (by norm_num), hexp, zpow_add₀ (by norm_num), zpow_natCast]
    rw [mul_div_mul_comm, hpow]
    push_cast
    ring
  have hpos : (0 : ℚ) < ((m * 2 ^ k : ℕ) : ℚ) / m' := by
    have : 0 < m * 2 ^ k := Nat.mul_pos hm (Nat.two_pow_pos k)
    exact div_pos (by exact_mod_cast this) (by exact_mod_cast hm')
  have hlarge : -1074 < t → 2 ^ 52 ≤ m * 2 ^ k / m' := fun h =>
    two_pow_le_quotient hm hm' (by omega)
  rw [← withSign_div, hvalue]
  refine roundWithAccuracy_rounds (s / s') (extends_div _ hm') hpos ?_ ?_
  · rcases le_or_gt t (-1074) with h | h
    · omega
    · have hbit := (Nat.le_log2 (by have := hlarge h; omega)).mpr (hlarge h)
      omega
  · intro hzero
    by_contra h
    have := hlarge (by omega)
    omega

theorem div_rounds {a b : UnpackedFloat} (hfa : a.isFinite = true) (hfb : b.isFinite = true)
    (hb : ratOf b ≠ 0) : Rounds (ratOf a / ratOf b) (UnpackedFloat.div Format.binary64 a b) := by
  cases b with
  | notANumber => cases hfb
  | infinity s' => cases hfb
  | zero s' => exact absurd (ratOf_zero s') hb
  | finite s' m' e' hm' =>
    cases a with
    | notANumber => cases hfa
    | infinity s => cases hfa
    | zero s =>
      rw [ratOf_zero, zero_div]
      exact .zero _ signedMagnitude_zero
    | finite s m e hm => exact div_finite_rounds s s' e e' hm hm'

/-! ## Operations on doubles -/

section Operations

variable {x y : Float}

/-- A sum of finite doubles is the nearest double to the exact sum. -/
theorem denotes_add (hx : isFinite x = true) (hy : isFinite y = true) :
    Denotes (x + y) (rounded (toRat x + toRat y)) := by
  rw [isFinite_eq] at hx hy
  have h := add_rounds (fits_toModel x) (fits_toModel y) hx hy
  rw [ratOf_unpack, ratOf_unpack] at h
  exact h.denotes

theorem denotes_sub (hx : isFinite x = true) (hy : isFinite y = true) :
    Denotes (x - y) (rounded (toRat x - toRat y)) := by
  rw [isFinite_eq] at hx hy
  have h := sub_rounds (fits_toModel x) (fits_toModel y) hx hy
  rw [ratOf_unpack, ratOf_unpack] at h
  exact h.denotes

theorem denotes_mul (hx : isFinite x = true) (hy : isFinite y = true) :
    Denotes (x * y) (rounded (toRat x * toRat y)) := by
  rw [isFinite_eq] at hx hy
  have h := mul_rounds (fits_toModel x) (fits_toModel y) hx hy
  rw [ratOf_unpack, ratOf_unpack] at h
  exact h.denotes

theorem denotes_div (hx : isFinite x = true) (hy : isFinite y = true) (hne : toRat y ≠ 0) :
    Denotes (x / y) (rounded (toRat x / toRat y)) := by
  rw [isFinite_eq] at hx hy
  rw [← ratOf_unpack] at hne
  have h := div_rounds hx hy hne
  rw [ratOf_unpack, ratOf_unpack] at h
  exact h.denotes

end Operations

/-! ## Integers -/

/-- The conversion that the core library defines rounds once. -/
theorem denotes_packed_ofInt (n : ℤ) :
    Denotes (packed (UnpackedFloat.ofInt Format.binary64 n)) (rounded n) := by
  have h := normalize_rounds n 0 .positive
  rw [zpow_zero, mul_one] at h
  exact h.denotes

theorem denotes_one : Denotes (Float.ofBits 0x3FF0000000000000) 1 := by
  have h : value (Float.ofBits 0x3FF0000000000000) = .finite false (2 ^ 52) (-52) := by
    decide +kernel
  refine ⟨by rw [IsNumber, h]; simp, ?_⟩
  rw [toRat, h]
  change ((2 ^ 52 : ℕ) : ℚ) * 2 ^ (-52 : ℤ) = 1
  norm_num

/-- Numbers that fit a mantissa are far from overflow. -/
theorem abs_natCast_lt_beyond {n : ℕ} (h : n < 2 ^ 53) : |(n : ℚ)| < beyond := by
  rw [Nat.abs_cast]
  calc (n : ℚ) < 2 ^ (53 : ℤ) := by exact_mod_cast h
    _ ≤ beyond := two_zpow_le_beyond (by norm_num)

theorem denotes_toFloat {n : ℕ} (h : n < 2 ^ 53) : Denotes n.toUInt64.toFloat n := by
  have hword : n.toUInt64.toNat = n := by
    have : n % 2 ^ 64 = n := Nat.mod_eq_of_lt (by omega)
    simpa using this
  have hround : rounded ((n.toUInt64.toNat : ℤ) : ℚ) = n := by
    rw [Int.cast_natCast, hword, rounded_natCast h]
  have hpacked := denotes_packed_ofInt n.toUInt64.toNat
  rw [hround] at hpacked
  exact hpacked

/-- A natural number without a power of ten is rounded once. -/
theorem ofScientific_rounds {n : ℕ} (hn : 0 < n) :
    Rounds n (UnpackedFloat.ofScientific Format.binary64 n 0) := by
  have hpos : 0 < n <<< Format.binary64.mantissaBits := by
    rw [Nat.shiftLeft_eq]
    exact Nat.mul_pos hn (Nat.two_pow_pos _)
  have hlog : 52 ≤ (n <<< Format.binary64.mantissaBits * 10 ^ (0 : ℤ).toNat).log2 := by
    rw [Int.toNat_zero, pow_zero, mul_one, Nat.le_log2 hpos.ne', Nat.shiftLeft_eq]
    exact (Nat.pow_le_pow_right (by norm_num) (show 52 ≤ 53 by norm_num)).trans
      (Nat.le_mul_of_pos_left _ hn)
  have h := mul_finite_rounds .positive .positive (-Format.binary64.mantissaBits) 0 hpos
    (Nat.pow_pos (show 0 < 10 by norm_num)) (.inl hlog)
  have hvalue : withSign (isNegative .positive)
        ((n <<< Format.binary64.mantissaBits : ℕ) * 2 ^ (-(Format.binary64.mantissaBits : ℤ))) *
      withSign (isNegative .positive) (((10 ^ (0 : ℤ).toNat : ℕ) : ℚ) * 2 ^ (0 : ℤ)) = n := by
    rw [withSign_positive, withSign_positive, Nat.shiftLeft_eq, zpow_neg, zpow_natCast]
    push_cast
    field_simp
  rw [hvalue] at h
  unfold UnpackedFloat.ofScientific
  rw [dif_neg hn.ne', if_neg (by decide), if_neg, if_pos le_rfl]
  · exact h
  · have : (0 : ℤ) ≤ 2 ^ Format.binary64.exponentBits := by positivity
    omega

/-- A natural number becomes the nearest double. -/
theorem denotes_ofNat (n : ℕ) : Denotes (Float.ofNat n) (rounded n) := by
  have hdef : Float.ofNat n = Float.ofScientific n false 0 := rfl
  rw [hdef, Float.ofScientific]
  simp only [Bool.false_eq_true, if_false]
  split_ifs with h
  · -- A small number is converted as a word and multiplied by one.
    have hword := denotes_toFloat h.1
    have hone := denotes_one.isFinite
      (by exact_mod_cast abs_natCast_lt_beyond (n := 1) (by norm_num))
    have hmul := denotes_mul (hword.isFinite (abs_natCast_lt_beyond h.1)) hone
    rw [hword.toRat_eq, denotes_one.toRat_eq, mul_one] at hmul
    exact hmul
  · exact (ofScientific_rounds (n := n) (by omega)).denotes

theorem unpack_packed_neg {u : UnpackedFloat} (hfits : Fits u) (hu : u ≠ .notANumber) :
    (packed u.neg).toModel.unpack = u.neg := by
  rw [unpack_packed]
  cases u with
  | notANumber => exact absurd rfl hu
  | infinity s => exact unpack_packedInfinity (-s)
  | zero s => exact unpack_packedZero (-s)
  | finite s m e hm => exact unpack_pack_finite (-s) m e hm hfits.1 hfits.2

theorem ratOf_neg (u : UnpackedFloat) : ratOf u.neg = -ratOf u := by
  cases u with
  | notANumber => exact neg_zero.symm
  | infinity s => exact withSign_neg s beyond
  | zero s =>
    rw [ratOf_zero, neg_zero]
    exact ratOf_zero (-s)
  | finite s m e hm => exact withSign_neg s (m * 2 ^ e)

/-- The sign of a double can be turned without rounding. -/
theorem Denotes.neg {x : Float} {q : ℚ} (h : Denotes x q) : Denotes (-x) (-q) := by
  have hu := (isNumber_iff x).mp h.isNumber
  have hneg : x.toModel.unpack.neg ≠ .notANumber := by
    cases hx : x.toModel.unpack <;> simp_all [UnpackedFloat.neg]
  have hunpack := unpack_packed_neg (fits_toModel x) hu
  have hden := denotes_of_unpack hunpack hneg
  rw [ratOf_neg, ratOf_unpack, h.toRat_eq] at hden
  exact hden

/-- An integer becomes the nearest double. -/
theorem denotes_ofInt (n : ℤ) : Denotes (Float.ofInt n) (rounded n) := by
  cases n with
  | ofNat n =>
    rw [Int.ofNat_eq_natCast, Int.cast_natCast]
    exact denotes_ofNat n
  | negSucc n =>
    have hcast : ((Int.negSucc n : ℤ) : ℚ) = -((n + 1 : ℕ) : ℚ) := by
      rw [Int.cast_negSucc]
    rw [hcast, rounded_neg]
    exact (denotes_ofNat (n + 1)).neg

end StepTone.Binary64
