/-
StepTone.Proofs.DoubleRounding — the rounding of the core library is rounding to the
nearest double.

An operation on doubles yields a mantissa, an exponent and how far the exact result
lies above them. Bits are then dropped one by one, two residual bits remembering what
was lost, until the exponent is the wanted one.

* `Extends em x` — the mantissa with its residual bits tells `x` apart as far as
  rounding needs it. Dropping a bit keeps this (`Extends.shiftRightOne`), so dropping
  any number of bits does (`Extends.shiftRight`).
* `Rounds q u` — `u` is `q` rounded, with an exponent that may still be too large.
* `roundWithAccuracy_rounds`, `normalize_rounds` — the two entries to rounding.
* `Rounds.denotes` — packing turns what is too large into an infinity, so that the
  double stands for `rounded q`.
-/
import StepTone.Proofs.Doubles

namespace StepTone.Binary64

open Float.Model (Format UnpackedFloat totalExponent)
open Float.Model.UnpackedFloat

/-! ## Mantissas with residual bits -/

/-- One half for a set bit. -/
def half (bit : Bool) : ℚ :=
  if bit then 1 / 2 else 0

/-- A mantissa with its two residual bits stands for all the numbers that round alike. -/
structure Extends (em : ExtendedMantissa) (x : ℚ) : Prop where
  lower : em.mantissa + half em.roundBit ≤ x
  upper : x < em.mantissa + half em.roundBit + 1 / 2
  sticky : em.stickyBit = false ↔ x = em.mantissa + half em.roundBit

namespace Extends

variable {em : ExtendedMantissa} {x : ℚ}

theorem mantissa_le (h : Extends em x) : (em.mantissa : ℚ) ≤ x := by
  have := h.lower
  unfold half at this
  split_ifs at this <;> linarith

theorem lt_mantissa_add_one (h : Extends em x) : x < em.mantissa + 1 := by
  have := h.upper
  unfold half at this
  split_ifs at this <;> linarith

theorem floor_eq (h : Extends em x) : ⌊x⌋ = em.mantissa :=
  Int.floor_eq_iff.mpr ⟨by exact_mod_cast h.mantissa_le, by exact_mod_cast h.lt_mantissa_add_one⟩

theorem roundedMantissa_eq (h : Extends em x) : (em.roundedMantissa : ℤ) = halfEven x := by
  have hfloor := h.floor_eq
  obtain ⟨m, r, s⟩ := em
  obtain ⟨hlower, hupper, hsticky⟩ := h
  rw [halfEven, hfloor]
  cases r <;> cases s <;>
    simp only [half, Bool.false_eq_true, if_false, if_true, add_zero, true_iff, reduceCtorEq,
      false_iff, Int.cast_natCast] at hlower hupper hsticky hfloor ⊢
  · rw [if_pos (by linarith)]
    rfl
  · rw [if_pos (by linarith)]
    rfl
  · rw [if_neg (by linarith), if_pos hsticky]
    rfl
  · rw [if_neg (by linarith), if_neg hsticky]
    rfl

/-- Dropping one bit halves the number. -/
theorem shiftRightOne (h : Extends em x) : Extends em.shiftRightOne (x / 2) := by
  have hlow := h.mantissa_le
  have hhigh := h.lt_mantissa_add_one
  obtain ⟨m, r, s⟩ := em
  obtain ⟨hlower, hupper, hsticky⟩ := h
  -- The dropped bit of the mantissa becomes the bit after it.
  have hbit : (((m / 2 : ℕ) : ℚ)) + half (m % 2 != 0) = m / 2 := by
    have hdiv : (((m / 2 : ℕ) : ℚ)) * 2 + ((m % 2 : ℕ) : ℚ) = m := by
      exact_mod_cast Nat.div_add_mod' m 2
    rcases Nat.mod_two_eq_zero_or_one m with hm | hm <;> rw [hm] at hdiv ⊢ <;>
      simp [half] at hdiv ⊢ <;> linarith
  refine ⟨?_, ?_, ?_⟩
  · change ((m / 2 : ℕ) : ℚ) + half (m % 2 != 0) ≤ x / 2
    rw [hbit]
    exact div_le_div_of_nonneg_right hlow (by norm_num)
  · change x / 2 < ((m / 2 : ℕ) : ℚ) + half (m % 2 != 0) + 1 / 2
    rw [hbit]
    dsimp only at hhigh
    linarith
  · change (r || s) = false ↔ x / 2 = ((m / 2 : ℕ) : ℚ) + half (m % 2 != 0)
    rw [hbit, div_left_inj' (by norm_num)]
    cases r <;> cases s <;>
      simp only [half, Bool.false_eq_true, if_false, if_true, add_zero, true_iff,
        reduceCtorEq, false_iff, Bool.or_true, Bool.or_false] at hlower hsticky ⊢
    · exact hsticky
    · exact hsticky
    · intro hx
      linarith
    · intro hx
      linarith

theorem shiftRight (h : Extends em x) (n : ℕ) : Extends (em >>> n) (x / 2 ^ n) := by
  change Extends (n.repeat ExtendedMantissa.shiftRightOne em) (x / 2 ^ n)
  induction n with
  | zero => simpa [Nat.repeat] using h
  | succ n ih =>
    rw [pow_succ, ← div_div]
    exact ih.shiftRightOne

end Extends

theorem extends_exact (m : ℕ) : Extends (.ofMantissaAndAccuracy m .exact) m := by
  refine ⟨?_, ?_, ?_⟩ <;> simp [ExtendedMantissa.ofMantissaAndAccuracy, half]

/-! ## The exponent that rounding aims at -/

theorem targetExponent_eq (m : ℕ) (e : ℤ) :
    Format.binary64.targetExponent (totalExponent m e) = max (m.log2 + e - 52) (-1074) := by
  have hbits : Format.binary64.mantissaBits = 53 := rfl
  have hmin : Format.binary64.minExponent = -1074 := rfl
  rw [Format.targetExponent, totalExponent, hbits, hmin]
  omega

/-- The exponent that the model aims at is the last place of the number. -/
theorem place_eq_target {m : ℕ} {e : ℤ} {x : ℚ} (hx : 0 < x) (hlow : (m : ℚ) ≤ x)
    (hhigh : x < m + 1) (hzero : m = 0 → e ≤ -1074) :
    place (x * 2 ^ e) = max ((m.log2 : ℤ) + e - 52) (-1074) := by
  have hpow := zpow_pos (show (0 : ℚ) < 2 by norm_num) e
  rcases Nat.eq_zero_or_pos m with rfl | hm
  · have he := hzero rfl
    rw [show max (((0 : ℕ).log2 : ℤ) + e - 52) (-1074) = -1074 by simp; omega]
    refine place_eq ?_ le_rfl (.inr rfl) (mul_pos hx hpow)
    calc x * 2 ^ e < 1 * 2 ^ e := mul_lt_mul_of_pos_right (by simpa using hhigh) hpow
      _ = 2 ^ e := one_mul _
      _ ≤ 2 ^ (53 + -1074 : ℤ) := zpow_le_zpow_right₀ (by norm_num) (by omega)
  · have hlog : (2 : ℚ) ^ (m.log2 : ℤ) ≤ x := by
      refine le_trans ?_ hlow
      exact_mod_cast Nat.log2_self_le hm.ne'
    have hlog' : x < 2 ^ ((m.log2 : ℤ) + 1) := by
      refine hhigh.trans_le ?_
      exact_mod_cast (Nat.lt_log2_self : m < 2 ^ (m.log2 + 1))
    refine place_eq ?_ (le_max_right _ _) ?_ (mul_pos hx hpow)
    · calc x * 2 ^ e < 2 ^ ((m.log2 : ℤ) + 1) * 2 ^ e := mul_lt_mul_of_pos_right hlog' hpow
        _ = 2 ^ ((m.log2 : ℤ) + 1 + e) := (zpow_add₀ (by norm_num) _ _).symm
        _ ≤ _ := zpow_le_zpow_right₀ (by norm_num) (by omega)
    · by_cases h : (m.log2 : ℤ) + e - 52 ≤ -1074
      · right
        omega
      · left
        rw [show 52 + max ((m.log2 : ℤ) + e - 52) (-1074) = m.log2 + e by omega,
          zpow_add₀ (by norm_num)]
        exact mul_le_mul_of_nonneg_right hlog hpow.le

theorem shiftToTargetExponent_of_lt {m : ℕ} {e : ℤ} (hm : m < 2 ^ 53) (he : -1074 ≤ e) :
    shiftToTargetExponent Format.binary64 m e .exact = (⟨m, false, false⟩, e) := by
  have hlog : m.log2 ≤ 52 := by
    rcases Nat.eq_zero_or_pos m with rfl | hpos
    · simp
    · exact Nat.le_of_lt_succ ((Nat.log2_lt hpos.ne').mpr hm)
  have hshift : (max ((m.log2 : ℤ) + e - 52) (-1074) - e).toNat = 0 := by omega
  rw [shiftToTargetExponent, shiftToExponent, targetExponent_eq, hshift]
  simp [HShiftRight.hShiftRight, Nat.repeat, ExtendedMantissa.ofMantissaAndAccuracy]

/-- A carry out of the mantissa moves it one place. -/
theorem shiftToTargetExponent_carry {e : ℤ} (he : -1074 ≤ e) :
    shiftToTargetExponent Format.binary64 (2 ^ 53) e .exact = (⟨2 ^ 52, false, false⟩, e + 1) := by
  have hlog : ((2 ^ 53 : ℕ)).log2 = 53 := Nat.log2_two_pow
  have hshift : (max (((2 ^ 53 : ℕ).log2 : ℤ) + e - 52) (-1074) - e).toNat = 1 := by
    rw [hlog]
    omega
  rw [shiftToTargetExponent, shiftToExponent, targetExponent_eq, hshift]
  simp [HShiftRight.hShiftRight, Nat.repeat, ExtendedMantissa.ofMantissaAndAccuracy,
    ExtendedMantissa.shiftRightOne]

/-! ## Rounding -/

/-- The unpacked number is `q` rounded, before it is seen whether the exponent fits. -/
inductive Rounds (q : ℚ) : UnpackedFloat → Prop
  | zero (s : Sign) : signedMagnitude q = 0 → Rounds q (.zero s)
  | finite (s : Sign) (m : ℕ) (e : ℤ) (hm : 0 < m) : IsRounded m e →
      withSign (isNegative s) (m * 2 ^ e) = signedMagnitude q → Rounds q (.finite s m e hm)

theorem signedMagnitude_withSign (b : Bool) {q : ℚ} (h : 0 ≤ q) :
    signedMagnitude (withSign b q) = withSign b (magnitude q) := by
  cases b
  · exact signedMagnitude_of_nonneg h
  · exact (signedMagnitude_neg q).trans (congrArg Neg.neg (signedMagnitude_of_nonneg h))

/-- What the second shift and the test for zero make of a rounded mantissa. -/
theorem rounds_of_mantissa {q : ℚ} (s : Sign) (r : ℕ) {t : ℤ} (ht : -1074 ≤ t) (hr : r ≤ 2 ^ 53)
    (hnormal : 2 ^ 52 ≤ r ∨ t = -1074)
    (hq : withSign (isNegative s) (r * 2 ^ t) = signedMagnitude q) :
    Rounds q (let (em, e) := shiftToTargetExponent Format.binary64 r t .exact
      if h : em.mantissa = 0 then .zero s else .finite s em.mantissa e (Nat.pos_of_ne_zero h)) := by
  rcases hr.lt_or_eq with hlt | rfl
  · rw [shiftToTargetExponent_of_lt hlt ht]
    dsimp only
    split_ifs with hzero
    · refine .zero s ?_
      rw [← hq, hzero]
      simp
    · exact .finite s r t _ ⟨hlt, ht, hnormal⟩ hq
  · rw [shiftToTargetExponent_carry ht]
    dsimp only
    rw [dif_neg (by norm_num)]
    refine .finite s _ _ _ ⟨by norm_num, by omega, .inl le_rfl⟩ ?_
    rw [← hq, zpow_add₀ (by norm_num)]
    congr 1
    push_cast
    ring

@[simp] theorem mantissa_ofMantissaAndAccuracy (m : ℕ) (acc : Accuracy) :
    (ExtendedMantissa.ofMantissaAndAccuracy m acc).mantissa = m := by
  cases acc with
  | exact => rfl
  | inexact o => cases o <;> rfl

/-- Rounding in the model is rounding to the nearest double. -/
theorem roundWithAccuracy_rounds (s : Sign) {m : ℕ} {e : ℤ} {acc : Accuracy} {x : ℚ}
    (h : Extends (.ofMantissaAndAccuracy m acc) x) (hx : 0 < x)
    (he : e ≤ max ((m.log2 : ℤ) + e - 52) (-1074)) (hzero : m = 0 → e ≤ -1074) :
    Rounds (withSign (isNegative s) (x * 2 ^ e)) (roundWithAccuracy Format.binary64 s m e acc) := by
  have hlow := h.mantissa_le
  have hhigh := h.lt_mantissa_add_one
  rw [mantissa_ofMantissaAndAccuracy] at hlow hhigh
  have hplace := place_eq_target hx hlow hhigh hzero
  set t := max ((m.log2 : ℤ) + e - 52) (-1074) with ht
  have hpos : 0 < x * 2 ^ e := mul_pos hx (zpow_pos (by norm_num) e)
  have hexp : e + ((t - e).toNat : ℤ) = t := by omega
  -- The first shift brings the number to its last place.
  have hfirst := h.shiftRight (t - e).toNat
  have hquot : x / 2 ^ (t - e).toNat = x * 2 ^ e / 2 ^ place (x * 2 ^ e) := by
    conv_rhs => rw [hplace, ← hexp, zpow_add₀ (by norm_num), zpow_natCast]
    field_simp
  have hround := hfirst.roundedMantissa_eq
  rw [hquot] at hround
  set r := ((ExtendedMantissa.ofMantissaAndAccuracy m acc) >>> (t - e).toNat).roundedMantissa
  have hvalue : (r : ℚ) * 2 ^ t = magnitude (x * 2 ^ e) := by
    rw [magnitude, ← hround, hplace]
    norm_cast
  have hpow := zpow_pos (show (0 : ℚ) < 2 by norm_num) t
  have hr : r ≤ 2 ^ 53 := by
    have hle := magnitude_le_two_zpow_place (x * 2 ^ e)
    rw [← hvalue, hplace, zpow_add₀ (by norm_num)] at hle
    exact_mod_cast le_of_mul_le_mul_right hle hpow
  have hnormal : 2 ^ 52 ≤ r ∨ t = -1074 := by
    rcases (le_max_right ((m.log2 : ℤ) + e - 52) (-1074)).lt_or_eq with hlt | heq
    · left
      have hge := two_zpow_place_le_magnitude hpos (hplace ▸ hlt)
      rw [← hvalue, hplace, zpow_add₀ (by norm_num)] at hge
      exact_mod_cast le_of_mul_le_mul_right hge hpow
    · exact .inr heq.symm
  unfold roundWithAccuracy
  rw [shiftToTargetExponent, shiftToExponent, targetExponent_eq, ← ht]
  dsimp only
  rw [hexp]
  refine rounds_of_mantissa s r (le_max_right _ _) hr hnormal ?_
  rw [hvalue, signedMagnitude_withSign _ hpos.le]

/-- The same from a number whose exponent may be too large at first. -/
theorem round_rounds (s : Sign) {m : ℕ} (hm : 0 < m) (e : ℤ) :
    Rounds (withSign (isNegative s) (m * 2 ^ e)) (UnpackedFloat.round Format.binary64 s m e) := by
  unfold UnpackedFloat.round decreaseExponent
  dsimp only
  rw [targetExponent_eq, Nat.shiftLeft_eq]
  generalize hk : (e - max ((m.log2 : ℤ) + e - 52) (-1074)).toNat = k
  have hpos : 0 < m * 2 ^ k := Nat.mul_pos hm (Nat.two_pow_pos k)
  have hlog : (m * 2 ^ k).log2 = m.log2 + k := by
    rw [Nat.log2_eq_iff hpos.ne']
    have hlow := Nat.log2_self_le hm.ne'
    have hhigh : m < 2 ^ (m.log2 + 1) := Nat.lt_log2_self
    constructor
    · rw [Nat.pow_add]
      exact Nat.mul_le_mul_right _ hlow
    · rw [show m.log2 + k + 1 = m.log2 + 1 + k by omega, Nat.pow_add]
      exact Nat.mul_lt_mul_of_pos_right hhigh (Nat.two_pow_pos k)
  have hvalue : (m : ℚ) * 2 ^ e = ((m * 2 ^ k : ℕ) : ℚ) * 2 ^ (e - k) := by
    rw [zpow_sub₀ (by norm_num), zpow_natCast]
    push_cast
    field_simp
  rw [hvalue]
  refine roundWithAccuracy_rounds s (extends_exact _) (by exact_mod_cast hpos) ?_ ?_
  · rw [hlog]
    omega
  · intro h
    exact absurd h hpos.ne'

theorem signedMagnitude_zero : signedMagnitude 0 = 0 := by
  simp [signedMagnitude]

theorem normalize_rounds (n : ℤ) (e : ℤ) (z : Sign) :
    Rounds (n * 2 ^ e) (UnpackedFloat.normalize Format.binary64 n e z) := by
  unfold UnpackedFloat.normalize
  rcases lt_trichotomy n 0 with h | rfl | h
  · rw [Int.compare_eq_lt.mpr h]
    have hcast : ((n : ℤ) : ℚ) = -(((-n).toNat : ℕ) : ℚ) := by
      have : (((-n).toNat : ℕ) : ℤ) = -n := Int.toNat_of_nonneg (by omega)
      rw [← Int.cast_natCast, this]
      push_cast
      ring
    have hround := round_rounds .negative (m := (-n).toNat) (by omega) e
    rwa [withSign_negative, ← neg_mul, ← hcast] at hround
  · rw [Int.compare_eq_eq.mpr rfl]
    refine .zero z ?_
    rw [Int.cast_zero, zero_mul, signedMagnitude_zero]
  · rw [Int.compare_eq_gt.mpr h]
    have hcast : ((n : ℤ) : ℚ) = ((n.toNat : ℕ) : ℚ) := by
      have : ((n.toNat : ℕ) : ℤ) = n := Int.toNat_of_nonneg h.le
      rw [← Int.cast_natCast, this]
    have hround := round_rounds .positive (m := n.toNat) (by omega) e
    rwa [withSign_positive, ← hcast] at hround

/-- A number that needs no rounding. -/
theorem rounds_self {u : UnpackedFloat} (hfits : Fits u) (hfinite : u.isFinite = true) :
    Rounds (ratOf u) u := by
  cases u with
  | notANumber => cases hfinite
  | infinity s => cases hfinite
  | zero s => exact .zero s (by rw [ratOf_zero, signedMagnitude_zero])
  | finite s m e hm =>
    refine .finite s m e hm hfits.1 ?_
    rw [ratOf_finite, signedMagnitude_withSign _ (dyadic_pos hm e).le,
      magnitude_dyadic hfits.1.1 hfits.1.2.1]

/-! ## Packing a rounded number -/

/-- The double that an unpacked number becomes. -/
def packed (u : UnpackedFloat) : Float :=
  .ofModel (.pack u)

theorem unpack_packed (u : UnpackedFloat) :
    (packed u).toModel.unpack = UnpackedFloat.unpack Format.binary64 (u.pack Format.binary64) :=
  rfl

theorem rounded_withSign {b : Bool} {p q : ℚ} (h : withSign b p = signedMagnitude q) (hp : 0 ≤ p) :
    rounded q = withSign b (min p beyond) := by
  have hb := beyond_pos
  unfold rounded
  rw [← h]
  cases b
  · rw [withSign_false, withSign_false]
    exact max_eq_right (le_min (by linarith) (by linarith))
  · rw [withSign_true, withSign_true, min_eq_left (show -p ≤ (beyond : ℚ) by linarith)]
    rcases le_total p beyond with hle | hle
    · rw [min_eq_left hle, max_eq_right (neg_le_neg hle)]
    · rw [min_eq_right hle, max_eq_left (neg_le_neg hle)]

/-- A rounded number becomes the double of that number. -/
theorem Rounds.denotes {q : ℚ} {u : UnpackedFloat} (h : Rounds q u) :
    Denotes (packed u) (rounded q) := by
  cases h with
  | zero s hq =>
    have hzero : rounded q = 0 := by
      have := rounded_withSign (b := false) (p := 0) hq.symm le_rfl
      rw [this, min_eq_left beyond_pos.le]
      rfl
    rw [hzero, ← ratOf_zero s]
    exact denotes_of_unpack ((unpack_packed _).trans (unpack_packedZero s)) (by simp)
  | finite s m e hm hr hq =>
    have hpos := dyadic_pos hm e
    rw [rounded_withSign hq hpos.le]
    rcases le_or_gt e 971 with he | he
    · rw [min_eq_left (dyadic_lt_beyond hr he).le, ← ratOf_finite s m e hm]
      exact denotes_of_unpack ((unpack_packed _).trans (unpack_pack_finite s m e hm hr he))
        (by simp)
    · have hlarge : (beyond : ℚ) ≤ m * 2 ^ e := by
        have hm52 : (2 : ℚ) ^ (52 : ℤ) ≤ m := by exact_mod_cast hr.2.2.resolve_right (by omega)
        calc (beyond : ℚ) = 2 ^ (1024 : ℤ) := beyond_cast
          _ ≤ 2 ^ (52 + e) := zpow_le_zpow_right₀ (by norm_num) (by omega)
          _ = 2 ^ (52 : ℤ) * 2 ^ e := zpow_add₀ (by norm_num) _ _
          _ ≤ m * 2 ^ e := mul_le_mul_of_nonneg_right hm52 (zpow_nonneg (by norm_num) e)
      rw [min_eq_right hlarge, ← ratOf_infinity s]
      exact denotes_of_unpack ((unpack_packed _).trans (unpack_pack_overflow s m e hm (by omega)))
        (by simp)

end StepTone.Binary64
