/-
StepTone.Proofs.Doubles — what a double stands for.

The core library defines every operation on doubles by taking the bits apart into an
`UnpackedFloat`, working on that, and packing the result. This module ties these
unpacked numbers to `Binary64.value` and to rational numbers.

* `toRat x` — the number that `x` stands for. The infinities lie beyond every finite
  double, at `±2^1024`, so that the order of the numbers is that of the doubles.
* `Denotes x q` — `x` is a number and stands for `q`.
* `lt_iff`, `le_iff` — comparing doubles is comparing what they stand for; an undefined
  double compares with nothing.
* `isFinite_iff` — the finite doubles are those that stand below `2^1024`.
* `floor_eq`, `roundHalfAway_eq` — the two roundings to an integer are those of
  rational numbers.
-/
import Mathlib
import StepTone.Proofs.Rounding

namespace StepTone.Binary64

open Float.Model (Format UnpackedFloat)
open Float.Model.UnpackedFloat

/-! ## Values and unpacked numbers -/

/-- The sign as it is kept in a value. -/
def isNegative : Sign → Bool
  | .negative => true
  | .positive => false

/-- The value of an unpacked number. -/
def Value.ofUnpacked : UnpackedFloat → Value
  | .notANumber => .nan
  | .infinity s => .infinite (isNegative s)
  | .zero s => .finite (isNegative s) 0 (-1074)
  | .finite s m e _ => .finite (isNegative s) m e

/-- The mantissa is in the lowest 52 bits. -/
theorem toNat_unpackMantissa (b : BitVec Format.binary64.numBits) :
    (@unpackMantissa Format.binary64 b).toNat = b.toNat % Nat.pow 2 52 := by
  simp [unpackMantissa, BitVec.extractLsb]

theorem toNat_unpackExponent (b : BitVec Format.binary64.numBits) :
    (@unpackExponent Format.binary64 b).toNat = b.toNat / Nat.pow 2 52 % Nat.pow 2 11 := by
  simp [unpackExponent, BitVec.extractLsb, Nat.shiftRight_eq_div_pow]

theorem toNat_unpackSign (b : BitVec Format.binary64.numBits) :
    (@unpackSign Format.binary64 b).toNat = b.toNat / Nat.pow 2 63 % 2 := by
  simp [unpackSign, BitVec.extractLsb, Nat.shiftRight_eq_div_pow]

/-- The leading bit of a normal number is not stored. -/
theorem toNat_implicit (f : ℕ) (v : BitVec f) : (1#1 ++ v).toNat = v.toNat + 2 ^ f := by
  rw [BitVec.toNat_append, ← Nat.shiftLeft_add_eq_or_of_lt v.isLt]
  simp [Nat.shiftLeft_eq, Nat.add_comm]

theorem isNegative_ofBitVec (v : BitVec 1) :
    isNegative (Sign.ofBitVec v) = decide (v.toNat = 1) := by
  revert v
  decide

/-- Taking a double apart by division agrees with how the core library unpacks it. -/
theorem valueOfBits_eq (b : BitVec Format.binary64.numBits) :
    valueOfBits b.toNat = .ofUnpacked (UnpackedFloat.unpack Format.binary64 b) := by
  have hexp : unpackExponent b = -1#_ ↔ (unpackExponent b).toNat = 2047 := by
    rw [← BitVec.toNat_inj]
    rfl
  have hexp0 : unpackExponent b = 0#_ ↔ (unpackExponent b).toNat = 0 := by
    rw [← BitVec.toNat_inj]
    rfl
  have hman : unpackMantissa b = 0#_ ↔ (unpackMantissa b).toNat = 0 := by
    rw [← BitVec.toNat_inj]
    rfl
  unfold valueOfBits UnpackedFloat.unpack
  simp only [hexp, hexp0, hman, ← toNat_unpackExponent, ← toNat_unpackMantissa, ← toNat_unpackSign,
    toNat_implicit]
  by_cases h1 : (unpackExponent b).toNat = 2047
  · rw [if_pos h1, if_pos h1]
    split_ifs <;> simp [Value.ofUnpacked, isNegative_ofBitVec]
  · rw [if_neg h1, if_neg h1]
    by_cases h2 : (unpackExponent b).toNat = 0
    · rw [if_pos h2, if_pos h2]
      split_ifs with h3
      · simp [Value.ofUnpacked, isNegative_ofBitVec, h3]
      · simp [Value.ofUnpacked, isNegative_ofBitVec, h2, Format.exponentBias]
    · rw [if_neg h2, if_neg h2]
      simp [Value.ofUnpacked, isNegative_ofBitVec, Format.exponentBias]

/-- The value of a double is that of the number it unpacks to. -/
theorem value_eq_ofUnpacked (x : Float) : value x = .ofUnpacked x.toModel.unpack :=
  valueOfBits_eq _

/-! ## Unpacking and packing -/

/-- The mantissa and the exponent of a rounded number. -/
def IsRounded (m : ℕ) (e : ℤ) : Prop :=
  m < 2 ^ 53 ∧ -1074 ≤ e ∧ (2 ^ 52 ≤ m ∨ e = -1074)

/-- An unpacked number that some double unpacks to. -/
def Fits : UnpackedFloat → Prop
  | .finite _ m e _ => IsRounded m e ∧ e ≤ 971
  | _ => True

/-- What is unpacked from 64 bits fits the format. -/
theorem fits_unpack (b : BitVec Format.binary64.numBits) :
    Fits (UnpackedFloat.unpack Format.binary64 b) := by
  have hman : (unpackMantissa b).toNat < 2 ^ 52 := (unpackMantissa b).isLt
  have hexp : (unpackExponent b).toNat < 2 ^ 11 := (unpackExponent b).isLt
  have hbias : Format.binary64.exponentBias = 1023 := rfl
  unfold UnpackedFloat.unpack
  dsimp only
  split_ifs with h1 h2 h3 h4
  · trivial
  · trivial
  · trivial
  · have : (unpackExponent b).toNat = 0 := by rw [h3]; rfl
    simp only [Fits, IsRounded, hbias, this]
    omega
  · have hne : (unpackExponent b).toNat ≠ 0 := fun h => h3 (BitVec.eq_of_toNat_eq h)
    have hne' : (unpackExponent b).toNat ≠ 2047 := fun h => h1 (BitVec.eq_of_toNat_eq h)
    simp only [Fits, IsRounded, hbias, toNat_implicit]
    omega

/-- The sign of a double that is put together from its parts. -/
theorem sign_packComponents (s : Sign) (e : BitVec Format.binary64.exponentBits)
    (m : BitVec Format.binary64.mantissaBitsWithoutImplicit) :
    Sign.ofBitVec (unpackSign (packComponents Format.binary64 s e m)) = s := by
  have hsign : unpackSign (packComponents Format.binary64 s e m) = s.toBitVec := by
    refine BitVec.eq_of_toNat_eq ?_
    rw [toNat_unpackSign, packComponents, BitVec.append_assoc, BitVec.toNat_cast,
      BitVec.toNat_append, ← Nat.shiftLeft_add_eq_or_of_lt (e ++ m).isLt, Nat.shiftLeft_eq]
    have hlt : (e ++ m).toNat < 2 ^ 63 := (e ++ m).isLt
    have hbit : s.toBitVec.toNat < 2 := s.toBitVec.isLt
    change (s.toBitVec.toNat * 2 ^ 63 + (e ++ m).toNat) / 2 ^ 63 % 2 = s.toBitVec.toNat
    omega
  rw [hsign]
  cases s <;> rfl

theorem unpack_packedInfinity (s : Sign) :
    UnpackedFloat.unpack Format.binary64 (packedInfinity Format.binary64 s) = .infinity s := by
  simp [UnpackedFloat.unpack, packedInfinity]

theorem unpack_packedZero (s : Sign) :
    UnpackedFloat.unpack Format.binary64 (packedZero Format.binary64 s) = .zero s := by
  simp [UnpackedFloat.unpack, packedZero]

/-- A number with too large an exponent is packed as an infinity. -/
theorem unpack_pack_overflow (s : Sign) (m : ℕ) (e : ℤ) (hm : 0 < m) (he : 972 ≤ e) :
    UnpackedFloat.unpack Format.binary64 (UnpackedFloat.pack Format.binary64 (.finite s m e hm)) =
      .infinity s := by
  have hbias : Format.binary64.exponentBias = 1023 := rfl
  unfold UnpackedFloat.pack
  rw [if_pos, unpack_packedInfinity]
  simp only [hbias]
  omega

theorem finite_congr {s : Sign} {m m' : ℕ} {e e' : ℤ} {hm : 0 < m} {hm' : 0 < m'} (h : m = m')
    (h' : e = e') : UnpackedFloat.finite s m e hm = .finite s m' e' hm' := by
  subst h h'
  rfl

/-- A rounded number whose exponent fits is packed without loss. -/
theorem unpack_pack_finite (s : Sign) (m : ℕ) (e : ℤ) (hm : 0 < m) (hr : IsRounded m e)
    (he : e ≤ 971) :
    UnpackedFloat.unpack Format.binary64 (UnpackedFloat.pack Format.binary64 (.finite s m e hm)) =
      .finite s m e hm := by
  obtain ⟨hlt, hlow, hnormal⟩ := hr
  have hbias : Format.binary64.exponentBias = 1023 := rfl
  have hbits : Format.binary64.mantissaBits = 53 := rfl
  unfold UnpackedFloat.pack
  simp only [hbias, hbits]
  rw [if_neg (by omega)]
  split_ifs with hlog
  · -- All fifty-three bits are there, and the first of them is dropped.
    have hge : 2 ^ 52 ≤ m := by
      have := (Nat.log2_eq_iff hm.ne').mp (show m.log2 = 52 by omega)
      exact this.1
    have hexp : (BitVec.ofNat 11 (e + (1023 : ℕ) + (52 : ℕ)).toNat).toNat = (e + 1075).toNat := by
      rw [BitVec.toNat_ofNat, Nat.mod_eq_of_lt] <;> omega
    have hman : (BitVec.ofNat 52 m).toNat = m - 2 ^ 52 := by
      rw [BitVec.toNat_ofNat]
      omega
    have h1 : BitVec.ofNat 11 (e + (1023 : ℕ) + (52 : ℕ)).toNat ≠ -1#11 := by
      intro h
      have := congrArg BitVec.toNat h
      rw [hexp, show (-1#11).toNat = 2047 from rfl] at this
      omega
    have h2 : BitVec.ofNat 11 (e + (1023 : ℕ) + (52 : ℕ)).toNat ≠ 0#11 := by
      intro h
      have := congrArg BitVec.toNat h
      rw [hexp, show (0#11).toNat = 0 from rfl] at this
      omega
    unfold UnpackedFloat.unpack
    simp only [unpackMantissa_packComponents, unpackExponent_packComponents,
      sign_packComponents, toNat_implicit]
    rw [if_neg h1, if_neg h2]
    exact finite_congr (by rw [hman]; omega) (by rw [hexp, hbias]; omega)
  · -- Fewer bits: the exponent is the least one, stored as zero.
    have hlt' : m < 2 ^ 52 := by
      by_contra h
      exact hlog (by rw [(Nat.log2_eq_iff hm.ne').mpr ⟨by omega, hlt⟩])
    have he' : e = -1074 := by omega
    have hman : (BitVec.ofNat 52 m).toNat = m := by
      rw [BitVec.toNat_ofNat, Nat.mod_eq_of_lt hlt']
    have h3 : BitVec.ofNat 52 m ≠ 0#52 := by
      intro h
      have := congrArg BitVec.toNat h
      rw [hman, show (0#52).toNat = 0 from rfl] at this
      omega
    unfold UnpackedFloat.unpack
    simp only [unpackMantissa_packComponents, unpackExponent_packComponents,
      sign_packComponents]
    rw [if_neg (by decide), if_pos trivial, dif_neg h3]
    exact finite_congr hman (by rw [hbias, he']; rfl)

/-! ## The number behind a double -/

/-- A magnitude put behind a sign. -/
def withSign (negative : Bool) (q : ℚ) : ℚ :=
  if negative then -q else q

/-- The number that a value stands for; an infinity lies beyond every finite one, and the
undefined value counts as zero. -/
def Value.toRat : Value → ℚ
  | .nan => 0
  | .infinite negative => withSign negative beyond
  | .finite negative m q => withSign negative (m * 2 ^ q)

@[simp] theorem withSign_negative (q : ℚ) : withSign (isNegative .negative) q = -q := rfl

@[simp] theorem withSign_positive (q : ℚ) : withSign (isNegative .positive) q = q := rfl

theorem withSign_false (q : ℚ) : withSign false q = q := rfl

theorem withSign_true (q : ℚ) : withSign true q = -q := rfl

@[simp] theorem withSign_zero (b : Bool) : withSign b 0 = 0 := by
  cases b <;> simp [withSign]

/-- The number that an unpacked number stands for. -/
def ratOf (u : UnpackedFloat) : ℚ :=
  (Value.ofUnpacked u).toRat

@[simp] theorem ratOf_infinity (s : Sign) :
    ratOf (.infinity s) = withSign (isNegative s) beyond := rfl

@[simp] theorem ratOf_zero (s : Sign) : ratOf (.zero s) = 0 := by
  simp [ratOf, Value.ofUnpacked, Value.toRat]

@[simp] theorem ratOf_finite (s : Sign) (m : ℕ) (e : ℤ) (hm : 0 < m) :
    ratOf (.finite s m e hm) = withSign (isNegative s) (m * 2 ^ e) := rfl

theorem dyadic_pos {m : ℕ} (hm : 0 < m) (e : ℤ) : (0 : ℚ) < m * 2 ^ e :=
  mul_pos (by exact_mod_cast hm) (zpow_pos (by norm_num) e)

theorem dyadic_lt_beyond {m : ℕ} {e : ℤ} (h : IsRounded m e) (he : e ≤ 971) :
    (m : ℚ) * 2 ^ e < beyond := by
  have hm : (m : ℚ) < 2 ^ (53 : ℤ) := by exact_mod_cast h.1
  calc (m : ℚ) * 2 ^ e < 2 ^ (53 : ℤ) * 2 ^ e :=
        mul_lt_mul_of_pos_right hm (zpow_pos (by norm_num) e)
    _ = 2 ^ (53 + e) := (zpow_add₀ (by norm_num) _ _).symm
    _ ≤ beyond := two_zpow_le_beyond (by omega)

/-- The double is a number, possibly an infinite one. -/
def IsNumber (x : Float) : Prop :=
  value x ≠ .nan

/-- The number that a double stands for. -/
def toRat (x : Float) : ℚ :=
  (value x).toRat

/-- The number behind a double does not depend on how it is taken apart. -/
theorem ratOf_unpack (x : Float) : ratOf x.toModel.unpack = toRat x := by
  rw [toRat, value_eq_ofUnpacked, ratOf]

theorem isNumber_iff (x : Float) : IsNumber x ↔ x.toModel.unpack ≠ .notANumber := by
  rw [IsNumber, value_eq_ofUnpacked]
  cases x.toModel.unpack <;> simp [Value.ofUnpacked]

/-- The double is a number and stands for `q`. -/
structure Denotes (x : Float) (q : ℚ) : Prop where
  isNumber : IsNumber x
  toRat_eq : toRat x = q

theorem denotes_of_unpack {x : Float} {u : UnpackedFloat} (h : x.toModel.unpack = u)
    (hu : u ≠ .notANumber) : Denotes x (ratOf u) := by
  refine ⟨(isNumber_iff x).mpr (h ▸ hu), ?_⟩
  rw [← ratOf_unpack, h]

/-! ## The order -/

/-- Of two rounded numbers the one with the larger exponent is larger. -/
theorem dyadic_lt_of_exponent_lt {m m' : ℕ} {e e' : ℤ} (h : IsRounded m e) (h' : IsRounded m' e')
    (he : e < e') : (m : ℚ) * 2 ^ e < m' * 2 ^ e' := by
  obtain ⟨hlt, hlow, -⟩ := h
  obtain ⟨-, -, hnormal⟩ := h'
  have hge : 2 ^ 52 ≤ m' := hnormal.resolve_right (by omega)
  have hm : (m : ℚ) < 2 ^ (53 : ℤ) := by exact_mod_cast hlt
  have hm' : (2 : ℚ) ^ (52 : ℤ) ≤ m' := by exact_mod_cast hge
  have hpow := zpow_pos (show (0 : ℚ) < 2 by norm_num) e
  have hpow' := zpow_pos (show (0 : ℚ) < 2 by norm_num) e'
  calc (m : ℚ) * 2 ^ e < 2 ^ (53 : ℤ) * 2 ^ e := mul_lt_mul_of_pos_right hm hpow
    _ = 2 ^ (53 + e) := (zpow_add₀ (by norm_num) _ _).symm
    _ ≤ 2 ^ (52 + e') := zpow_le_zpow_right₀ (by norm_num) (by omega)
    _ = 2 ^ (52 : ℤ) * 2 ^ e' := zpow_add₀ (by norm_num) _ _
    _ ≤ m' * 2 ^ e' := mul_le_mul_of_nonneg_right hm' hpow'.le

/-- Of rounded numbers, the one with the larger exponent is the larger one; the mantissas
decide only between equal exponents. -/
theorem then_compare_eq_cmp {m m' : ℕ} {e e' : ℤ} (h : IsRounded m e) (h' : IsRounded m' e') :
    (compare e e').then (compare m m') = cmp ((m : ℚ) * 2 ^ e) (m' * 2 ^ e') := by
  rcases lt_trichotomy e e' with hlt | rfl | hgt
  · rw [Int.compare_eq_lt.mpr hlt, Ordering.lt_then, (cmp_eq_lt_iff _ _).mpr]
    exact dyadic_lt_of_exponent_lt h h' hlt
  · have hpow := zpow_pos (show (0 : ℚ) < 2 by norm_num) e
    rw [Int.compare_eq_eq.mpr rfl, Ordering.eq_then, cmp_mul_pos_right hpow]
    rcases lt_trichotomy m m' with hm | rfl | hm
    · rw [Nat.compare_eq_lt.mpr hm, (cmp_eq_lt_iff _ _).mpr (by exact_mod_cast hm)]
    · rw [Nat.compare_eq_eq.mpr rfl, (cmp_eq_eq_iff _ _).mpr rfl]
    · rw [Nat.compare_eq_gt.mpr hm, (cmp_eq_gt_iff _ _).mpr (by exact_mod_cast hm)]
  · rw [Int.compare_eq_gt.mpr hgt, Ordering.gt_then, (cmp_eq_gt_iff _ _).mpr]
    exact dyadic_lt_of_exponent_lt h' h hgt

theorem cmp_neg_neg (p q : ℚ) : cmp (-p) (-q) = (cmp p q).swap := by
  rw [cmp_swap]
  rcases lt_trichotomy p q with h | rfl | h
  · rw [(cmp_eq_gt_iff _ _).mpr (neg_lt_neg h), (cmp_eq_gt_iff _ _).mpr h]
  · simp
  · rw [(cmp_eq_lt_iff _ _).mpr (neg_lt_neg h), (cmp_eq_lt_iff _ _).mpr h]

theorem some_lt_eq {p q : ℚ} (h : p < q) : some Ordering.lt = some (cmp p q) :=
  congrArg some ((cmp_eq_lt_iff p q).mpr h).symm

theorem some_gt_eq {p q : ℚ} (h : q < p) : some Ordering.gt = some (cmp p q) :=
  congrArg some ((cmp_eq_gt_iff p q).mpr h).symm

/-- Comparing unpacked numbers is comparing what they stand for. -/
theorem compare_eq_cmp {a b : UnpackedFloat} (ha : Fits a) (hb : Fits b) (hna : a ≠ .notANumber)
    (hnb : b ≠ .notANumber) : a.compare b = some (cmp (ratOf a) (ratOf b)) := by
  have hbeyond := beyond_pos
  cases a with
  | notANumber => exact absurd rfl hna
  | infinity s =>
    cases b with
    | notANumber => exact absurd rfl hnb
    | infinity s' =>
      cases s <;> cases s' <;> simp only [ratOf_infinity, withSign_negative, withSign_positive]
      · exact congrArg some (cmp_self_eq_eq _).symm
      · exact some_lt_eq (by linarith)
      · exact some_gt_eq (by linarith)
      · exact congrArg some (cmp_self_eq_eq _).symm
    | zero s' =>
      cases s <;> simp only [ratOf_infinity, ratOf_zero, withSign_negative, withSign_positive]
      · exact some_lt_eq (by linarith)
      · exact some_gt_eq hbeyond
    | finite s' m' e' hm' =>
      have hpos := dyadic_pos hm' e'
      have hlt := dyadic_lt_beyond hb.1 hb.2
      cases s <;> cases s' <;>
        simp only [ratOf_infinity, ratOf_finite, withSign_negative, withSign_positive]
      · exact some_lt_eq (by linarith)
      · exact some_lt_eq (by linarith)
      · exact some_gt_eq (by linarith)
      · exact some_gt_eq (by linarith)
  | zero s =>
    cases b with
    | notANumber => exact absurd rfl hnb
    | infinity s' =>
      cases s' <;> simp only [ratOf_infinity, ratOf_zero, withSign_negative, withSign_positive]
      · exact some_gt_eq (by linarith)
      · exact some_lt_eq hbeyond
    | zero s' =>
      simp only [ratOf_zero]
      exact congrArg some (cmp_self_eq_eq _).symm
    | finite s' m' e' hm' =>
      have hpos := dyadic_pos hm' e'
      cases s' <;> simp only [ratOf_finite, ratOf_zero, withSign_negative, withSign_positive]
      · exact some_gt_eq (by linarith)
      · exact some_lt_eq hpos
  | finite s m e hm =>
    have hpos := dyadic_pos hm e
    have hlt := dyadic_lt_beyond ha.1 ha.2
    cases b with
    | notANumber => exact absurd rfl hnb
    | infinity s' =>
      cases s <;> cases s' <;>
        simp only [ratOf_infinity, ratOf_finite, withSign_negative, withSign_positive]
      · exact some_gt_eq (by linarith)
      · exact some_lt_eq (by linarith)
      · exact some_gt_eq (by linarith)
      · exact some_lt_eq (by linarith)
    | zero s' =>
      cases s <;> simp only [ratOf_finite, ratOf_zero, withSign_negative, withSign_positive]
      · exact some_lt_eq (by linarith)
      · exact some_gt_eq hpos
    | finite s' m' e' hm' =>
      have hpos' := dyadic_pos hm' e'
      cases s <;> cases s' <;>
        simp only [ratOf_finite, withSign_negative, withSign_positive]
      · rw [cmp_neg_neg, ← then_compare_eq_cmp ha.1 hb.1]
        rfl
      · exact some_lt_eq (by linarith)
      · exact some_gt_eq (by linarith)
      · rw [← then_compare_eq_cmp ha.1 hb.1]
        rfl

/-- What is not a number cannot be compared. -/
theorem compare_notANumber_left (b : UnpackedFloat) :
    UnpackedFloat.compare .notANumber b = none := by
  cases b <;> rfl

theorem compare_notANumber_right (a : UnpackedFloat) : a.compare .notANumber = none := by
  cases a <;> rfl

theorem compare_unpack (x y : Float) (hx : IsNumber x) (hy : IsNumber y) :
    x.toModel.unpack.compare y.toModel.unpack = some (cmp (toRat x) (toRat y)) := by
  rw [← ratOf_unpack, ← ratOf_unpack]
  exact compare_eq_cmp (fits_unpack _) (fits_unpack _) ((isNumber_iff x).mp hx)
    ((isNumber_iff y).mp hy)

/-- The order of doubles is decided by comparing them unpacked. -/
theorem lt_iff_compare {x y : Float} :
    x < y ↔ x.toModel.unpack.compare y.toModel.unpack = some .lt := by
  change decide (x.toModel < y.toModel) = true ↔ _
  rw [decide_eq_true_iff]
  change x.toModel.unpack.lt y.toModel.unpack = true ↔ _
  simp [UnpackedFloat.lt]

theorem le_iff_compare {x y : Float} :
    x ≤ y ↔ ∃ o, x.toModel.unpack.compare y.toModel.unpack = some o ∧ o.isLE = true := by
  change decide (x.toModel ≤ y.toModel) = true ↔ _
  rw [decide_eq_true_iff]
  change x.toModel.unpack.le y.toModel.unpack = true ↔ _
  simp [UnpackedFloat.le, Option.any_eq_true]

theorem compare_eq_none {x y : Float} (h : ¬ (IsNumber x ∧ IsNumber y)) :
    x.toModel.unpack.compare y.toModel.unpack = none := by
  rw [isNumber_iff, isNumber_iff] at h
  by_cases hx : x.toModel.unpack = .notANumber
  · rw [hx, compare_notANumber_left]
  · have hy : y.toModel.unpack = .notANumber := by_contra fun hy => h ⟨hx, hy⟩
    rw [hy, compare_notANumber_right]

/-- Doubles are in order if both are numbers and the rationals behind them are. -/
theorem lt_iff {x y : Float} : x < y ↔ IsNumber x ∧ IsNumber y ∧ toRat x < toRat y := by
  rw [lt_iff_compare]
  by_cases h : IsNumber x ∧ IsNumber y
  · simp [compare_unpack x y h.1 h.2, h, cmp_eq_lt_iff]
  · rw [compare_eq_none h, ← and_assoc]
    simp [h]

theorem isLE_cmp (p q : ℚ) : (cmp p q).isLE = true ↔ p ≤ q := by
  rcases lt_trichotomy p q with h | rfl | h
  · simp [(cmp_eq_lt_iff p q).mpr h, h.le]
  · simp
  · simp [(cmp_eq_gt_iff p q).mpr h, h]

theorem le_iff {x y : Float} : x ≤ y ↔ IsNumber x ∧ IsNumber y ∧ toRat x ≤ toRat y := by
  rw [le_iff_compare]
  by_cases h : IsNumber x ∧ IsNumber y
  · simp [compare_unpack x y h.1 h.2, h, isLE_cmp]
  · rw [compare_eq_none h, ← and_assoc]
    simp [h]

theorem Denotes.lt {x y : Float} {p q : ℚ} (hx : Denotes x p) (hy : Denotes y q) (h : p < q) :
    x < y :=
  lt_iff.mpr ⟨hx.isNumber, hy.isNumber, by rwa [hx.toRat_eq, hy.toRat_eq]⟩

theorem float_lt_trans {x y z : Float} (hxy : x < y) (hyz : y < z) : x < z := by
  obtain ⟨hx, -, hlt⟩ := lt_iff.mp hxy
  obtain ⟨-, hz, hlt'⟩ := lt_iff.mp hyz
  exact lt_iff.mpr ⟨hx, hz, hlt.trans hlt'⟩

theorem float_le_of_lt {x y : Float} (h : x < y) : x ≤ y := by
  obtain ⟨hx, hy, hlt⟩ := lt_iff.mp h
  exact le_iff.mpr ⟨hx, hy, hlt.le⟩

theorem float_le_trans {x y z : Float} (hxy : x ≤ y) (hyz : y ≤ z) : x ≤ z := by
  obtain ⟨hx, -, hle⟩ := le_iff.mp hxy
  obtain ⟨-, hz, hle'⟩ := le_iff.mp hyz
  exact le_iff.mpr ⟨hx, hz, hle.trans hle'⟩

theorem float_lt_of_lt_of_le {x y z : Float} (hxy : x < y) (hyz : y ≤ z) : x < z := by
  obtain ⟨hx, -, hlt⟩ := lt_iff.mp hxy
  obtain ⟨-, hz, hle⟩ := le_iff.mp hyz
  exact lt_iff.mpr ⟨hx, hz, hlt.trans_le hle⟩

theorem float_lt_of_le_of_lt {x y z : Float} (hxy : x ≤ y) (hyz : y < z) : x < z := by
  obtain ⟨hx, -, hle⟩ := le_iff.mp hxy
  obtain ⟨-, hz, hlt⟩ := lt_iff.mp hyz
  exact lt_iff.mpr ⟨hx, hz, hle.trans_lt hlt⟩

theorem float_not_lt_of_le {x y : Float} (h : x ≤ y) : ¬ y < x :=
  fun hlt => (le_iff.mp h).2.2.not_gt (lt_iff.mp hlt).2.2

/-! ## Finite numbers -/

theorem isFinite_eq (x : Float) : isFinite x = x.toModel.unpack.isFinite := by
  rw [isFinite, value_eq_ofUnpacked]
  cases x.toModel.unpack <;> rfl

theorem fits_toModel (x : Float) : Fits x.toModel.unpack :=
  fits_unpack _

/-- The infinities stand beyond all finite doubles. -/
theorem isFinite_iff {x : Float} : isFinite x = true ↔ IsNumber x ∧ |toRat x| < beyond := by
  have hb := beyond_pos
  rw [isFinite_eq, isNumber_iff, ← ratOf_unpack]
  have hfits := fits_toModel x
  cases h : x.toModel.unpack with
  | notANumber => simp [UnpackedFloat.isFinite]
  | infinity s => cases s <;> simp [UnpackedFloat.isFinite, abs_of_pos hb]
  | zero s => simp [UnpackedFloat.isFinite, hb]
  | finite s m e hm =>
    rw [h] at hfits
    have hpos := dyadic_pos hm e
    have hlt := dyadic_lt_beyond hfits.1 hfits.2
    cases s <;> simp [UnpackedFloat.isFinite, abs_of_pos hpos, hlt]

theorem Denotes.isFinite {x : Float} {q : ℚ} (h : Denotes x q) (hq : |q| < beyond) :
    isFinite x = true :=
  isFinite_iff.mpr ⟨h.isNumber, h.toRat_eq ▸ hq⟩

/-- A finite double is left alone by rounding. -/
theorem rounded_toRat {x : Float} (h : isFinite x = true) : rounded (toRat x) = toRat x := by
  rw [isFinite_eq] at h
  have hfits := fits_toModel x
  rw [← ratOf_unpack]
  cases hx : x.toModel.unpack with
  | notANumber =>
    rw [hx] at h
    cases h
  | infinity s =>
    rw [hx] at h
    cases h
  | zero s => rw [ratOf_zero, rounded_zero]
  | finite s m e hm =>
    rw [hx] at hfits
    have hexact : rounded (m * 2 ^ e) = m * 2 ^ e :=
      rounded_dyadic hfits.1.1 hfits.1.2.1 (dyadic_lt_beyond hfits.1 hfits.2).le
    rw [ratOf_finite]
    cases s with
    | positive => rw [withSign_positive, hexact]
    | negative => rw [withSign_negative, rounded_neg, hexact]

/-! ## Rounding to integers -/

theorem signed_eq (b : Bool) (n : ℕ) : ((signed b n : ℤ) : ℚ) = withSign b n := by
  cases b <;> simp [signed, withSign]

theorem toRat_finite_ofNat {x : Float} {b : Bool} {m q : ℕ} (h : value x = .finite b m (.ofNat q)) :
    toRat x = ((signed b (m * Nat.pow 2 q) : ℤ) : ℚ) := by
  rw [toRat, h, signed_eq]
  simp [Value.toRat]

theorem toRat_finite_negSucc {x : Float} {b : Bool} {m q : ℕ}
    (h : value x = .finite b m (.negSucc q)) :
    toRat x = ((signed b m : ℤ) : ℚ) / ((Nat.pow 2 (q + 1) : ℕ) : ℚ) := by
  rw [toRat, h, signed_eq]
  have hpow : (2 : ℚ) ^ (Int.negSucc q) = 1 / ((Nat.pow 2 (q + 1) : ℕ) : ℚ) := by
    rw [zpow_negSucc]
    simp
  cases b <;> simp only [Value.toRat, withSign_false, withSign_true, hpow] <;> ring

theorem toRat_infinite {x : Float} {b : Bool} (h : value x = .infinite b) :
    toRat x = ((if b then -beyond else beyond : ℤ) : ℚ) := by
  rw [toRat, h]
  cases b <;> simp [Value.toRat, withSign]

/-- Rounding down agrees with rounding down the rational behind a double, also for the
infinities. -/
theorem floor_eq {x : Float} (hx : IsNumber x) : floor x = ⌊toRat x⌋ := by
  unfold floor
  split
  · next h => exact absurd h hx
  · next b h => rw [toRat_infinite h, Int.floor_intCast]
  · next b m q h => rw [toRat_finite_ofNat h, Int.floor_intCast]
  · next b m q h => rw [toRat_finite_negSucc h, Rat.floor_intCast_div_natCast]

/-- Adding half of the divisor before dividing rounds a quotient. -/
theorem halfAway_half_div (m q : ℕ) :
    halfAway ((m : ℚ) / ((Nat.pow 2 (q + 1) : ℕ) : ℚ)) =
      ((m + Nat.pow 2 q) / Nat.pow 2 (q + 1) : ℕ) := by
  have hquot : (m : ℚ) / ((Nat.pow 2 (q + 1) : ℕ) : ℚ) + 1 / 2 =
      ((m + Nat.pow 2 q : ℕ) : ℚ) / ((Nat.pow 2 (q + 1) : ℕ) : ℚ) := by
    push_cast [Nat.pow_eq, pow_succ]
    field_simp
  rw [halfAway_of_nonneg (by positivity), hquot, Rat.floor_natCast_div_natCast, Int.natCast_ediv]

theorem halfAway_signed (b : Bool) (m q : ℕ) :
    halfAway (((signed b m : ℤ) : ℚ) / ((Nat.pow 2 (q + 1) : ℕ) : ℚ)) =
      signed b ((m + Nat.pow 2 q) / Nat.pow 2 (q + 1)) := by
  rw [signed_eq]
  cases b
  · rw [withSign_false, halfAway_half_div]
    rfl
  · rw [withSign_true, neg_div, halfAway_neg, halfAway_half_div]
    rfl

/-- Rounding to the nearest integer agrees with rounding the rational behind a double. -/
theorem roundHalfAway_eq {x : Float} (hx : IsNumber x) : roundHalfAway x = halfAway (toRat x) := by
  unfold roundHalfAway
  split
  · next h => exact absurd h hx
  · next b h => rw [toRat_infinite h, halfAway_intCast]
  · next b m q h => rw [toRat_finite_ofNat h, halfAway_intCast]
  · next b m q h => rw [toRat_finite_negSucc h, halfAway_signed]

end StepTone.Binary64
