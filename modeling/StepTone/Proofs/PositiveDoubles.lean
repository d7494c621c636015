/-
StepTone.Proofs.PositiveDoubles — positive doubles between powers of two.

The formulas of the firmware multiply, divide and add a handful of positive numbers. To
know that nothing overflows on the way, and that nothing is undefined, it is enough to
keep each number between two powers of two.

* `Within x a b` — `x` is a number between `2^a` and `2^b`.
* `UpTo x b` — `x` is a number between zero and `2^b`.
* `Holds x n` — `x` is exactly the natural number `n`.

Sums, products and quotients of such numbers are such numbers again, as long as the
exponents stay in the range of doubles.
-/
import StepTone.Proofs.DoubleArithmetic

namespace StepTone.Binary64

open Arithmetic (ofInt ofWord)

/-- The double is a number between two powers of two. -/
structure Within (x : Float) (a b : ℤ) : Prop where
  isNumber : IsNumber x
  lower : 2 ^ a ≤ toRat x
  upper : toRat x ≤ 2 ^ b

/-- The double is a number between zero and a power of two. -/
structure UpTo (x : Float) (b : ℤ) : Prop where
  isNumber : IsNumber x
  nonneg : 0 ≤ toRat x
  upper : toRat x ≤ 2 ^ b

theorem two_zpow_pos (k : ℤ) : (0 : ℚ) < 2 ^ k :=
  zpow_pos two_pos k

theorem two_zpow_lt_beyond {k : ℤ} (h : k ≤ 1023) : (2 : ℚ) ^ k < beyond := by
  rw [beyond_cast]
  exact zpow_lt_zpow_right₀ (by norm_num) (by omega)

section

variable {x y : Float} {a b c d : ℤ}

theorem Within.pos (h : Within x a b) : 0 < toRat x :=
  (two_zpow_pos a).trans_le h.lower

theorem Within.upTo (h : Within x a b) : UpTo x b :=
  ⟨h.isNumber, h.pos.le, h.upper⟩

theorem Within.mono (h : Within x a b) (hac : c ≤ a) (hbd : b ≤ d) : Within x c d :=
  ⟨h.isNumber, (zpow_le_zpow_right₀ (by norm_num) hac).trans h.lower,
    h.upper.trans (zpow_le_zpow_right₀ (by norm_num) hbd)⟩

/-- A number up to a power of two that is a finite double is finite itself. -/
theorem UpTo.isFinite (h : UpTo x b) (hb : b ≤ 1023) : isFinite x = true := by
  refine isFinite_iff.mpr ⟨h.isNumber, ?_⟩
  rw [abs_of_nonneg h.nonneg]
  exact h.upper.trans_lt (two_zpow_lt_beyond hb)

theorem Within.isFinite (h : Within x a b) (hb : b ≤ 1023) : isFinite x = true :=
  h.upTo.isFinite hb

/-! ## Operations -/

/-- Bounds of factors multiply, as long as they are powers of two that a double can be. -/
theorem UpTo.mul (hx : UpTo x b) (hy : UpTo y d) (hb : b ≤ 1023) (hd : d ≤ 1023)
    (hlow : -1074 ≤ b + d) (hhigh : b + d ≤ 1024) : UpTo (x * y) (b + d) := by
  obtain ⟨hnumber, hvalue⟩ := denotes_mul (hx.isFinite hb) (hy.isFinite hd)
  refine ⟨hnumber, ?_, ?_⟩
  · rw [hvalue]
    exact rounded_nonneg (mul_nonneg hx.nonneg hy.nonneg)
  · rw [hvalue]
    refine rounded_le_two_zpow hlow hhigh ?_
    rw [zpow_add₀ (by norm_num)]
    exact mul_le_mul hx.upper hy.upper hy.nonneg (two_zpow_pos b).le

/-- A quotient is smallest for the smallest dividend and the largest divisor. -/
theorem Within.div (hx : Within x a b) (hy : Within y c d) (hb : b ≤ 1023) (hd : d ≤ 1023)
    (hlow : -1074 ≤ a - d) (hhigh : b - c ≤ 1024) (hle : a - d ≤ b - c) :
    Within (x / y) (a - d) (b - c) := by
  obtain ⟨hnumber, hvalue⟩ := denotes_div (hx.isFinite hb) (hy.isFinite hd) hy.pos.ne'
  refine ⟨hnumber, ?_, ?_⟩
  · rw [hvalue]
    refine two_zpow_le_rounded hlow (hle.trans hhigh) ?_
    rw [zpow_sub₀ (by norm_num)]
    exact div_le_div₀ hx.pos.le hx.lower hy.pos hy.upper
  · rw [hvalue]
    refine rounded_le_two_zpow (hlow.trans hle) hhigh ?_
    rw [zpow_sub₀ (by norm_num)]
    exact div_le_div₀ (two_zpow_pos b).le hx.upper (two_zpow_pos c) hy.lower

/-- A sum is as large as its larger part and at most twice as large. -/
theorem Within.add (hx : Within x a b) (hy : UpTo y b) (hlow : -1074 ≤ a) (hle : a ≤ b)
    (hb : b ≤ 1023) : Within (x + y) a (b + 1) := by
  obtain ⟨hnumber, hvalue⟩ := denotes_add (hx.isFinite hb) (hy.isFinite hb)
  refine ⟨hnumber, ?_, ?_⟩
  · rw [hvalue]
    exact two_zpow_le_rounded hlow (by omega) (by linarith [hx.lower, hy.nonneg])
  · rw [hvalue]
    refine rounded_le_two_zpow (by omega) (by omega) ?_
    rw [zpow_add₀ (by norm_num), zpow_one]
    linarith [hx.upper, hy.upper]

end

/-! ## Words -/

/-- A word becomes the nearest double. -/
theorem denotes_ofWord (n : Int64) : Denotes (ofWord n : Float) (rounded n.toInt) :=
  denotes_ofInt n.toInt

/-- A positive word lies between one and `2^63`. -/
theorem within_ofWord {n : Int64} (h : 0 < n.toInt) : Within (ofWord n) 0 63 := by
  obtain ⟨hnumber, hvalue⟩ := denotes_ofWord n
  have hone : (1 : ℚ) ≤ n.toInt := by exact_mod_cast h
  have hmax : (n.toInt : ℚ) ≤ 2 ^ (63 : ℤ) := by exact_mod_cast n.toInt_lt.le
  refine ⟨hnumber, ?_, ?_⟩
  · rw [hvalue]
    exact two_zpow_le_rounded (by norm_num) (by norm_num) (by simpa using hone)
  · rw [hvalue]
    exact rounded_le_two_zpow (by norm_num) (by norm_num) hmax

/-- Small natural numbers are doubles. -/
theorem denotes_natCast {n : ℕ} (h : n < 2 ^ 53) : Denotes (ofInt n : Float) n := by
  have := denotes_ofInt n
  rwa [Int.cast_natCast, rounded_natCast h] at this

theorem denotes_ofInt_zero : Denotes (ofInt 0 : Float) 0 := by
  simpa using denotes_natCast (n := 0) (by norm_num)

/-- Being above zero is asked of the rational behind a double. -/
theorem ofInt_zero_lt_iff {x : Float} : ofInt 0 < x ↔ IsNumber x ∧ 0 < toRat x := by
  rw [lt_iff, denotes_ofInt_zero.toRat_eq]
  simp [denotes_ofInt_zero.isNumber]

theorem upTo_natCast {n k : ℕ} (h : n ≤ 2 ^ k) (hk : k ≤ 52) : UpTo (ofInt n) k := by
  have hlt : n < 2 ^ 53 :=
    (h.trans (Nat.pow_le_pow_right (by norm_num) hk)).trans_lt (by norm_num)
  obtain ⟨hnumber, hvalue⟩ := denotes_natCast hlt
  refine ⟨hnumber, ?_, ?_⟩
  · rw [hvalue]
    exact n.cast_nonneg
  · rw [hvalue]
    exact_mod_cast h

theorem within_one : Within (ofInt 1) 0 0 := by
  obtain ⟨hnumber, hvalue⟩ := denotes_natCast (n := 1) (by norm_num)
  exact ⟨hnumber, by simpa using hvalue.ge, by simpa using hvalue.le⟩

/-! ## Natural numbers -/

/-- The double is a natural number, small enough that it is held exactly. -/
structure Holds (x : Float) (n : ℕ) : Prop where
  denotes : Denotes x n
  small : n < 2 ^ 53

theorem holds_ofInt {n : ℕ} (h : n < 2 ^ 53) : Holds (ofInt n) n :=
  ⟨denotes_natCast h, h⟩

section

variable {x y : Float} {m n : ℕ}

theorem Holds.isFinite (h : Holds x n) : isFinite x = true :=
  h.denotes.isFinite (abs_natCast_lt_beyond h.small)

/-- An operation is exact if its result is a natural number that fits a mantissa. -/
theorem holds_of_rounded {q : ℚ} (h : Denotes x (rounded q)) (hq : q = n) (hn : n < 2 ^ 53) :
    Holds x n :=
  ⟨by rwa [hq, rounded_natCast hn] at h, hn⟩

theorem Holds.add (hx : Holds x m) (hy : Holds y n) (h : m + n < 2 ^ 53) :
    Holds (x + y) (m + n) := by
  refine holds_of_rounded (denotes_add hx.isFinite hy.isFinite) ?_ h
  rw [hx.denotes.toRat_eq, hy.denotes.toRat_eq, Nat.cast_add]

theorem Holds.sub (hx : Holds x m) (hy : Holds y n) (h : n ≤ m) : Holds (x - y) (m - n) := by
  refine holds_of_rounded (denotes_sub hx.isFinite hy.isFinite) ?_ (by have := hx.small; omega)
  rw [hx.denotes.toRat_eq, hy.denotes.toRat_eq, Nat.cast_sub h]

theorem Holds.mul (hx : Holds x m) (hy : Holds y n) (h : m * n < 2 ^ 53) :
    Holds (x * y) (m * n) := by
  refine holds_of_rounded (denotes_mul hx.isFinite hy.isFinite) ?_ h
  rw [hx.denotes.toRat_eq, hy.denotes.toRat_eq, Nat.cast_mul]

theorem Holds.div (hx : Holds x (m * n)) (hy : Holds y m) (hm : 0 < m) (hn : n < 2 ^ 53) :
    Holds (x / y) n := by
  have hne : (m : ℚ) ≠ 0 := by exact_mod_cast hm.ne'
  have hvalue := hy.denotes.toRat_eq
  refine holds_of_rounded (denotes_div hx.isFinite hy.isFinite (hvalue ▸ hne)) ?_ hn
  rw [hx.denotes.toRat_eq, hvalue, Nat.cast_mul, mul_div_cancel_left₀ _ hne]

/-- Halving is exact, since it moves the exponent only. -/
theorem Holds.half (h : Holds x n) : Denotes (x / ofInt 2) (n / 2) := by
  have htwo := holds_ofInt (n := 2) (by norm_num)
  have hquotient := denotes_div h.isFinite htwo.isFinite (by rw [htwo.denotes.toRat_eq]; norm_num)
  have hhalf : (n : ℚ) / 2 = n * 2 ^ (-1 : ℤ) := by rw [zpow_neg_one, div_eq_mul_inv]
  have hle : (n : ℚ) * 2 ^ (-1 : ℤ) ≤ beyond := by
    have := (abs_natCast_lt_beyond h.small).le
    rw [Nat.abs_cast] at this
    exact (mul_le_of_le_one_right n.cast_nonneg (by norm_num)).trans this
  rw [h.denotes.toRat_eq, htwo.denotes.toRat_eq, Nat.cast_ofNat (R := ℚ), hhalf,
    rounded_dyadic h.small (by norm_num) hle, ← hhalf] at hquotient
  exact hquotient

end

end StepTone.Binary64
