/-
StepTone.Proofs.Rounding — rounding a rational number to a double.

A double with unbounded range is `m · 2^e` with `m < 2^53` and `-1074 ≤ e`. This
module says which of them a rational number is rounded to, without looking at how an
operation finds it.

* `halfEven`, `halfAway` — the nearest integer, a half going to the even neighbour or
  away from zero.
* `place q` — the exponent of the last bit that is kept of `q`.
* `magnitude q` — a nonnegative `q` rounded to a multiple of `2^(place q)`.
* `rounded q` — any `q` rounded, where everything too large ends at `±2^1024`, which
  stands for the two infinities.

Rounding keeps the order (`rounded_mono`) and leaves alone what can be written exactly
(`rounded_dyadic`). From these two facts a bound by powers of two goes through every
operation (`rounded_le_two_zpow`, `two_zpow_le_rounded`).
-/
import Mathlib.Algebra.Order.Field.Power
import Mathlib.Data.Int.Log
import Mathlib.Data.Rat.Floor
import Mathlib.Tactic.FieldSimp
import Mathlib.Tactic.Linarith
import Mathlib.Tactic.Positivity
import Mathlib.Tactic.Ring
import StepTone.Binary64

namespace StepTone.Binary64

/-! ## The nearest integer -/

/-- The integer nearest to a rational number; a half goes to the even neighbour. -/
def halfEven (x : ℚ) : ℤ :=
  if x < ⌊x⌋ + 1 / 2 then ⌊x⌋
  else if x = ⌊x⌋ + 1 / 2 then ⌊x⌋ + ⌊x⌋ % 2
  else ⌊x⌋ + 1

/-- The nearest integer is one of the two around a number. -/
theorem floor_le_halfEven (x : ℚ) : ⌊x⌋ ≤ halfEven x := by
  unfold halfEven
  split_ifs <;> omega

theorem halfEven_le_floor_add_one (x : ℚ) : halfEven x ≤ ⌊x⌋ + 1 := by
  unfold halfEven
  split_ifs <;> omega

@[simp] theorem halfEven_intCast (n : ℤ) : halfEven n = n := by
  simp [halfEven]

@[simp] theorem halfEven_natCast (n : ℕ) : halfEven n = n := by
  exact_mod_cast halfEven_intCast n

/-- Rounding keeps the order. -/
theorem halfEven_mono {x y : ℚ} (h : x ≤ y) : halfEven x ≤ halfEven y := by
  rcases (Int.floor_mono h).lt_or_eq with hlt | heq
  · -- An integer lies between them.
    calc halfEven x ≤ ⌊x⌋ + 1 := halfEven_le_floor_add_one x
      _ ≤ ⌊y⌋ := hlt
      _ ≤ halfEven y := floor_le_halfEven y
  · unfold halfEven
    rw [← heq]
    -- On one unit interval only a larger `y` can leave the earlier branch.
    by_cases hx : x < ⌊x⌋ + 1 / 2
    · rw [if_pos hx]
      split_ifs <;> omega
    · have hy : ¬ y < ⌊x⌋ + 1 / 2 := fun hy => hx (h.trans_lt hy)
      rw [if_neg hx, if_neg hy]
      by_cases hxe : x = ⌊x⌋ + 1 / 2
      · rw [if_pos hxe]
        split_ifs <;> omega
      · have hye : ¬ y = ⌊x⌋ + 1 / 2 := fun hye =>
          hxe (le_antisymm (hye ▸ h) (not_lt.mp hx))
        rw [if_neg hxe, if_neg hye]

@[simp] theorem halfEven_zero : halfEven 0 = 0 := by
  exact_mod_cast halfEven_intCast 0

theorem halfEven_nonneg {x : ℚ} (h : 0 ≤ x) : 0 ≤ halfEven x :=
  halfEven_zero ▸ halfEven_mono h

/-- The integer nearest to a rational number; a half goes away from zero. -/
def halfAway (x : ℚ) : ℤ :=
  if x < 0 then -⌊-x + 1 / 2⌋ else ⌊x + 1 / 2⌋

theorem halfAway_of_nonneg {x : ℚ} (h : 0 ≤ x) : halfAway x = ⌊x + 1 / 2⌋ :=
  if_neg (not_lt.mpr h)

theorem halfAway_nonneg {x : ℚ} (h : 0 ≤ x) : 0 ≤ halfAway x := by
  rw [halfAway_of_nonneg h]
  exact Int.floor_nonneg.mpr (by linarith)

theorem halfAway_neg (x : ℚ) : halfAway (-x) = -halfAway x := by
  have hhalf : ⌊(2⁻¹ : ℚ)⌋ = 0 := by norm_num
  rcases lt_trichotomy x 0 with h | rfl | h
  · rw [halfAway_of_nonneg (by linarith), halfAway, if_pos h, neg_neg]
  · simp [halfAway, hhalf]
  · rw [halfAway_of_nonneg h.le, halfAway, if_pos (by linarith), neg_neg]

theorem halfAway_mono {x y : ℚ} (h : x ≤ y) : halfAway x ≤ halfAway y := by
  rcases le_or_gt 0 x with hx | hx
  · rw [halfAway_of_nonneg hx, halfAway_of_nonneg (hx.trans h)]
    exact Int.floor_mono (by linarith)
  · have hx' := halfAway_nonneg (x := -x) (by linarith)
    rw [halfAway_neg] at hx'
    rcases le_or_gt 0 y with hy | hy
    · have := halfAway_nonneg hy
      omega
    · have hneg : halfAway (-y) ≤ halfAway (-x) := by
        rw [halfAway_of_nonneg (by linarith), halfAway_of_nonneg (by linarith)]
        exact Int.floor_mono (by linarith)
      rw [halfAway_neg, halfAway_neg] at hneg
      omega

@[simp] theorem halfAway_intCast (n : ℤ) : halfAway n = n := by
  have hfloor : ∀ k : ℤ, ⌊(k : ℚ) + 1 / 2⌋ = k := fun k => by
    rw [Int.floor_intCast_add]
    norm_num
  unfold halfAway
  split_ifs
  · rw [← Int.cast_neg, hfloor, neg_neg]
  · exact hfloor n

/-! ## The last place that is kept -/

/-- The exponent of the last bit that is kept of a positive number: fifty-three bits,
fewer near zero. -/
def place (q : ℚ) : ℤ :=
  max (Int.log 2 q - 52) (-1074)

theorem le_place (q : ℚ) : -1074 ≤ place q :=
  le_max_right _ _

/-- Larger numbers lose more places. -/
theorem place_mono {p q : ℚ} (hp : 0 < p) (h : p ≤ q) : place p ≤ place q := by
  have := Int.log_mono_right (b := 2) hp h
  unfold place
  omega

/-- Fewer than fifty-four bits are kept. -/
theorem lt_two_zpow_place (q : ℚ) : q < 2 ^ (53 + place q) := by
  have hlog : q < 2 ^ (Int.log 2 q + 1) := by
    exact_mod_cast Int.lt_zpow_succ_log_self (b := 2) (by norm_num) q
  refine hlog.trans_le (zpow_le_zpow_right₀ (by norm_num) ?_)
  unfold place
  omega

/-- All fifty-three bits are kept, except near zero. -/
theorem two_zpow_place_le {q : ℚ} (hq : 0 < q) (h : -1074 < place q) :
    2 ^ (52 + place q) ≤ q := by
  have hlog : (2 : ℚ) ^ Int.log 2 q ≤ q := by
    exact_mod_cast Int.zpow_log_le_self (b := 2) (by norm_num) hq
  have hplace : 52 + place q = Int.log 2 q := by
    unfold place at *
    omega
  rwa [hplace]

/-- The last place of a number is settled by the range it lies in. -/
theorem place_eq {q : ℚ} {e : ℤ} (hlt : q < 2 ^ (53 + e)) (he : -1074 ≤ e)
    (hle : 2 ^ (52 + e) ≤ q ∨ e = -1074) (hq : 0 < q) : place q = e := by
  have hupper : Int.log 2 q < 53 + e := by
    rw [← Int.lt_zpow_iff_log_lt (by norm_num) hq]
    exact_mod_cast hlt
  have hlower : 52 + e ≤ Int.log 2 q ∨ e = -1074 := by
    refine hle.imp_left fun h => ?_
    rw [← Int.zpow_le_iff_le_log (by norm_num) hq]
    exact_mod_cast h
  unfold place
  omega

/-! ## Rounding a magnitude -/

/-- A nonnegative number rounded to a multiple of its last place. -/
def magnitude (q : ℚ) : ℚ :=
  halfEven (q / 2 ^ place q) * 2 ^ place q

@[simp] theorem magnitude_zero : magnitude 0 = 0 := by
  simp [magnitude]

theorem magnitude_nonneg {q : ℚ} (h : 0 ≤ q) : 0 ≤ magnitude q := by
  have hpow : (0 : ℚ) < 2 ^ place q := by positivity
  have : (0 : ℚ) ≤ halfEven (q / 2 ^ place q) := by
    exact_mod_cast halfEven_nonneg (div_nonneg h hpow.le)
  exact mul_nonneg this hpow.le

/-- Rounding stays below the next power of two. -/
theorem magnitude_le_two_zpow_place (q : ℚ) : magnitude q ≤ 2 ^ (53 + place q) := by
  have hpow : (0 : ℚ) < 2 ^ place q := by positivity
  have hquot : q / 2 ^ place q ≤ ((2 ^ 53 : ℤ) : ℚ) := by
    rw [div_le_iff₀ hpow]
    have := (lt_two_zpow_place q).le
    rw [zpow_add₀ (by norm_num)] at this
    exact_mod_cast this
  have hround := halfEven_mono hquot
  rw [halfEven_intCast] at hround
  have hround' : ((halfEven (q / 2 ^ place q) : ℤ) : ℚ) ≤ 2 ^ 53 := by exact_mod_cast hround
  calc magnitude q ≤ 2 ^ 53 * 2 ^ place q := mul_le_mul_of_nonneg_right hround' hpow.le
    _ = 2 ^ (53 + place q) := by rw [zpow_add₀ (by norm_num)]; norm_num

/-- Rounding stays above the power of two below, except near zero. -/
theorem two_zpow_place_le_magnitude {q : ℚ} (hq : 0 < q) (h : -1074 < place q) :
    2 ^ (52 + place q) ≤ magnitude q := by
  have hpow : (0 : ℚ) < 2 ^ place q := by positivity
  have hquot : ((2 ^ 52 : ℤ) : ℚ) ≤ q / 2 ^ place q := by
    rw [le_div_iff₀ hpow]
    have := two_zpow_place_le hq h
    rw [zpow_add₀ (by norm_num)] at this
    exact_mod_cast this
  have hround := halfEven_mono hquot
  rw [halfEven_intCast] at hround
  have hround' : (2 : ℚ) ^ 52 ≤ ((halfEven (q / 2 ^ place q) : ℤ) : ℚ) := by exact_mod_cast hround
  calc (2 : ℚ) ^ (52 + place q) = 2 ^ 52 * 2 ^ place q := by
        rw [zpow_add₀ (by norm_num)]; norm_num
    _ ≤ magnitude q := mul_le_mul_of_nonneg_right hround' hpow.le

/-- Across a power of two too, rounding keeps the order. -/
theorem magnitude_mono {p q : ℚ} (hp : 0 ≤ p) (h : p ≤ q) : magnitude p ≤ magnitude q := by
  rcases hp.lt_or_eq with hpos | rfl
  · rcases (place_mono hpos h).lt_or_eq with hlt | heq
    · -- A power of two lies between the rounded numbers.
      have hbound := le_place p
      calc magnitude p ≤ 2 ^ (53 + place p) := magnitude_le_two_zpow_place p
        _ ≤ 2 ^ (52 + place q) := zpow_le_zpow_right₀ (by norm_num) (by omega)
        _ ≤ magnitude q := two_zpow_place_le_magnitude (hpos.trans_le h) (by omega)
    · have hpow : (0 : ℚ) < 2 ^ place q := by positivity
      have hquot : p / 2 ^ place q ≤ q / 2 ^ place q := div_le_div_of_nonneg_right h hpow.le
      have hround : ((halfEven (p / 2 ^ place q) : ℤ) : ℚ) ≤ halfEven (q / 2 ^ place q) := by
        exact_mod_cast halfEven_mono hquot
      unfold magnitude
      rw [heq]
      exact mul_le_mul_of_nonneg_right hround hpow.le
  · rw [magnitude_zero]
    exact magnitude_nonneg h

/-- What can be written in fifty-three bits is left alone. -/
theorem magnitude_dyadic {m : ℕ} {e : ℤ} (hm : m < 2 ^ 53) (he : -1074 ≤ e) :
    magnitude (m * 2 ^ e) = m * 2 ^ e := by
  rcases Nat.eq_zero_or_pos m with rfl | hpos
  · simp
  · have hmq : (0 : ℚ) < m := by exact_mod_cast hpos
    have hq : (0 : ℚ) < m * 2 ^ e := by positivity
    have hlt : (m : ℚ) * 2 ^ e < 2 ^ (53 + e) := by
      rw [zpow_add₀ (by norm_num)]
      have : (m : ℚ) < 2 ^ 53 := by exact_mod_cast hm
      exact mul_lt_mul_of_pos_right (by exact_mod_cast this) (by positivity)
    have hplace : place (m * 2 ^ e) ≤ e := by
      have hlog : Int.log 2 ((m : ℚ) * 2 ^ e) < 53 + e := by
        rw [← Int.lt_zpow_iff_log_lt (by norm_num) hq]
        exact_mod_cast hlt
      unfold place
      omega
    obtain ⟨k, hk⟩ := Int.le.dest hplace
    -- The number is a whole multiple of its last place.
    have hquot : (m : ℚ) * 2 ^ e / 2 ^ place (m * 2 ^ e) = ((m * 2 ^ k : ℕ) : ℚ) := by
      rw [div_eq_iff (by positivity)]
      conv_lhs => rw [← hk]
      rw [zpow_add₀ (by norm_num)]
      push_cast
      rw [zpow_natCast]
      ring
    unfold magnitude
    rw [hquot, halfEven_natCast, Int.cast_natCast, ← hquot]
    field_simp

/-! ## Rounding with a sign and with overflow -/

/-- A rational number rounded to a double of unbounded range. -/
def signedMagnitude (q : ℚ) : ℚ :=
  if q < 0 then -magnitude (-q) else magnitude q

/-- A rational number rounded to a double; what is too large ends beyond every finite
double, where the infinities stand. -/
def rounded (q : ℚ) : ℚ :=
  max (-beyond) (min (signedMagnitude q) beyond)

-- The exponent is kept as a variable so that the power is not computed.
theorem beyond_cast_of_eq {k : ℕ} (hk : k = 1024) : (beyond : ℚ) = 2 ^ (k : ℤ) := by
  rw [beyond, ← hk]
  simp

theorem beyond_cast : (beyond : ℚ) = 2 ^ (1024 : ℤ) :=
  beyond_cast_of_eq rfl

theorem beyond_pos : (0 : ℚ) < beyond := by
  rw [beyond_cast]
  exact zpow_pos (by norm_num) _

theorem two_zpow_le_beyond {k : ℤ} (h : k ≤ 1024) : 2 ^ k ≤ (beyond : ℚ) := by
  rw [beyond_cast]
  exact zpow_le_zpow_right₀ (by norm_num) h

theorem signedMagnitude_of_nonneg {q : ℚ} (h : 0 ≤ q) : signedMagnitude q = magnitude q :=
  if_neg (not_lt.mpr h)

theorem signedMagnitude_neg (q : ℚ) : signedMagnitude (-q) = -signedMagnitude q := by
  rcases lt_trichotomy q 0 with h | rfl | h
  · rw [signedMagnitude_of_nonneg (by linarith), signedMagnitude, if_pos h, neg_neg]
  · simp [signedMagnitude]
  · rw [signedMagnitude_of_nonneg h.le, signedMagnitude, if_pos (by linarith), neg_neg]

theorem signedMagnitude_mono {p q : ℚ} (h : p ≤ q) : signedMagnitude p ≤ signedMagnitude q := by
  rcases le_or_gt 0 p with hp | hp
  · rw [signedMagnitude_of_nonneg hp, signedMagnitude_of_nonneg (hp.trans h)]
    exact magnitude_mono hp h
  · rw [signedMagnitude, if_pos hp]
    have hp' := magnitude_nonneg (q := -p) (by linarith)
    rcases le_or_gt 0 q with hq | hq
    · rw [signedMagnitude_of_nonneg hq]
      exact (neg_nonpos.mpr hp').trans (magnitude_nonneg hq)
    · rw [signedMagnitude, if_pos hq]
      exact neg_le_neg (magnitude_mono (by linarith) (by linarith))

theorem rounded_mono {p q : ℚ} (h : p ≤ q) : rounded p ≤ rounded q :=
  max_le_max le_rfl (min_le_min (signedMagnitude_mono h) le_rfl)

theorem rounded_neg (q : ℚ) : rounded (-q) = -rounded q := by
  have hb := beyond_pos
  unfold rounded
  rw [signedMagnitude_neg, max_def, max_def, min_def, min_def]
  split_ifs <;> linarith

@[simp] theorem rounded_zero : rounded 0 = 0 := by
  have hb := beyond_pos
  simp [rounded, signedMagnitude, hb.le]

theorem rounded_nonneg {q : ℚ} (h : 0 ≤ q) : 0 ≤ rounded q :=
  rounded_zero ▸ rounded_mono h

theorem rounded_eq_magnitude {q : ℚ} (h : 0 ≤ q) : rounded q = min (magnitude q) beyond := by
  have hb := beyond_pos
  rw [rounded, signedMagnitude_of_nonneg h, max_eq_right]
  exact le_min (by linarith [magnitude_nonneg h]) (by linarith)

/-- What a double can hold exactly is left alone. -/
theorem rounded_dyadic {m : ℕ} {e : ℤ} (hm : m < 2 ^ 53) (he : -1074 ≤ e)
    (hle : (m : ℚ) * 2 ^ e ≤ beyond) : rounded (m * 2 ^ e) = m * 2 ^ e := by
  have hnonneg : (0 : ℚ) ≤ m * 2 ^ e := mul_nonneg m.cast_nonneg (zpow_nonneg (by norm_num) e)
  rw [rounded_eq_magnitude hnonneg, magnitude_dyadic hm he, min_eq_left hle]

/-- Integers that fit a mantissa are not rounded. -/
theorem rounded_natCast {n : ℕ} (h : n < 2 ^ 53) : rounded n = n := by
  have hle : (n : ℚ) * 2 ^ (0 : ℤ) ≤ beyond := by
    rw [zpow_zero, mul_one]
    calc (n : ℚ) ≤ 2 ^ (53 : ℤ) := by exact_mod_cast h.le
      _ ≤ beyond := two_zpow_le_beyond (by norm_num)
  simpa using rounded_dyadic h (e := 0) (by norm_num) hle

theorem rounded_two_zpow {k : ℤ} (hlow : -1074 ≤ k) (hhigh : k ≤ 1024) :
    rounded (2 ^ k) = 2 ^ k := by
  have hle : ((1 : ℕ) : ℚ) * 2 ^ k ≤ beyond := by
    rw [Nat.cast_one, one_mul]
    exact two_zpow_le_beyond hhigh
  simpa using rounded_dyadic (m := 1) (by norm_num) hlow hle

/-- A bound by a power of two survives rounding. -/
theorem rounded_le_two_zpow {q : ℚ} {k : ℤ} (hlow : -1074 ≤ k) (hhigh : k ≤ 1024)
    (h : q ≤ 2 ^ k) : rounded q ≤ 2 ^ k :=
  rounded_two_zpow hlow hhigh ▸ rounded_mono h

theorem two_zpow_le_rounded {q : ℚ} {k : ℤ} (hlow : -1074 ≤ k) (hhigh : k ≤ 1024)
    (h : 2 ^ k ≤ q) : 2 ^ k ≤ rounded q := by
  simpa [rounded_two_zpow hlow hhigh] using rounded_mono h

theorem abs_rounded_le {q : ℚ} {k : ℤ} (hlow : -1074 ≤ k) (hhigh : k ≤ 1024)
    (h : |q| ≤ 2 ^ k) : |rounded q| ≤ 2 ^ k := by
  obtain ⟨hneg, hpos⟩ := abs_le.mp h
  refine abs_le.mpr ⟨?_, rounded_le_two_zpow hlow hhigh hpos⟩
  rw [neg_le, ← rounded_neg]
  exact rounded_le_two_zpow hlow hhigh (by linarith)

end StepTone.Binary64
