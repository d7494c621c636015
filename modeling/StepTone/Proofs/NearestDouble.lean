/-
StepTone.Proofs.NearestDouble — the double that a quotient is read as.

`Binary64.nearest` works on naturals alone: two logarithms give the last place that is kept,
a division rounds to it, and the bits are put together by hand. Each of these steps is
compared with its counterpart on rational numbers, so that a quotient which is rounded to
what a finite double stands for gives this very double, with its sign.

* `roundHalfEven_eq` — the division is rounding to the nearest integer, a half to even.
* `lastPlace_eq` — the logarithms find the last place of the quotient.
* `bits_of_value` — the bits of a finite double, from its mantissa and exponent.
* `nearest_eq` — a quotient that is rounded to a double gives it.
-/
import Mathlib
import StepTone.Proofs.Doubles

namespace StepTone.Binary64

/-! ## Rounding a quotient -/

/-- A number is rounded to an integer at most a half away, an even one if it is just a half. -/
theorem halfEven_eq {x : ℚ} {n : ℤ} (hlow : (n : ℚ) - 1 / 2 ≤ x) (hhigh : x ≤ n + 1 / 2)
    (hodd : n % 2 = 1 → (n : ℚ) - 1 / 2 < x ∧ x < n + 1 / 2) : halfEven x = n := by
  rcases lt_or_ge x n with hlt | hge
  · have hfloor : ⌊x⌋ = n - 1 := by
      rw [Int.floor_eq_iff]
      push_cast
      constructor <;> linarith
    rw [halfEven, hfloor]
    push_cast
    split_ifs with hless heq
    · linarith
    · have : ¬n % 2 = 1 := fun hn => by linarith [(hodd hn).1]
      omega
    · omega
  · have hfloor : ⌊x⌋ = n := by
      rw [Int.floor_eq_iff]
      constructor <;> linarith
    rw [halfEven, hfloor]
    split_ifs with hless heq
    · rfl
    · have : ¬n % 2 = 1 := fun hn => by linarith [(hodd hn).2]
      omega
    · exact absurd (le_antisymm hhigh (not_lt.mp hless)) heq

theorem floor_quotient (num den : ℕ) : ⌊(num : ℚ) / den⌋ = ((num / den : ℕ) : ℤ) := by
  have h := Rat.floor_intCast_div_natCast num den
  simpa using h

theorem roundHalfEven_eq {num den : ℕ} (h : 0 < den) :
    (roundHalfEven num den : ℤ) = halfEven (num / den) := by
  have hden : (0 : ℚ) < den := by exact_mod_cast h
  have hsplit : (num : ℚ) = den * (num / den : ℕ) + (num % den : ℕ) := by
    exact_mod_cast (Nat.div_add_mod num den).symm
  -- the rest of the division tells on which side of a half the quotient lies
  have hlt : (num : ℚ) / den < (num / den : ℕ) + 1 / 2 ↔ 2 * (num % den) < den := by
    rw [div_lt_iff₀ hden, ← Nat.cast_lt (α := ℚ)]
    push_cast
    constructor <;> intro h <;> linarith
  have heq : (num : ℚ) / den = (num / den : ℕ) + 1 / 2 ↔ 2 * (num % den) = den := by
    rw [div_eq_iff hden.ne', ← Nat.cast_inj (R := ℚ)]
    push_cast
    constructor <;> intro h <;> linarith
  rw [halfEven, floor_quotient, roundHalfEven, Int.cast_natCast]
  simp only [hlt, heq]
  split_ifs <;> push_cast <;> omega

theorem inUnits_pos {den : ℕ} (h : 0 < den) (num : ℕ) (q : ℤ) : 0 < (inUnits num den q).2 := by
  cases q with
  | ofNat q => exact Nat.mul_pos h (Nat.pow_pos two_pos)
  | negSucc q => exact h

theorem inUnits_eq (num den : ℕ) (q : ℤ) :
    ((inUnits num den q).1 : ℚ) / (inUnits num den q).2 = num / den / 2 ^ q := by
  cases q with
  | ofNat q => simp [inUnits, div_div]
  | negSucc q => simp [inUnits, zpow_negSucc, mul_div_right_comm]

/-! ## The last place -/

/-- Two bit lengths fix a quotient up to a factor of two. -/
theorem quotient_within {num den : ℕ} (hnum : 0 < num) (hden : 0 < den) :
    2 ^ ((num.log2 : ℤ) - den.log2 - 1) < (num : ℚ) / den ∧
      (num : ℚ) / den < 2 ^ ((num.log2 : ℤ) - den.log2 + 1) := by
  have hpos : (0 : ℚ) < den := by exact_mod_cast hden
  have hnumLow : (2 : ℚ) ^ (num.log2 : ℤ) ≤ num := by
    exact_mod_cast Nat.log2_self_le hnum.ne'
  have hnumHigh : (num : ℚ) < 2 ^ ((num.log2 : ℤ) + 1) := by
    exact_mod_cast Nat.lt_log2_self (n := num)
  have hdenLow : (2 : ℚ) ^ (den.log2 : ℤ) ≤ den := by
    exact_mod_cast Nat.log2_self_le hden.ne'
  have hdenHigh : (den : ℚ) < 2 ^ ((den.log2 : ℤ) + 1) := by
    exact_mod_cast Nat.lt_log2_self (n := den)
  constructor
  · rw [lt_div_iff₀ hpos]
    calc (2 : ℚ) ^ ((num.log2 : ℤ) - den.log2 - 1) * den
        < 2 ^ ((num.log2 : ℤ) - den.log2 - 1) * 2 ^ ((den.log2 : ℤ) + 1) :=
          mul_lt_mul_of_pos_left hdenHigh (zpow_pos two_pos _)
      _ = 2 ^ (num.log2 : ℤ) := by
          rw [← zpow_add₀ two_ne_zero]
          congr 1
          omega
      _ ≤ num := hnumLow
  · rw [div_lt_iff₀ hpos]
    calc (num : ℚ) < 2 ^ ((num.log2 : ℤ) + 1) := hnumHigh
      _ = 2 ^ ((num.log2 : ℤ) - den.log2 + 1) * 2 ^ (den.log2 : ℤ) := by
          rw [← zpow_add₀ two_ne_zero]
          congr 1
          omega
      _ ≤ 2 ^ ((num.log2 : ℤ) - den.log2 + 1) * den :=
          mul_le_mul_of_nonneg_left hdenLow (zpow_pos two_pos _).le

theorem log_eq {r : ℚ} {k : ℤ} (hlow : 2 ^ k ≤ r) (hhigh : r < 2 ^ (k + 1)) :
    Int.log 2 r = k := by
  have hpos : 0 < r := (zpow_pos two_pos k).trans_le hlow
  have hle : k ≤ Int.log 2 r :=
    (Int.zpow_le_iff_le_log (by norm_num) hpos).mp (by exact_mod_cast hlow)
  have hlt : Int.log 2 r < k + 1 :=
    (Int.lt_zpow_iff_log_lt (by norm_num) hpos).mp (by exact_mod_cast hhigh)
  omega

/-- The logarithms find the last place of a quotient: the guess is right or one too large. -/
theorem lastPlace_eq {num den : ℕ} (hnum : 0 < num) (hden : 0 < den) :
    lastPlace num den = place (num / den) := by
  obtain ⟨hlow, hhigh⟩ := quotient_within hnum hden
  set guess : ℤ := (num.log2 : ℤ) - den.log2 - 52 with hguess
  have hfew : (inUnits num den guess).1 / (inUnits num den guess).2 < 2 ^ 52 ↔
      (num : ℚ) / den < 2 ^ ((num.log2 : ℤ) - den.log2) := by
    have hunits : (0 : ℚ) < (inUnits num den guess).2 := by
      exact_mod_cast inUnits_pos hden num guess
    have hpow : (2 : ℚ) ^ ((num.log2 : ℤ) - den.log2) = 2 ^ (52 : ℕ) * 2 ^ guess := by
      rw [← zpow_natCast, ← zpow_add₀ two_ne_zero]
      congr 1
      omega
    rw [Nat.div_lt_iff_lt_mul (inUnits_pos hden num guess), hpow,
      ← div_lt_iff₀ (zpow_pos two_pos guess), ← inUnits_eq, div_lt_iff₀ hunits]
    exact_mod_cast Iff.rfl
  have hlast : lastPlace num den = max (-1074)
      (if (inUnits num den guess).1 / (inUnits num den guess).2 < 2 ^ 52 then guess - 1
        else guess) := rfl
  rw [hlast, place, max_comm]
  split_ifs with hless
  · rw [hfew] at hless
    rw [log_eq hlow.le (by rwa [sub_add_cancel])]
    congr 1
    omega
  · rw [hfew, not_lt] at hless
    rw [log_eq hless hhigh]

/-! ## Bits -/

/-- The bits of a finite double without its sign, from mantissa and exponent. -/
def code (m : ℕ) (q : ℤ) : ℕ :=
  (q + 1074).toNat * 2 ^ 52 + m

/-- The sign is the first of sixty-four bits. -/
theorem sign_add_mod {b : ℕ} {negative : Bool} (hlt : b < 2 ^ 64)
    (h : decide (b / 2 ^ 63 % 2 = 1) = negative) :
    (if negative then 2 ^ 63 else 0) + b % 2 ^ 63 = b := by
  cases negative with
  | true =>
    have := of_decide_eq_true h
    rw [if_pos rfl]
    omega
  | false =>
    have := of_decide_eq_false h
    rw [if_neg (by decide)]
    omega

/-- What the bits of a finite double say: its sign stands first, mantissa and exponent follow,
and these two are rounded. -/
theorem bits_of_value {x : Float} {negative : Bool} {m : ℕ} {q : ℤ}
    (h : value x = .finite negative m q) :
    decide (x.toBits.toNat / 2 ^ 63 % 2 = 1) = negative ∧ x.toBits.toNat % 2 ^ 63 = code m q ∧
      IsRounded m q ∧ q ≤ 971 := by
  rw [value, valueOfBits] at h
  simp only [Nat.pow_eq] at h
  split_ifs at h with hinfinite hnan hsubnormal
  · obtain ⟨hnegative, rfl, rfl⟩ := Value.finite.inj h
    refine ⟨hnegative, ?_, ?_⟩
    · rw [code]
      omega
    · rw [IsRounded]
      omega
  · obtain ⟨hnegative, rfl, rfl⟩ := Value.finite.inj h
    refine ⟨hnegative, ?_, ?_⟩
    · rw [code]
      omega
    · rw [IsRounded]
      omega

/-- A finite double is put together from its bits. -/
theorem ofBits_of_value {x : Float} {negative : Bool} {m : ℕ} {q : ℤ}
    (h : value x = .finite negative m q) :
    Float.ofBits (UInt64.ofNat ((if negative then 2 ^ 63 else 0) + code m q)) = x := by
  obtain ⟨hsign, hcode, -⟩ := bits_of_value h
  have hlt : x.toBits.toNat < 2 ^ 64 := x.toBits.toNat_lt
  rw [← hcode, sign_add_mod hlt hsign, UInt64.ofNat_toNat, Float.ofBits_toBits]

/-- What a finite double stands for is rounded. -/
theorem isRounded_of_value {x : Float} {negative : Bool} {m : ℕ} {q : ℤ}
    (h : value x = .finite negative m q) : IsRounded m q ∧ q ≤ 971 :=
  (bits_of_value h).2.2

/-- A rounded number has one mantissa and one exponent. -/
theorem dyadic_unique {m n : ℕ} {p q : ℤ} (hn : IsRounded n p) (hm : IsRounded m q)
    (h : (n : ℚ) * 2 ^ p = m * 2 ^ q) : n = m ∧ p = q := by
  rcases lt_trichotomy p q with hlt | rfl | hlt
  · exact absurd h (dyadic_lt_of_exponent_lt hn hm hlt).ne
  · have hcast : (n : ℚ) = m := mul_right_cancel₀ (zpow_pos two_pos p).ne' h
    exact ⟨by exact_mod_cast hcast, rfl⟩
  · exact absurd h (dyadic_lt_of_exponent_lt hm hn hlt).ne'

/-- Equal numbers have equal bits, also where rounding has carried into a new place. -/
theorem code_eq {m n : ℕ} {p q : ℤ} (hm : IsRounded m q) (hn : n ≤ 2 ^ 53) (hp : -1074 ≤ p)
    (hfull : 2 ^ 52 ≤ n ∨ p = -1074) (h : (n : ℚ) * 2 ^ p = m * 2 ^ q) : code n p = code m q := by
  rcases hn.lt_or_eq with hlt | rfl
  · obtain ⟨rfl, rfl⟩ := dyadic_unique ⟨hlt, hp, hfull⟩ hm h
    rfl
  · have hcarry : ((2 ^ 52 : ℕ) : ℚ) * 2 ^ (p + 1) = m * 2 ^ q := by
      rw [← h, zpow_add_one₀ two_ne_zero]
      push_cast
      ring
    obtain ⟨rfl, rfl⟩ := dyadic_unique ⟨by norm_num, by omega, .inl le_rfl⟩ hm hcarry
    rw [code, code]
    omega

/-! ## The nearest double -/

/-- What a quotient is rounded to, as it is computed: a mantissa at the last place. -/
theorem magnitude_quotient {num den : ℕ} (hnum : 0 < num) (hden : 0 < den) {n : ℕ} {p : ℤ}
    (hp : lastPlace num den = p)
    (hn : roundHalfEven (inUnits num den p).1 (inUnits num den p).2 = n) :
    magnitude (num / den) = n * 2 ^ p ∧ n ≤ 2 ^ 53 ∧ -1074 ≤ p ∧ (2 ^ 52 ≤ n ∨ p = -1074) := by
  rw [lastPlace_eq hnum hden] at hp
  have hpos : (0 : ℚ) < num / den := by positivity
  have hround : (n : ℤ) = halfEven (num / den / 2 ^ p) := by
    rw [← hn, roundHalfEven_eq (inUnits_pos hden num p), inUnits_eq]
  have hvalue : magnitude (num / den) = n * 2 ^ p := by
    rw [magnitude, hp, ← hround, Int.cast_natCast]
  have hpow : (0 : ℚ) < 2 ^ p := zpow_pos two_pos p
  refine ⟨hvalue, ?_, hp ▸ le_place _, ?_⟩
  · have hle := magnitude_le_two_zpow_place ((num : ℚ) / den)
    rw [hvalue, hp, zpow_add₀ two_ne_zero, mul_le_mul_iff_left₀ hpow] at hle
    exact_mod_cast hle
  · rcases (hp ▸ le_place ((num : ℚ) / den) : -1074 ≤ p).eq_or_lt with heq | hlt
    · exact .inr heq.symm
    · have hle := two_zpow_place_le_magnitude hpos (hp.symm ▸ hlt)
      rw [hvalue, hp, zpow_add₀ two_ne_zero, mul_le_mul_iff_left₀ hpow] at hle
      exact .inl (by exact_mod_cast hle)

/-- A quotient that is rounded to what a finite double stands for gives this double. -/
theorem nearest_eq {x : Float} {negative : Bool} {m : ℕ} {q : ℤ}
    (hx : value x = .finite negative m q) {num den : ℕ} (hnum : 0 < num) (hden : 0 < den)
    (h : rounded (num / den) = m * 2 ^ q) : nearest negative num den = x := by
  obtain ⟨hm, hq⟩ := isRounded_of_value hx
  obtain ⟨hvalue, hn, hp, hfull⟩ := magnitude_quotient hnum hden rfl rfl
  set p := lastPlace num den with hplace
  set n := roundHalfEven (inUnits num den p).1 (inUnits num den p).2 with hround
  have hcode : code n p = code m q := by
    have hnonneg : (0 : ℚ) ≤ num / den := by positivity
    rw [rounded_eq_magnitude hnonneg, hvalue] at h
    -- the number lies below the infinities, so nothing was cut off
    have hless : (m : ℚ) * 2 ^ q < beyond := dyadic_lt_beyond hm hq
    refine code_eq hm hn hp hfull ?_
    rcases min_choice ((n : ℚ) * 2 ^ p) beyond with hmin | hmin
    · rw [← hmin, h]
    · rw [hmin] at h
      exact absurd h hless.ne'
  have hbits : (if num = 0 then 0 else if n < Nat.pow 2 52 then n
      else min ((p + 1074).toNat * Nat.pow 2 52 + n) (2047 * Nat.pow 2 52)) = code m q := by
    simp only [Nat.pow_eq]
    rw [if_neg hnum.ne', ← hcode]
    obtain ⟨hlt, -, -⟩ := hm
    have hsmall : code m q < 2047 * 2 ^ 52 := by
      rw [code]
      omega
    rw [← hcode, code] at hsmall
    rw [code]
    split_ifs with hfew
    · omega
    · exact min_eq_left hsmall.le
  rw [← ofBits_of_value hx, ← hbits]
  rfl

theorem nearest_zero {x : Float} {negative : Bool} {q : ℤ}
    (hx : value x = .finite negative 0 q) (den : ℕ) : nearest negative 0 den = x := by
  obtain ⟨⟨-, -, hfull⟩, -⟩ := isRounded_of_value hx
  obtain rfl : q = -1074 := hfull.resolve_left (by norm_num)
  rw [← ofBits_of_value hx]
  rfl

end StepTone.Binary64
