/-
StepTone.Proofs.ShortestDigits — the shortest digits of a double determine it.

The search for digits tries one length after the other and stops at the first decimal that
lies in the rounding interval of the double. Two things are shown about it. Whatever lies
in the interval is rounded to the double, also at a power of two, where the interval is
lopsided. And the search ends: seventeen digits stand closer to each other than the
interval is wide.

* `Digits.toRat` — the number that digits stand for.
* `Determines` — digits in the rounding interval of a double.
* `withDigits?_cases` — what the search finds at one length.
* `ten_zpow_leadingExponent_le` — the guess from the bit lengths never starts too high.
* `rounded_of_determines` — digits that determine a double are rounded to it.
* `rounded_shortest` — the digits that are written are rounded to the double.
-/
import Mathlib
import StepTone.Decimal.Digits
import StepTone.Proofs.NearestDouble

namespace StepTone.Decimal

open Binary64 (IsRounded beyond_cast dyadic_lt_beyond halfEven halfEven_eq magnitude place_eq
  quotient_within rounded_eq_magnitude)

/-! ## Powers as quotients -/

theorem power_pos {b : ℕ} (h : 0 < b) (k : ℤ) : 0 < (power b k).1 ∧ 0 < (power b k).2 := by
  cases k with
  | ofNat k => exact ⟨Nat.pow_pos h, one_pos⟩
  | negSucc k => exact ⟨one_pos, Nat.pow_pos h⟩

theorem power_eq (b : ℕ) (k : ℤ) : ((power b k).1 : ℚ) / (power b k).2 = (b : ℚ) ^ k := by
  cases k with
  | ofNat k => simp [power]
  | negSucc k => simp [power, zpow_negSucc]

/-! ## The leading digit -/

/-- A comparison with a power of ten, with the denominators cleared. -/
theorem reaches_iff {num den : ℕ} (hden : 0 < den) (k : ℤ) :
    (power 10 k).1 * den ≤ num * (power 10 k).2 ↔ (10 : ℚ) ^ k ≤ num / den := by
  have hten := (power_pos (b := 10) (by norm_num) k).2
  have hquot := power_eq 10 k
  push_cast at hquot
  rw [← hquot, div_le_div_iff₀ (by exact_mod_cast hten) (by exact_mod_cast hden)]
  exact_mod_cast Iff.rfl

/-- The power of ten that the guess starts from lies below the power of two. The exponents of
doubles are gone through one by one. -/
theorem guess_le {k : ℤ} (hlow : -1200 ≤ k) (hhigh : k ≤ 1200) :
    (10 : ℚ) ^ (k * 30103 / 100000 - 1) ≤ 2 ^ (k - 1) := by
  have hall : (List.range 2401).all (fun i =>
      let k : ℤ := (i : ℤ) - 1200
      let ten := power 10 (k * 30103 / 100000 - 1)
      let two := power 2 (k - 1)
      decide (ten.1 * two.2 ≤ two.1 * ten.2)) = true := by
    decide +kernel
  have hmem : (k + 1200).toNat ∈ List.range 2401 := List.mem_range.mpr (by omega)
  have hk := of_decide_eq_true (List.all_eq_true.mp hall _ hmem)
  have hcast : (((k + 1200).toNat : ℕ) : ℤ) - 1200 = k := by omega
  have htwo := power_eq 2 (k - 1)
  push_cast at htwo
  rw [hcast, reaches_iff (power_pos two_pos (k - 1)).2, htwo] at hk
  exact hk

/-- The leading digit counts a power of ten that the number reaches. -/
theorem ten_zpow_leadingExponent_le {num den : ℕ} (hnum : 0 < num) (hden : 0 < den)
    (hlow : -1200 ≤ (num.log2 : ℤ) - den.log2) (hhigh : (num.log2 : ℤ) - den.log2 ≤ 1200) :
    (10 : ℚ) ^ leadingExponent num den ≤ num / den := by
  set guess := ((num.log2 : ℤ) - den.log2) * 30103 / 100000 with hguess
  have hlead : leadingExponent num den =
      if (power 10 (guess + 1)).1 * den ≤ num * (power 10 (guess + 1)).2 then guess + 1
      else if (power 10 guess).1 * den ≤ num * (power 10 guess).2 then guess
      else guess - 1 := by
    simp only [leadingExponent, decide_eq_true_eq]
    rfl
  rw [hlead]
  split_ifs with hnext hthis
  · exact (reaches_iff hden _).mp hnext
  · exact (reaches_iff hden _).mp hthis
  · exact (guess_le hlow hhigh).trans (quotient_within hnum hden).1.le

/-! ## The rounding interval -/

/-- The number that digits stand for. -/
def Digits.toRat (d : Digits) : ℚ :=
  d.coefficient * 10 ^ d.exponent

/-- A count of quarters lies in the interval. -/
def Interval.Holds (i : Interval) (t : ℚ) : Prop :=
  if i.closed then (i.lower : ℚ) ≤ t ∧ t ≤ i.upper else (i.lower : ℚ) < t ∧ t < i.upper

/-- The digits lie in the rounding interval of `m · 2^q`. -/
def Determines (d : Digits) (m : ℕ) (q : ℤ) : Prop :=
  (Interval.around m q).Holds (d.toRat / 2 ^ (q - 2))

/-- The test on naturals is the test on numbers, with the denominators cleared. -/
theorem inside_iff (i : Interval) {a b c d : ℕ} (ha : 0 < a) (hb : 0 < b) (hd : 0 < d) (g : ℕ) :
    (if i.closed then decide (i.lower * a * d ≤ g * c * b) && decide (g * c * b ≤ i.upper * a * d)
      else decide (i.lower * a * d < g * c * b) && decide (g * c * b < i.upper * a * d)) = true ↔
      i.Holds (g * ((c : ℚ) / d) / (a / b)) := by
  have hquot : (g : ℚ) * (c / d) / (a / b) = (g * c * b : ℕ) / (a * d : ℕ) := by
    push_cast
    field_simp
  have hpos : (0 : ℚ) < (a * d : ℕ) := by exact_mod_cast Nat.mul_pos ha hd
  rw [hquot, Interval.Holds, le_div_iff₀ hpos, div_le_iff₀ hpos, lt_div_iff₀ hpos,
    div_lt_iff₀ hpos]
  norm_cast
  rw [← mul_assoc, ← mul_assoc]
  cases i.closed <;> simp

theorem quarters (m : ℕ) (q : ℤ) : (m : ℚ) * 2 ^ q = 4 * m * 2 ^ (q - 2) := by
  rw [zpow_sub₀ two_ne_zero]
  ring

/-- The quotient of the search is the double in units of the last digit, cut off. -/
theorem floor_within {m a b c d : ℕ} (hb : 0 < b) (hc : 0 < c) (hd : 0 < d) :
    ((4 * m * a * d / (b * c) : ℕ) : ℚ) * (c / d) ≤ 4 * m * (a / b) ∧
      4 * m * (a / b) < (((4 * m * a * d / (b * c) : ℕ) : ℚ) + 1) * (c / d) := by
  have hunit : 0 < b * c := Nat.mul_pos hb hc
  have hb' : (0 : ℚ) < b := by exact_mod_cast hb
  have hd' : (0 : ℚ) < d := by exact_mod_cast hd
  set g := 4 * m * a * d / (b * c) with hg
  have hlow : g * (b * c) ≤ 4 * m * a * d := Nat.div_mul_le_self _ _
  have hhigh : 4 * m * a * d < (g + 1) * (b * c) := Nat.lt_mul_of_div_lt (Nat.lt_succ_self _) hunit
  rw [← mul_div_assoc, ← mul_div_assoc, ← mul_div_assoc, div_le_div_iff₀ hd' hb',
    div_lt_div_iff₀ hb' hd']
  constructor
  · calc (g : ℚ) * c * b = (g * (b * c) : ℕ) := by push_cast; ring
      _ ≤ (4 * m * a * d : ℕ) := by exact_mod_cast hlow
      _ = 4 * m * a * d := by push_cast; rfl
  · calc (4 : ℚ) * m * a * d = (4 * m * a * d : ℕ) := by push_cast; rfl
      _ < ((g + 1) * (b * c) : ℕ) := by exact_mod_cast hhigh
      _ = (g + 1) * c * b := by push_cast; ring

/-- What the search finds with `n` digits: the two neighbours of the double are tried, and
one that determines it is taken if there is any. -/
theorem withDigits?_cases (m : ℕ) (q : ℤ) (n : ℕ) :
    ∃ g : ℕ, ∃ e : ℤ,
      e = leadingExponent (4 * m * (power 2 (q - 2)).1) (power 2 (q - 2)).2 + 1 - n ∧
      (g : ℚ) * 10 ^ e ≤ m * 2 ^ q ∧ (m : ℚ) * 2 ^ q < (g + 1) * 10 ^ e ∧
      ((withDigits? m q n = some ⟨g, e⟩ ∧ Determines ⟨g, e⟩ m q) ∨
        (withDigits? m q n = some ⟨g + 1, e⟩ ∧ Determines ⟨g + 1, e⟩ m q) ∨
        (withDigits? m q n = none ∧ ¬Determines ⟨g, e⟩ m q ∧ ¬Determines ⟨g + 1, e⟩ m q)) := by
  set e := leadingExponent (4 * m * (power 2 (q - 2)).1) (power 2 (q - 2)).2 + 1 - n with he
  obtain ⟨ha, hb⟩ := power_pos (b := 2) two_pos (q - 2)
  obtain ⟨hc, hd⟩ := power_pos (b := 10) (by norm_num) e
  have htwo := power_eq 2 (q - 2)
  have hten := power_eq 10 e
  have hinside := fun g => inside_iff (Interval.around m q) (c := (power 10 e).1) ha hb hd g
  rcases hab : power 2 (q - 2) with ⟨a, b⟩
  rcases hcd : power 10 e with ⟨c, d⟩
  -- the search is unfolded only after its two powers have names
  simp only [hab, hcd] at he ha hb hc hd htwo hten hinside
  push_cast at htwo hten
  simp only [htwo, hten] at hinside
  set g := 4 * m * a * d / (b * c) with hg
  obtain ⟨hlow, hhigh⟩ := floor_within (m := m) (a := a) hb hc hd
  rw [htwo, hten, ← quarters] at hlow hhigh
  refine ⟨g, e, rfl, hlow, hhigh, ?_⟩
  rw [withDigits?]
  simp only [hab, ← he, hcd, ← hg]
  split
  next hthis hnext =>
    split_ifs
    · exact .inl ⟨rfl, (hinside g).mp hthis⟩
    · exact .inr (.inl ⟨rfl, (hinside (g + 1)).mp hnext⟩)
  next hthis hnext => exact .inl ⟨rfl, (hinside g).mp hthis⟩
  next hthis hnext => exact .inr (.inl ⟨rfl, (hinside (g + 1)).mp hnext⟩)
  next hthis hnext =>
    refine .inr (.inr ⟨rfl, ?_, ?_⟩)
    · intro h
      exact Bool.false_ne_true (hthis.symm.trans ((hinside g).mpr h))
    · intro h
      exact Bool.false_ne_true (hnext.symm.trans ((hinside (g + 1)).mpr h))

/-! ## Seventeen digits -/

theorem lower_around {m : ℕ} (hm : 0 < m) (q : ℤ) :
    ((Interval.around m q).lower : ℚ) =
      if m = 2 ^ 52 ∧ -1074 < q then 4 * (m : ℚ) - 1 else 4 * m - 2 := by
  rw [Interval.around, Nat.pow_eq]
  split_ifs
  · rw [Nat.cast_sub (by omega)]
    push_cast
    rfl
  · rw [Nat.cast_sub (by omega)]
    push_cast
    rfl

theorem upper_around (m : ℕ) (q : ℤ) : ((Interval.around m q).upper : ℚ) = 4 * m + 2 := by
  rw [Interval.around]
  push_cast
  rfl

theorem Interval.holds_of_lt {i : Interval} {t : ℚ} (hlow : (i.lower : ℚ) < t)
    (hhigh : t < i.upper) : i.Holds t := by
  rw [Interval.Holds]
  split_ifs
  · exact ⟨hlow.le, hhigh.le⟩
  · exact ⟨hlow, hhigh⟩

theorem Interval.Holds.le {i : Interval} {t : ℚ} (h : i.Holds t) :
    (i.lower : ℚ) ≤ t ∧ t ≤ i.upper := by
  rw [Interval.Holds] at h
  split_ifs at h
  · exact h
  · exact ⟨h.1.le, h.2.le⟩

/-- Neighbours that are closer than half of the interval do not both miss it. -/
theorem determines_of_near {m : ℕ} {q e : ℤ} {g : ℕ} (hm : 0 < m) (hlt : m < 2 ^ 53)
    (hlow : (g : ℚ) * 10 ^ e ≤ m * 2 ^ q) (hhigh : (m : ℚ) * 2 ^ q < (g + 1) * 10 ^ e)
    (hfine : (10 : ℚ) ^ e * 10 ^ 16 ≤ m * 2 ^ q) :
    Determines ⟨g, e⟩ m q ∨ Determines ⟨g + 1, e⟩ m q := by
  have hunit : (0 : ℚ) < 2 ^ (q - 2) := zpow_pos two_pos _
  have hcast : (m : ℚ) < 2 ^ 53 := by exact_mod_cast hlt
  -- in quarters of the last place: the neighbours are `s` apart, which is less than four
  obtain ⟨s, hs⟩ : ∃ s : ℚ, (10 : ℚ) ^ e = s * 2 ^ (q - 2) :=
    ⟨10 ^ e / 2 ^ (q - 2), (div_mul_cancel₀ _ hunit.ne').symm⟩
  have hthis : (⟨g, e⟩ : Digits).toRat / 2 ^ (q - 2) = g * s := by
    rw [Digits.toRat, hs, ← mul_assoc, mul_div_cancel_right₀ _ hunit.ne']
  have hnext : (⟨g + 1, e⟩ : Digits).toRat / 2 ^ (q - 2) = g * s + s := by
    rw [Digits.toRat, hs, ← mul_assoc, mul_div_cancel_right₀ _ hunit.ne']
    push_cast
    ring
  rw [quarters, hs, ← mul_assoc, mul_le_mul_iff_left₀ hunit] at hlow
  rw [quarters, hs, ← mul_assoc, mul_lt_mul_iff_left₀ hunit] at hhigh
  rw [quarters, hs, mul_right_comm, mul_le_mul_iff_left₀ hunit] at hfine
  rw [Determines, Determines, hthis, hnext]
  have hlower := lower_around hm q
  have hupper := upper_around m q
  rcases lt_or_ge ((Interval.around m q).lower : ℚ) (g * s) with h | h
  · exact .inl (Interval.holds_of_lt h (by linarith))
  · refine .inr (Interval.holds_of_lt ?_ ?_)
    · split_ifs at hlower <;> linarith
    · split_ifs at hlower with hpower
      · have hcast : (m : ℚ) = 2 ^ 52 := by exact_mod_cast hpower.1
        linarith
      · linarith

/-- The leading digit of a double is found. -/
theorem leading_le {m : ℕ} {q : ℤ} (hm : 0 < m) (hr : IsRounded m q) (hq : q ≤ 971) :
    (10 : ℚ) ^ leadingExponent (4 * m * (power 2 (q - 2)).1) (power 2 (q - 2)).2 ≤
      m * 2 ^ q := by
  obtain ⟨ha, hb⟩ := power_pos (b := 2) two_pos (q - 2)
  have htwo := power_eq 2 (q - 2)
  generalize power 2 (q - 2) = unit at ha hb htwo ⊢
  have hnum : 0 < 4 * m * unit.1 := by positivity
  have hvalue : ((4 * m * unit.1 : ℕ) : ℚ) / unit.2 = m * 2 ^ q := by
    push_cast at htwo ⊢
    rw [mul_div_assoc, htwo, quarters]
  obtain ⟨hlow, hhigh⟩ := quotient_within hnum hb
  rw [hvalue] at hlow hhigh
  have hsmall : (m : ℚ) * 2 ^ q < 2 ^ (1024 : ℤ) := by
    rw [← beyond_cast]
    exact dyadic_lt_beyond hr hq
  have hlarge : (2 : ℚ) ^ (-1074 : ℤ) ≤ m * 2 ^ q := by
    have hone : (1 : ℚ) ≤ m := by exact_mod_cast hm
    calc (2 : ℚ) ^ (-1074 : ℤ) ≤ 2 ^ q := zpow_le_zpow_right₀ (by norm_num) hr.2.1
      _ ≤ m * 2 ^ q := le_mul_of_one_le_left (zpow_pos two_pos q).le hone
  have habove := (zpow_lt_zpow_iff_right₀ (by norm_num : (1 : ℚ) < 2)).mp (hlow.trans hsmall)
  have hbelow := (zpow_lt_zpow_iff_right₀ (by norm_num : (1 : ℚ) < 2)).mp (hlarge.trans_lt hhigh)
  rw [← hvalue]
  exact ten_zpow_leadingExponent_le hnum hb (by omega) (by omega)

/-- Seventeen digits determine every double. -/
theorem withDigits?_seventeen {m : ℕ} {q : ℤ} (hm : 0 < m) (hr : IsRounded m q) (hq : q ≤ 971) :
    withDigits? m q 17 ≠ none := by
  obtain ⟨g, e, he, hlow, hhigh, h⟩ := withDigits?_cases m q 17
  have hfine : (10 : ℚ) ^ e * 10 ^ 16 ≤ m * 2 ^ q := by
    have hshift : (10 : ℚ) ^ e * 10 ^ 16 =
        10 ^ leadingExponent (4 * m * (power 2 (q - 2)).1) (power 2 (q - 2)).2 := by
      rw [← zpow_natCast, ← zpow_add₀ (by norm_num), he]
      congr 1
      push_cast
      ring
    rw [hshift]
    exact leading_le hm hr hq
  intro hnone
  rcases h with ⟨hsome, -⟩ | ⟨hsome, -⟩ | ⟨-, hthis, hnext⟩
  · exact Option.some_ne_none _ (hsome.symm.trans hnone)
  · exact Option.some_ne_none _ (hsome.symm.trans hnone)
  · exact (determines_of_near hm hr.1 hlow hhigh hfine).elim hthis hnext

theorem determines_of_withDigits? {m : ℕ} {q : ℤ} {n : ℕ} {d : Digits}
    (h : withDigits? m q n = some d) : Determines d m q := by
  obtain ⟨g, e, -, -, -, ⟨hsome, hd⟩ | ⟨hsome, hd⟩ | ⟨hnone, -⟩⟩ := withDigits?_cases m q n
  · exact Option.some.inj (h.symm.trans hsome) ▸ hd
  · exact Option.some.inj (h.symm.trans hsome) ▸ hd
  · exact absurd (h.symm.trans hnone) (Option.some_ne_none d)

/-! ## Rounding back -/

/-- In a closed interval the mantissa is even. -/
theorem Interval.Holds.lt_of_odd {m : ℕ} {q : ℤ} {t : ℚ} (h : (Interval.around m q).Holds t)
    (hodd : m % 2 = 1) :
    ((Interval.around m q).lower : ℚ) < t ∧ t < (Interval.around m q).upper := by
  have hopen : (Interval.around m q).closed = false := by
    rw [Interval.around]
    exact decide_eq_false (by omega)
  rwa [Interval.Holds, hopen, if_neg Bool.false_ne_true] at h

theorem halfEven_of_holds {m : ℕ} {q : ℤ} {t : ℚ} (hm : 0 < m)
    (h : (Interval.around m q).Holds t) : halfEven (t / 4) = m := by
  have hlower : 4 * (m : ℚ) - 2 ≤ (Interval.around m q).lower := by
    rw [lower_around hm]
    split_ifs <;> linarith
  have hupper := upper_around m q
  obtain ⟨hlow, hhigh⟩ := h.le
  refine halfEven_eq ?_ ?_ fun hodd => ?_
  · push_cast
    linarith
  · push_cast
    linarith
  · obtain ⟨hlow, hhigh⟩ := h.lt_of_odd (by omega)
    push_cast
    constructor <;> linarith

/-- A power of two in quarters of a last place. -/
theorem two_zpow_quarters (k : ℕ) (q : ℤ) :
    (2 : ℚ) ^ ((k : ℤ) + q) = 2 ^ (k + 2) * 2 ^ (q - 2) := by
  rw [← zpow_natCast, ← zpow_add₀ two_ne_zero]
  congr 1
  push_cast
  ring

/-- Below a power of two the last place is half as large, and rounding up carries. -/
theorem magnitude_below_power {q : ℤ} {t : ℚ} (hq : -1074 < q) (hlow : 2 ^ 54 - 1 ≤ t)
    (hhigh : t < 2 ^ 54) : magnitude (t * 2 ^ (q - 2)) = 2 ^ 52 * 2 ^ q := by
  have hunit : (0 : ℚ) < 2 ^ (q - 2) := zpow_pos two_pos _
  have hbelow : t * 2 ^ (q - 2) < 2 ^ (53 + (q - 1)) := by
    have hpower := two_zpow_quarters 52 q
    rw [show 53 + (q - 1) = ((52 : ℕ) : ℤ) + q by push_cast; ring, hpower,
      mul_lt_mul_iff_left₀ hunit]
    exact hhigh
  have habove : 2 ^ (52 + (q - 1)) ≤ t * 2 ^ (q - 2) := by
    have hpower := two_zpow_quarters 51 q
    have hle : (2 : ℚ) ^ 53 ≤ t := by linarith
    rw [show 52 + (q - 1) = ((51 : ℕ) : ℤ) + q by push_cast; ring, hpower,
      mul_le_mul_iff_left₀ hunit]
    exact hle
  have hhalf : t * 2 ^ (q - 2) / 2 ^ (q - 1) = t / 2 := by
    rw [zpow_sub₀ two_ne_zero, zpow_sub₀ two_ne_zero]
    field_simp
  have hround : halfEven (t / 2) = 2 ^ 53 := by
    refine halfEven_eq ?_ ?_ fun hodd => absurd hodd (by norm_num)
    · push_cast
      linarith
    · push_cast
      linarith
  rw [magnitude, place_eq hbelow (by omega) (.inl habove) (by nlinarith), hhalf, hround,
    zpow_sub_one₀ two_ne_zero]
  push_cast
  ring

/-- What lies in the interval is rounded to the double. -/
theorem magnitude_of_holds {m : ℕ} {q : ℤ} {t : ℚ} (hm : 0 < m) (hr : IsRounded m q)
    (h : (Interval.around m q).Holds t) : magnitude (t * 2 ^ (q - 2)) = m * 2 ^ q := by
  obtain ⟨hlt, hle, hfull⟩ := hr
  obtain ⟨hlow, hhigh⟩ := h.le
  have hlower := lower_around hm q
  have hupper := upper_around m q
  have hunit : (0 : ℚ) < 2 ^ (q - 2) := zpow_pos two_pos _
  have hone : (1 : ℚ) ≤ m := by exact_mod_cast hm
  have hpos : 0 < t := by split_ifs at hlower <;> linarith
  have hbelow : t * 2 ^ (q - 2) < 2 ^ (53 + q) := by
    have hcast : (m : ℚ) + 1 ≤ 2 ^ 53 := by exact_mod_cast hlt
    have hpower := two_zpow_quarters 53 q
    push_cast at hpower
    rw [hpower, mul_lt_mul_iff_left₀ hunit]
    linarith
  by_cases hnormal : 2 ^ (52 + q) ≤ t * 2 ^ (q - 2) ∨ q = -1074
  · rw [magnitude, place_eq hbelow hle hnormal (by positivity)]
    have hquarter : t * 2 ^ (q - 2) / 2 ^ q = t / 4 := by
      rw [zpow_sub₀ two_ne_zero]
      field_simp
      norm_num
    rw [hquarter, halfEven_of_holds hm h, Int.cast_natCast]
  · -- only below a power of two is the interval as wide as to leave the last place
    obtain ⟨hless, hsub⟩ := not_or.mp hnormal
    have hhalf : t < 2 ^ 54 := by
      have hpower := two_zpow_quarters 52 q
      push_cast at hpower
      rwa [not_le, hpower, mul_lt_mul_iff_left₀ hunit] at hless
    have hpower : m = 2 ^ 52 := by
      have hge : 2 ^ 52 ≤ m := hfull.resolve_right hsub
      have hcast : (m : ℚ) < 2 ^ 52 + 1 := by split_ifs at hlower <;> linarith
      have : m < 2 ^ 52 + 1 := by exact_mod_cast hcast
      omega
    rw [if_pos ⟨hpower, by omega⟩] at hlower
    have hcast : (m : ℚ) = 2 ^ 52 := by exact_mod_cast hpower
    rw [hcast]
    exact magnitude_below_power (by omega) (by linarith) hhalf

/-- Digits that determine a double are rounded to it. -/
theorem rounded_of_determines {d : Digits} {m : ℕ} {q : ℤ} (hm : 0 < m) (hr : IsRounded m q)
    (hq : q ≤ 971) (h : Determines d m q) : Binary64.rounded d.toRat = m * 2 ^ q := by
  have hunit : (0 : ℚ) < 2 ^ (q - 2) := zpow_pos two_pos _
  obtain ⟨t, ht⟩ : ∃ t : ℚ, d.toRat = t * 2 ^ (q - 2) :=
    ⟨d.toRat / 2 ^ (q - 2), (div_mul_cancel₀ _ hunit.ne').symm⟩
  rw [Determines, ht, mul_div_cancel_right₀ _ hunit.ne'] at h
  have hmagnitude : magnitude d.toRat = m * 2 ^ q := by
    rw [ht]
    exact magnitude_of_holds hm hr h
  have hnonneg : 0 ≤ d.toRat := mul_nonneg (Nat.cast_nonneg _) (zpow_nonneg (by norm_num) _)
  rw [rounded_eq_magnitude hnonneg, hmagnitude, min_eq_left (dyadic_lt_beyond hr hq).le]

/-! ## The digits that are written -/

@[simp] theorem toRat_trim (d : Digits) : d.trim.toRat = d.toRat := by
  fun_induction Digits.trim d with
  | case1 d h ih =>
    rw [ih, Digits.toRat, Digits.toRat, zpow_add_one₀ (by norm_num)]
    have hten : (d.coefficient : ℚ) = (d.coefficient / 10 : ℕ) * 10 := by
      exact_mod_cast (Nat.div_mul_cancel (Nat.dvd_of_mod_eq_zero h.2)).symm
    rw [hten]
    ring
  | case2 d h => rfl

/-- The digits that are written for a double are rounded to it. -/
theorem rounded_shortest {m : ℕ} {q : ℤ} (hm : 0 < m) (hr : IsRounded m q) (hq : q ≤ 971) :
    Binary64.rounded (shortest m q).toRat = m * 2 ^ q := by
  rw [shortest, if_neg hm.ne']
  split
  next d hd =>
    obtain ⟨n, -, hn⟩ := List.exists_of_findSome?_eq_some hd
    rw [toRat_trim]
    exact rounded_of_determines hm hr hq (determines_of_withDigits? hn)
  next hnone =>
    rw [List.findSome?_eq_none_iff] at hnone
    exact absurd (hnone 16 (by decide)) (withDigits?_seventeen hm hr hq)

end StepTone.Decimal
