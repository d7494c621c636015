/-
StepTone.Proofs.RealReading — written numbers are read back.

A finite double that is written without an exponent is read as itself, and an integer that
is written in decimal is read as itself or, where a double is asked for, as the nearest one.
Between the two texts stands the number that digits with a point mean: reading finds it, and
the double depends on nothing else.

* `Means` — digits with a point mean a number.
* `means_positional` — digits laid out positionally mean their number.
* `scaledByTen_eq` — a decimal that is rounded to a double is read as it.
* `real_plain` — a finite double is read back.
* `real_int`, `decimal_int` — an integer is read as the nearest double, or as itself.
-/
import Mathlib
import StepTone.Decimal.Notation
import StepTone.Numeral.Real
import StepTone.Proofs.NumeralReading
import StepTone.Proofs.PositiveDoubles
import StepTone.Proofs.ShortestDigits

namespace StepTone.Numeral

open Binary64 (beyond_cast beyond_pos dyadic_lt_beyond halfEven halfEven_eq isFinite
  isRounded_of_value magnitude nearest nearest_eq nearest_zero place place_eq rounded
  rounded_eq_magnitude two_zpow_le_rounded value)
open Decimal (Digits positional power_eq power_pos)

/-! ## Runs of digits -/

theorem isDigit_iff {c : Char} : c.isDigit = true ↔ '0' ≤ c ∧ c ≤ '9' := by
  simp [Char.isDigit, Char.le_def]

theorem digitIn?_of_isDigit {c : Char} (h : c.isDigit = true) :
    digitIn? 10 c = some (c.toNat - '0'.toNat) := by
  have hrange : '0' ≤ c ∧ c ≤ '9' := isDigit_iff.mp h
  have hlt : c.toNat - '0'.toNat < 10 := by
    have : c.toNat ≤ '9'.toNat := hrange.2
    simp at this ⊢
    omega
  rw [digitIn?, digit?, if_pos hrange, Option.filter_some, if_pos (by simpa using hlt)]

/-- What is known after a run of digits. -/
def Mantissa.after (m : Mantissa) (digits : List Char) : Mantissa :=
  { m with digits := Nat.ofDigitChars 10 digits m.digits
           places := if m.point then m.places + digits.length else m.places
           any := m.any || !digits.isEmpty }

theorem mantissaFrom_digits {digits : List Char} (h : ∀ c ∈ digits, c.isDigit = true)
    (m : Mantissa) (rest : List Char) :
    mantissaFrom 10 m (digits ++ rest) = mantissaFrom 10 (m.after digits) rest := by
  induction digits generalizing m with
  | nil => cases m; simp [Mantissa.after]
  | cons c digits ih =>
    obtain ⟨hc, hdigits⟩ := List.forall_mem_cons.mp h
    rw [List.cons_append, mantissaFrom, digitIn?_of_isDigit hc]
    simp only
    rw [ih hdigits]
    congr 1
    cases m with
    | mk n places point any underscore =>
      cases point <;> simp [Mantissa.after, Nat.ofDigitChars_cons, mul_comm]
      omega

/-- Digits, at most one point between them, mean a number. -/
def Means (text : List Char) (r : ℚ) : Prop :=
  ∃ m : Mantissa, mantissaFrom 10 {} text = (m, []) ∧ m.any = true ∧ m.underscore = false ∧
    (m.digits : ℚ) * 10 ^ (-(m.places : ℤ)) = r

theorem means_digits {digits : List Char} (h : ∀ c ∈ digits, c.isDigit = true) (hne : digits ≠ []) :
    Means digits (Nat.ofDigitChars 10 digits 0 : ℕ) := by
  refine ⟨Mantissa.after {} digits, ?_, ?_, rfl, ?_⟩
  · have hread := mantissaFrom_digits h {} []
    rwa [List.append_nil] at hread
  · simpa [Mantissa.after] using hne
  · simp [Mantissa.after]

theorem means_pointed {before behind : List Char} (h : ∀ c ∈ before, c.isDigit = true)
    (hbehind : ∀ c ∈ behind, c.isDigit = true) (hne : before ≠ []) :
    Means (before ++ '.' :: behind)
      ((Nat.ofDigitChars 10 (before ++ behind) 0 : ℕ) * 10 ^ (-(behind.length : ℤ))) := by
  refine ⟨Mantissa.after { Mantissa.after {} before with point := true } behind, ?_, ?_, rfl, ?_⟩
  · have hpoint : digitIn? 10 '.' = none := by decide
    have hread := mantissaFrom_digits hbehind { Mantissa.after {} before with point := true } []
    rw [List.append_nil] at hread
    rw [mantissaFrom_digits h, mantissaFrom, hpoint]
    exact hread
  · simp [Mantissa.after, hne]
  · simp [Mantissa.after, Nat.ofDigitChars_append]

theorem isDigit_of_mem_zeros {k : ℕ} {c : Char} (h : c ∈ List.replicate k '0') :
    c.isDigit = true := by
  rw [List.eq_of_mem_replicate h]
  decide

/-- Digits that are laid out positionally mean their number. -/
theorem means_positional {digits : List Char} (h : ∀ c ∈ digits, c.isDigit = true)
    (hne : digits ≠ []) (leading : ℤ) :
    Means (positional digits leading)
      ((Nat.ofDigitChars 10 digits 0 : ℕ) * 10 ^ (leading + 1 - digits.length)) := by
  cases leading with
  | ofNat k =>
    rw [positional]
    split_ifs with hlen
    · have hzeros : ∀ c ∈ digits ++ List.replicate (k + 1 - digits.length) '0', c.isDigit = true :=
        fun c hc => (List.mem_append.mp hc).elim (h c) isDigit_of_mem_zeros
      have hmeans := means_digits hzeros (List.append_ne_nil_of_left_ne_nil hne _)
      rw [Nat.ofDigitChars_append, Nat.ofDigitChars_replicate_zero] at hmeans
      have hexponent : (Int.ofNat k + 1 - digits.length : ℤ) =
          ((k + 1 - digits.length : ℕ) : ℤ) := by
        simp only [Int.ofNat_eq_natCast]
        omega
      rw [hexponent, zpow_natCast, mul_comm]
      exact_mod_cast hmeans
    · have hfront : digits.take (k + 1) ≠ [] := by simp [hne]
      have hmeans := means_pointed (fun c hc => h c (List.mem_of_mem_take hc))
        (fun c hc => h c (List.mem_of_mem_drop (i := k + 1) hc)) hfront
      rw [List.take_append_drop, List.length_drop] at hmeans
      have hexponent : (Int.ofNat k + 1 - digits.length : ℤ) =
          -((digits.length - (k + 1) : ℕ) : ℤ) := by
        simp only [Int.ofNat_eq_natCast]
        omega
      rw [hexponent]
      exact hmeans
  | negSucc k =>
    have hzeros : ∀ c ∈ List.replicate k '0' ++ digits, c.isDigit = true :=
      fun c hc => (List.mem_append.mp hc).elim isDigit_of_mem_zeros (h c)
    have hzero : ∀ c ∈ ['0'], c.isDigit = true := List.forall_mem_singleton.mpr rfl
    have hmeans := means_pointed hzero hzeros (List.cons_ne_nil _ _)
    have hvalue : Nat.ofDigitChars 10 (['0'] ++ (List.replicate k '0' ++ digits)) 0 =
        Nat.ofDigitChars 10 digits 0 := by
      rw [← List.append_assoc, Nat.ofDigitChars_append, ← List.replicate_one,
        ← List.replicate_add, Nat.ofDigitChars_replicate_zero, mul_zero]
    have hexponent : (Int.negSucc k + 1 - digits.length : ℤ) =
        -((List.replicate k '0' ++ digits).length : ℤ) := by
      rw [List.length_append, List.length_replicate, Int.negSucc_eq]
      push_cast
      ring
    rw [hvalue, ← hexponent] at hmeans
    exact hmeans

/-! ## Scaling -/

/-- The length of its digits bounds a decimal from above. -/
theorem decimal_lt (n : ℕ) (e : ℤ) : (n : ℚ) * 10 ^ e < 10 ^ (e + (Nat.toDigits 10 n).length) := by
  have hlen : n < 10 ^ (Nat.toDigits 10 n).length :=
    (Nat.length_toDigits_le_iff (by norm_num) Nat.length_toDigits_pos).mp le_rfl
  rw [zpow_add₀ (by norm_num), mul_comm, zpow_natCast]
  exact mul_lt_mul_of_pos_left (by exact_mod_cast hlen) (zpow_pos (by norm_num) e)

/-- And from below. -/
theorem le_decimal {n : ℕ} (h : 0 < n) (e : ℤ) :
    (10 : ℚ) ^ (e + (Nat.toDigits 10 n).length - 1) ≤ n * 10 ^ e := by
  obtain ⟨k, hk⟩ := Nat.exists_eq_add_one.mpr (Nat.length_toDigits_pos (b := 10) (n := n))
  have hlen : 10 ^ k ≤ n := by
    by_contra hlt
    rcases Nat.eq_zero_or_pos k with rfl | hpos
    · omega
    · have := (Nat.length_toDigits_le_iff (b := 10) (by norm_num) hpos).mpr (not_le.mp hlt)
      omega
  rw [hk, Nat.cast_add, Nat.cast_one, ← add_assoc, add_sub_cancel_right, zpow_add₀ (by norm_num),
    mul_comm, zpow_natCast]
  exact mul_le_mul_of_nonneg_right (by exact_mod_cast hlen) (zpow_nonneg (by norm_num) e)

theorem ten_zpow_le_two_zpow : (10 : ℚ) ^ (-330 : ℤ) ≤ 2 ^ (-1075 : ℤ) := by
  have hpow : (2 : ℕ) ^ 1075 ≤ 10 ^ 330 := by decide +kernel
  rw [zpow_neg, zpow_neg]
  exact inv_anti₀ (zpow_pos two_pos _) (by exact_mod_cast hpow)

theorem two_zpow_le_ten_zpow : (2 : ℚ) ^ (1024 : ℤ) ≤ 10 ^ (310 : ℤ) := by
  have hpow : (2 : ℕ) ^ 1024 ≤ 10 ^ 310 := by decide +kernel
  exact_mod_cast hpow

/-- Less than half of the least double is rounded to zero. -/
theorem rounded_of_small {r : ℚ} (hnonneg : 0 ≤ r) (h : r < 2 ^ (-1075 : ℤ)) : rounded r = 0 := by
  rcases hnonneg.eq_or_lt with rfl | hpos
  · simp
  · have hplace : place r = -1074 :=
      place_eq (h.trans (zpow_lt_zpow_right₀ (by norm_num) (by norm_num))) le_rfl (.inr rfl) hpos
    have hunit : (0 : ℚ) < 2 ^ (-1074 : ℤ) := zpow_pos two_pos _
    have hhalf : (2 : ℚ) ^ (-1075 : ℤ) = 1 / 2 * 2 ^ (-1074 : ℤ) := by
      rw [show (-1075 : ℤ) = -1074 - 1 by norm_num, zpow_sub_one₀ two_ne_zero,
        mul_comm, one_div]
    have hround : halfEven (r / 2 ^ (-1074 : ℤ)) = 0 := by
      have hlow : 0 ≤ r / 2 ^ (-1074 : ℤ) := div_nonneg hnonneg hunit.le
      have hhigh : r / 2 ^ (-1074 : ℤ) < 1 / 2 := by
        rwa [div_lt_iff₀ hunit, ← hhalf]
      generalize r / 2 ^ (-1074 : ℤ) = t at hlow hhigh ⊢
      refine halfEven_eq ?_ ?_ fun hodd => absurd hodd (by norm_num)
      · push_cast
        linarith
      · push_cast
        linarith
    rw [rounded_eq_magnitude hnonneg, magnitude, hplace, hround, Int.cast_zero, zero_mul,
      min_eq_left beyond_pos.le]

/-- A decimal that is rounded to what a finite double stands for is read as this double, also
where nothing is multiplied out. -/
theorem scaledByTen_eq {x : Float} {negative : Bool} {m : ℕ} {q : ℤ}
    (hx : value x = .finite negative m q) {n : ℕ} {e : ℤ}
    (h : rounded (n * 10 ^ e) = m * 2 ^ q) : scaledByTen negative n e = x := by
  obtain ⟨hr, hq⟩ := isRounded_of_value hx
  have hnonneg : (0 : ℚ) ≤ n * 10 ^ e :=
    mul_nonneg n.cast_nonneg (zpow_nonneg (by norm_num) e)
  rw [scaledByTen]
  simp only
  split_ifs with hsmall hlarge
  · have hzero : rounded ((n : ℚ) * 10 ^ e) = 0 := by
      rcases hsmall with rfl | hsmall
      · simp
      · refine rounded_of_small hnonneg ?_
        calc (n : ℚ) * 10 ^ e < 10 ^ (e + (Nat.toDigits 10 n).length) := decimal_lt n e
          _ ≤ 10 ^ (-330 : ℤ) := zpow_le_zpow_right₀ (by norm_num) hsmall.le
          _ ≤ 2 ^ (-1075 : ℤ) := ten_zpow_le_two_zpow
    rw [hzero, eq_comm, mul_eq_zero] at h
    have hm : m = 0 := by exact_mod_cast h.resolve_right (zpow_pos two_pos q).ne'
    subst hm
    exact nearest_zero hx 1
  · -- so large a number is not rounded to a finite double
    have hbig : (2 : ℚ) ^ (1024 : ℤ) ≤ n * 10 ^ e :=
      calc (2 : ℚ) ^ (1024 : ℤ) ≤ 10 ^ (310 : ℤ) := two_zpow_le_ten_zpow
        _ ≤ 10 ^ (e + (Nat.toDigits 10 n).length - 1) :=
            zpow_le_zpow_right₀ (by norm_num) (by omega)
        _ ≤ n * 10 ^ e := le_decimal (by omega) e
    have hround := two_zpow_le_rounded (by norm_num) le_rfl hbig
    rw [h, ← beyond_cast] at hround
    exact absurd (dyadic_lt_beyond hr hq) hround.not_gt
  · obtain ⟨hnum, hden⟩ := power_pos (b := 10) (by norm_num) e
    have hpower := power_eq 10 e
    push_cast at hpower
    refine nearest_eq hx (Nat.mul_pos (by omega) hnum) hden ?_
    rw [Nat.cast_mul, mul_div_assoc, hpower]
    exact h

/-! ## Signs and words -/

/-- A minus in front of a text if it is negative. -/
def signedText (negative : Bool) (text : List Char) : List Char :=
  if negative then '-' :: text else text

theorem splitSign_signedText (negative : Bool) {c : Char} (h : c.isDigit = true)
    (rest : List Char) :
    splitSign (signedText negative (c :: rest)) = (negative, c :: rest) := by
  cases negative with
  | true => rfl
  | false => exact splitSign_of_digit h

theorem toLower_of_isDigit {c : Char} (h : c.isDigit = true) : c.toLower = c := by
  refine Char.toLower_eq_of_not_isUpper fun hupper => ?_
  have hdigit : c.val ≤ '9'.val := (isDigit_iff.mp h).2
  have hletter : 'A'.val ≤ c.val := (of_decide_eq_true hupper).1
  exact absurd (UInt32.le_trans hletter hdigit) (by decide)

/-- What starts with a digit, or with a minus and a digit, is no word. -/
theorem word?_signedText (negative : Bool) {c : Char} (h : c.isDigit = true) (rest : List Char) :
    word? (signedText negative (c :: rest)) = none := by
  have hlower : (signedText negative (c :: rest)).map Char.toLower =
      signedText negative (c :: rest.map Char.toLower) := by
    cases negative <;> simp [signedText, toLower_of_isDigit h]
  have hletter : ∀ {d : Char}, d.isDigit = false → c ≠ d := by
    rintro d hd rfl
    exact Bool.false_ne_true (hd.symm.trans h)
  have hnan : signedText negative (c :: rest.map Char.toLower) ≠ "nan".toList := by
    cases negative with
    | true => exact fun heq => absurd (List.cons.inj heq).1 (by decide)
    | false => exact fun heq => hletter (by decide) (List.cons.inj heq).1
  have hinf : ¬(c :: rest.map Char.toLower = "inf".toList ∨
      c :: rest.map Char.toLower = "infinity".toList) := by
    rintro (heq | heq) <;> exact hletter (by decide) (List.cons.inj heq).1
  rw [word?]
  simp only [hlower, splitSign_signedText negative h, if_neg hnan, if_neg hinf]

/-- A numeral of digits and points is read as a decimal. -/
theorem real_signedText {text : String} {negative : Bool} {c : Char} {rest : List Char}
    (htext : text.toList = signedText negative (c :: rest)) (hc : c.isDigit = true)
    (hrest : ∀ d ∈ rest, d.isDigit = true ∨ d = '.') :
    real text = decimalReal negative (c :: rest) := by
  rw [real, htext, word?_signedText negative hc, splitSign_signedText negative hc]
  simp only
  split
  next mark d tail heq =>
    obtain ⟨rfl, rfl⟩ := List.cons.inj heq
    have hmark : mark.toLower ≠ 'x' := by
      rcases hrest mark List.mem_cons_self with hdigit | rfl
      · rw [toLower_of_isDigit hdigit]
        rintro rfl
        exact absurd hdigit (by decide)
      · decide
    rw [if_neg hmark]
  next => rfl

/-! ## Doubles -/

/-- A decimal without a sign is read as the double that it is rounded to. -/
theorem decimalReal_eq {x : Float} {negative : Bool} {m : ℕ} {q : ℤ}
    (hx : value x = .finite negative m q) {text : List Char} {r : ℚ} (h : Means text r)
    (hr : rounded r = m * 2 ^ q) : decimalReal negative text = .ok x := by
  obtain ⟨mantissa, hread, hany, hunderscore, rfl⟩ := h
  have hfinite : isFinite x = true := by rw [isFinite, hx]
  rw [decimalReal, hread]
  simp only [hany, hunderscore, Bool.true_eq_false, Bool.false_and, Bool.false_eq_true, if_false]
  rw [scaledByTen_eq hx hr, inRange, if_pos hfinite]

theorem isDigit_of_mem_toDigits {n : ℕ} : ∀ c ∈ Nat.toDigits 10 n, c.isDigit = true :=
  fun _ hc => Nat.isDigit_of_mem_toDigits (by norm_num) (by norm_num) hc

/-- Digits laid out positionally start with a digit, and digits and points follow. -/
theorem positional_shape {digits : List Char} (h : ∀ c ∈ digits, c.isDigit = true)
    (hne : digits ≠ []) (leading : ℤ) :
    ∃ c rest, positional digits leading = c :: rest ∧ c.isDigit = true ∧
      ∀ d ∈ rest, d.isDigit = true ∨ d = '.' := by
  cases leading with
  | ofNat k =>
    obtain ⟨c, digits, rfl⟩ := List.exists_cons_of_ne_nil hne
    obtain ⟨hc, hdigits⟩ := List.forall_mem_cons.mp h
    rw [positional]
    split_ifs with hlen
    · refine ⟨c, _, rfl, hc, fun d hd => .inl ?_⟩
      exact (List.mem_append.mp hd).elim (hdigits d) isDigit_of_mem_zeros
    · refine ⟨c, _, rfl, hc, fun d hd => ?_⟩
      rcases List.mem_append.mp hd with hd | hd
      · exact .inl (hdigits d (List.mem_of_mem_take hd))
      · rcases List.mem_cons.mp hd with rfl | hd
        · exact .inr rfl
        · exact .inl (hdigits d (List.mem_of_mem_drop hd))
  | negSucc k =>
    refine ⟨'0', _, rfl, by decide, fun d hd => ?_⟩
    rcases List.mem_cons.mp hd with rfl | hd
    · exact .inr rfl
    · exact .inl ((List.mem_append.mp hd).elim isDigit_of_mem_zeros (h d))

theorem rounded_shortest_of_value {x : Float} {negative : Bool} {m : ℕ} {q : ℤ}
    (hx : value x = .finite negative m q) : rounded (Decimal.shortest m q).toRat = m * 2 ^ q := by
  obtain ⟨hr, hq⟩ := isRounded_of_value hx
  rcases Nat.eq_zero_or_pos m with rfl | hm
  · simp [Decimal.shortest, Digits.toRat]
  · exact Decimal.rounded_shortest hm hr hq

/-- A finite double that is written without an exponent is read back. -/
theorem real_plain {x : Float} (h : isFinite x = true) : real (Decimal.plain x) = .ok x := by
  cases hx : value x with
  | nan => simp [isFinite, hx] at h
  | infinite negative => simp [isFinite, hx] at h
  | finite negative m q =>
    set d := Decimal.shortest m q with hd
    have hdigits : ∀ c ∈ d.chars, c.isDigit = true := isDigit_of_mem_toDigits
    have hmeans := means_positional hdigits Nat.toDigits_ne_nil d.leading
    have hvalue : (Nat.ofDigitChars 10 d.chars 0 : ℚ) * 10 ^ (d.leading + 1 - d.chars.length) =
        d.toRat := by
      rw [Digits.chars, Nat.ofDigitChars_toDigits (by norm_num) (by norm_num), Digits.toRat,
        Digits.leading, Digits.chars]
      congr 2
      ring
    rw [hvalue] at hmeans
    obtain ⟨c, rest, hshape, hc, hrest⟩ := positional_shape hdigits Nat.toDigits_ne_nil d.leading
    have htext : (Decimal.plain x).toList = signedText negative (c :: rest) := by
      rw [Decimal.plain, Decimal.write, hx, ← hshape]
      simp [signedText, hd]
    rw [real_signedText htext hc hrest, ← hshape]
    exact decimalReal_eq hx hmeans (rounded_shortest_of_value hx)

/-! ## Integers -/

theorem toList_toString_int (n : ℤ) :
    (toString n).toList = signedText (decide (n < 0)) (Nat.toDigits 10 n.natAbs) := by
  cases n with
  | ofNat k =>
    rw [decide_eq_false (by simp)]
    exact Nat.toList_repr
  | negSucc k =>
    rw [decide_eq_true (Int.negSucc_lt_zero k),
      show toString (Int.negSucc k) = "-" ++ toString (k + 1) from rfl, String.toList_append]
    exact congrArg _ Nat.toList_repr

theorem one_le_rounded {n : ℕ} (h : 0 < n) : 1 ≤ rounded (n : ℚ) := by
  have hone : (2 : ℚ) ^ (0 : ℤ) ≤ n := by
    rw [zpow_zero]
    exact_mod_cast h
  simpa using two_zpow_le_rounded (by norm_num) (by norm_num) hone

theorem value_ofInt_zero : value (Float.ofInt 0) = .finite false 0 (-1074) := by
  decide

theorem isFinite_ofInt (n : Int64) : isFinite (Float.ofInt n.toInt) = true := by
  have hlow : -(2 : ℚ) ^ (63 : ℤ) ≤ n.toInt := by exact_mod_cast n.le_toInt
  have hhigh : (n.toInt : ℚ) ≤ 2 ^ (63 : ℤ) := by exact_mod_cast n.toInt_lt.le
  have hbound := Binary64.abs_rounded_le (by norm_num) (by norm_num) (abs_le.mpr ⟨hlow, hhigh⟩)
  exact (Binary64.denotes_ofInt n.toInt).isFinite
    (hbound.trans_lt (Binary64.two_zpow_lt_beyond (by norm_num)))

/-- An integer is rounded like its magnitude. -/
theorem rounded_int (n : ℤ) :
    rounded (n : ℚ) = Binary64.withSign (decide (n < 0)) (rounded (n.natAbs : ℚ)) := by
  rw [Nat.cast_natAbs]
  rcases lt_or_ge n 0 with hneg | hnonneg
  · rw [decide_eq_true hneg, abs_of_neg hneg, Int.cast_neg, Binary64.rounded_neg,
      Binary64.withSign_true, neg_neg]
  · rw [decide_eq_false hnonneg.not_gt, abs_of_nonneg hnonneg, Binary64.withSign_false]

/-- A number other than zero has one sign and one magnitude. -/
theorem withSign_unique {b b' : Bool} {p r : ℚ} (hp : 0 ≤ p) (hr : 0 < r)
    (h : Binary64.withSign b p = Binary64.withSign b' r) : b = b' ∧ p = r := by
  cases b <;> cases b' <;> simp only [Binary64.withSign_true, Binary64.withSign_false] at h
  · exact ⟨rfl, h⟩
  · linarith
  · linarith
  · exact ⟨rfl, neg_injective h⟩

/-- The sign and the magnitude of the double nearest to an integer. -/
theorem value_ofInt {n : ℤ} (h : isFinite (Float.ofInt n) = true) :
    ∃ m q, value (Float.ofInt n) = .finite (decide (n < 0)) m q ∧
      rounded (n.natAbs : ℚ) = m * 2 ^ q := by
  cases hx : value (Float.ofInt n) with
  | nan => simp [isFinite, hx] at h
  | infinite negative => simp [isFinite, hx] at h
  | finite negative m q =>
    rcases eq_or_ne n 0 with rfl | hne
    · rw [value_ofInt_zero] at hx
      obtain ⟨rfl, rfl, rfl⟩ := Binary64.Value.finite.inj hx
      exact ⟨0, _, rfl, by simp⟩
    · have hnonneg : (0 : ℚ) ≤ m * 2 ^ q :=
        mul_nonneg m.cast_nonneg (zpow_nonneg (by norm_num) q)
      have hpos : 0 < rounded (n.natAbs : ℚ) :=
        one_pos.trans_le (one_le_rounded (Int.natAbs_pos.mpr hne))
      have hsigned : Binary64.withSign negative (m * 2 ^ q) =
          Binary64.withSign (decide (n < 0)) (rounded (n.natAbs : ℚ)) := by
        rw [← rounded_int, ← (Binary64.denotes_ofInt n).toRat_eq, Binary64.toRat, hx]
        rfl
      obtain ⟨rfl, hvalue⟩ := withSign_unique hnonneg hpos hsigned
      exact ⟨m, q, rfl, hvalue.symm⟩

/-- An integer in decimal is read as the nearest double. -/
theorem real_int (n : Int64) : real (toString n.toInt) = .ok (Float.ofInt n.toInt) := by
  obtain ⟨m, q, hx, hr⟩ := value_ofInt (isFinite_ofInt n)
  have hdigits := isDigit_of_mem_toDigits (n := n.toInt.natAbs)
  have hmeans := means_digits hdigits Nat.toDigits_ne_nil
  rw [Nat.ofDigitChars_toDigits (by norm_num) (by norm_num)] at hmeans
  have htext := toList_toString_int n.toInt
  cases hlist : Nat.toDigits 10 n.toInt.natAbs with
  | nil => exact absurd hlist Nat.toDigits_ne_nil
  | cons c rest =>
    rw [hlist] at htext hdigits hmeans
    obtain ⟨hc, hrest⟩ := List.forall_mem_cons.mp hdigits
    rw [real_signedText htext hc fun d hd => .inl (hrest d hd)]
    exact decimalReal_eq hx hmeans hr

theorem withSign_natAbs (n : Int64) :
    withSign (decide (n.toInt < 0)) n.toInt.natAbs = .ok n := by
  have hlow := n.le_toInt
  have hhigh := n.toInt_lt
  rcases lt_or_ge n.toInt 0 with hneg | hnonneg
  · have hfit : n.toInt.natAbs ≤ Nat.pow 2 63 := by
      rw [Nat.pow_eq]
      omega
    rw [decide_eq_true hneg, withSign, if_pos rfl, if_pos hfit, Int.ofNat_natAbs_of_nonpos hneg.le,
      neg_neg, Int64.ofInt_toInt]
  · have hfit : n.toInt.natAbs < Nat.pow 2 63 := by
      rw [Nat.pow_eq]
      omega
    rw [decide_eq_false hnonneg.not_gt, withSign, if_neg Bool.false_ne_true, if_pos hfit,
      Int.natAbs_of_nonneg hnonneg, Int64.ofInt_toInt]

/-- An integer in decimal is read back. -/
theorem decimal_int (n : Int64) : decimal (toString n.toInt) = .ok n := by
  have hlow := n.le_toInt
  have hhigh := n.toInt_lt
  have hread : magnitudeFrom 10 false 0 ((Nat.toDigits 10 n.toInt.natAbs).map id) =
      .ok n.toInt.natAbs :=
    magnitudeFrom_toDigits (by norm_num) (fun d => counts_decimal) _ (by omega)
  rw [List.map_id] at hread
  have hdigits := isDigit_of_mem_toDigits (n := n.toInt.natAbs)
  rw [decimal, toList_toString_int]
  cases hlist : Nat.toDigits 10 n.toInt.natAbs with
  | nil => exact absurd hlist Nat.toDigits_ne_nil
  | cons c rest =>
    rw [hlist] at hread hdigits
    rw [splitSign_signedText _ (hdigits c List.mem_cons_self)]
    simp only [List.isEmpty_cons, Bool.false_eq_true, if_false, hread, Except.bind]
    exact withSign_natAbs n

end StepTone.Numeral
