/-
StepTone.Proofs.FirmwareBounds — constants that have bounds.

`Constants.bounds` looks at words and answers with doubles. On the side of the words, its
two quotients decide whether the cycles of the longest period fit a word, and where they
do, no product that it computes wraps. On the side of the doubles, the limits that it
returns are positive numbers, far away from both ends of the range.

* `Constants.Sound` — positive constants whose longest period fits a word.
* `overflows_iff` — the two quotients test the longest period.
* `bounds_eq_ok_iff` — the constants that have bounds, and the bounds they have.
* `within_tMin`, `within_fMin` … — powers of two around the limits of period and frequency.
-/
import StepTone.Firmware.Bounds
import StepTone.Proofs.PositiveDoubles

namespace StepTone.Firmware.Constants

open Arithmetic (ofInt ofWord)

/-! ## Words -/

/-- The constants that a table depends on are positive. -/
def Positive (c : Constants) : Prop :=
  ∀ k ∈ Constant.ofTable, 0 < (c.get k).toInt

namespace Positive

variable {c : Constants}

theorem clock (h : c.Positive) : 0 < c.clockHz.toInt := h .clockHz (by decide)

theorem move (h : c.Positive) : 0 < c.moveCycles.toInt := h .moveCycles (by decide)

theorem halt (h : c.Positive) : 0 < c.haltCycles.toInt := h .haltCycles (by decide)

theorem moves (h : c.Positive) : 0 < c.freqLoopMoves.toInt := h .freqLoopMoves (by decide)

end Positive

theorem firstNonPositive_eq_none_iff {c : Constants} :
    c.firstNonPositive = none ↔ c.Positive := by
  rw [firstNonPositive, List.find?_eq_none]
  refine forall₂_congr fun k _ => ?_
  rw [decide_eq_true_iff, Int64.le_iff_toInt_le, Int64.toInt_zero, not_le]

/-- Cycles of one pass of the frequency loop, as an integer. -/
def loopLength (c : Constants) : ℤ :=
  c.freqLoopMoves.toInt * c.moveCycles.toInt

/-- Cycles of the longest period, as an integer. -/
def longestPeriod (c : Constants) : ℤ :=
  c.loopLength + 256 * c.haltCycles.toInt

theorem Positive.loopLength_pos {c : Constants} (h : c.Positive) : 0 < c.loopLength :=
  mul_pos h.moves h.move

/-- A product of words that is not negative is kept exactly where it fits a word. -/
theorem toInt_mul_eq_iff {m n : Int64} (h : 0 ≤ m.toInt * n.toInt) :
    (m * n).toInt = m.toInt * n.toInt ↔ m.toInt * n.toInt < 2 ^ 63 := by
  constructor
  · intro hexact
    rw [← hexact]
    exact (m * n).toInt_lt
  · intro hfit
    rw [Int64.toInt_mul]
    exact Int.bmod_eq_of_le (by omega) (by omega)

theorem loopCycles_toInt {c : Constants} (hpos : 0 ≤ c.loopLength)
    (hfit : c.loopLength < 2 ^ 63) : c.loopCycles.toInt = c.loopLength :=
  (toInt_mul_eq_iff hpos).mpr hfit

/-- The quotient of the largest word tests a product without computing it. -/
theorem maxValue_div_lt_iff {m n : Int64} (hm : 0 < m.toInt) :
    Int64.maxValue / m < n ↔ 2 ^ 63 ≤ n.toInt * m.toInt := by
  rw [Int64.lt_iff_toInt_lt, Int64.toInt_div_of_ne_left _ _ (by decide), Int64.toInt_maxValue,
    Int.tdiv_eq_ediv_of_nonneg (by norm_num), Int.ediv_lt_iff_lt_mul hm]
  omega

/-- What is left of the largest word, in parts of 256. -/
theorem maxValue_sub_div_lt_iff {l n : Int64} (hl : 0 ≤ l.toInt) :
    (Int64.maxValue - l) / 256 < n ↔ 2 ^ 63 ≤ l.toInt + 256 * n.toInt := by
  have hbound := l.toInt_lt
  have hrest : (Int64.maxValue - l).toInt = 2 ^ 63 - 1 - l.toInt := by
    rw [Int64.toInt_sub, Int64.toInt_maxValue]
    exact Int.bmod_eq_of_le (by omega) (by omega)
  rw [Int64.lt_iff_toInt_lt, Int64.toInt_div_of_ne_right _ _ (by decide), hrest,
    Int.tdiv_eq_ediv_of_nonneg (by omega)]
  change (2 ^ 63 - 1 - l.toInt) / 256 < n.toInt ↔ _
  omega

/-- The cycles of the longest period do not fit a word exactly where `overflows` says so. -/
theorem overflows_iff {c : Constants} (h : c.Positive) :
    c.overflows = true ↔ 2 ^ 63 ≤ c.longestPeriod := by
  have hloop := h.loopLength_pos
  rw [overflows, Bool.or_eq_true, decide_eq_true_iff, decide_eq_true_iff,
    maxValue_div_lt_iff h.move, longestPeriod]
  change 2 ^ 63 ≤ c.loopLength ∨ _ ↔ _
  by_cases hfit : c.loopLength < 2 ^ 63
  · have hexact := loopCycles_toInt hloop.le hfit
    rw [maxValue_sub_div_lt_iff (by omega), hexact]
    omega
  · -- a loop that does not fit a word leaves nothing to be said about the halts
    have := h.halt
    constructor
    · intro _
      omega
    · intro _
      exact .inl (by omega)

/-- Positive constants whose longest period fits a word. -/
structure Sound (c : Constants) : Prop where
  positive : c.Positive
  fits : c.longestPeriod < 2 ^ 63

namespace Sound

variable {c : Constants}

theorem loopCycles_eq (h : c.Sound) : c.loopCycles.toInt = c.loopLength := by
  have hhalt := h.positive.halt
  have hfits := h.fits
  rw [longestPeriod] at hfits
  exact loopCycles_toInt h.positive.loopLength_pos.le (by omega)

theorem loopCycles_pos (h : c.Sound) : 0 < c.loopCycles.toInt := by
  rw [h.loopCycles_eq]
  exact h.positive.loopLength_pos

end Sound

section

variable {F : Type} [Arithmetic F] {c : Constants}

theorem bounds_of_nonPositive {k : Constant} (h : c.firstNonPositive = some k) :
    (c.bounds : Except (BoundsFault F) (Bounds F)) = .error (.nonPositive k (c.get k)) := by
  rw [bounds, validate, h]
  rfl

theorem bounds_of_positive (h : c.Positive) :
    (c.bounds : Except (BoundsFault F) (Bounds F)) =
      if 2 ^ 63 ≤ c.longestPeriod then .error (.cycleOverflow c)
      else if ofInt 1 < (c.limits : Bounds F).ratio then .ok c.limits
      else .error (.degenerate (c.limits : Bounds F).fMin (c.limits : Bounds F).fMax) := by
  rw [bounds, validate, firstNonPositive_eq_none_iff.mpr h]
  simp only [← overflows_iff h]
  by_cases hover : c.overflows = true
  · simp only [hover, if_true]
    rfl
  · simp only [hover]
    rfl

/-- Constants have bounds where they are sound and the frequencies spread; the bounds are
then the limits. -/
theorem bounds_eq_ok_iff {b : Bounds F} :
    c.bounds = .ok b ↔ c.Sound ∧ ofInt 1 < (c.limits : Bounds F).ratio ∧ b = c.limits := by
  cases hfirst : c.firstNonPositive with
  | some k =>
    have hpos : ¬ c.Positive := by
      rw [← firstNonPositive_eq_none_iff, hfirst]
      nofun
    rw [bounds_of_nonPositive hfirst]
    exact iff_of_false nofun fun h => hpos h.1.positive
  | none =>
    have hpos := firstNonPositive_eq_none_iff.mp hfirst
    rw [bounds_of_positive hpos]
    by_cases hover : 2 ^ 63 ≤ c.longestPeriod
    · rw [if_pos hover]
      exact iff_of_false nofun fun h => h.1.fits.not_ge hover
    · have hsound : c.Sound := ⟨hpos, not_le.mp hover⟩
      rw [if_neg hover]
      by_cases hspread : ofInt 1 < (c.limits : Bounds F).ratio
      · simp [hsound, hspread, eq_comm]
      · simp [hspread]

end

/-! ## Doubles -/

open Binary64

namespace Sound

variable {c : Constants}

theorem within_clock (h : c.Sound) : Within (ofWord c.clockHz) 0 63 :=
  within_ofWord h.positive.clock

theorem within_halt (h : c.Sound) : Within (ofWord c.haltCycles) 0 63 :=
  within_ofWord h.positive.halt

theorem within_loop (h : c.Sound) : Within (ofWord c.loopCycles) 0 63 :=
  within_ofWord h.loopCycles_pos

/-- Cycles of a period, for as many halts as a register of sixteen bits can ask for. -/
theorem within_periodCycles (h : c.Sound) {halts : Float} (hhalts : UpTo halts 16) :
    Within (c.periodCycles halts) 0 80 := by
  have hpart : UpTo (halts * ofWord c.haltCycles) (16 + 63) :=
    hhalts.mul h.within_halt.upTo (by norm_num) (by norm_num) (by norm_num) (by norm_num)
  have hloop : Within (ofWord c.loopCycles) 0 79 := h.within_loop.mono le_rfl (by norm_num)
  exact hloop.add hpart (by norm_num) (by norm_num) (by norm_num)

theorem within_frequencyForDelay (h : c.Sound) {halts : Float} (hhalts : UpTo halts 16) :
    Within (c.frequencyForDelay halts) (-80) 63 :=
  h.within_clock.div (h.within_periodCycles hhalts) (by norm_num) (by norm_num) (by norm_num)
    (by norm_num) (by norm_num)

/-- Seconds of a period. -/
theorem within_seconds (h : c.Sound) {halts : Float} (hhalts : UpTo halts 16) :
    Within (c.cyclesToSeconds (c.periodCycles halts)) (-63) 80 :=
  (h.within_periodCycles hhalts).div h.within_clock (by norm_num) (by norm_num) (by norm_num)
    (by norm_num) (by norm_num)

/-- The inverse of the time of a period. -/
theorem within_rate (h : c.Sound) {halts : Float} (hhalts : UpTo halts 16) :
    Within (ofInt 1 / c.cyclesToSeconds (c.periodCycles halts)) (-80) 63 :=
  within_one.div (h.within_seconds hhalts) (by norm_num) (by norm_num) (by norm_num)
    (by norm_num) (by norm_num)

theorem upTo_noHalts : UpTo (ofInt 0) 16 :=
  upTo_natCast (n := 0) (k := 16) (by decide) (by decide)

theorem upTo_allHalts : UpTo (ofInt haltSteps) 16 :=
  upTo_natCast (n := haltSteps) (k := 16) (by decide) (by decide)

theorem within_tMin (h : c.Sound) : Within (c.limits : Bounds Float).tMin (-63) 80 :=
  h.within_seconds upTo_noHalts

theorem within_tMax (h : c.Sound) : Within (c.limits : Bounds Float).tMax (-63) 80 :=
  h.within_seconds upTo_allHalts

theorem within_fMin (h : c.Sound) : Within (c.limits : Bounds Float).fMin (-80) 63 :=
  h.within_rate upTo_allHalts

theorem within_fMax (h : c.Sound) : Within (c.limits : Bounds Float).fMax (-80) 63 :=
  h.within_rate upTo_noHalts

end Sound

/-! ## The number of halts for a frequency -/

/-- Cycles of the period of a frequency beyond the bare loop, every operation rounded. -/
def roundedRest (c : Constants) (f : ℚ) : ℚ :=
  rounded (rounded (toRat (ofWord c.clockHz) / f) - toRat (ofWord c.loopCycles))

/-- The number of halts for a frequency, every operation rounded. -/
def roundedHalts (c : Constants) (f : ℚ) : ℚ :=
  rounded (c.roundedRest f / toRat (ofWord c.haltCycles))

namespace Sound

variable {c : Constants}

/-- A higher frequency never needs more halts. -/
theorem roundedHalts_anti (h : c.Sound) {f g : ℚ} (hf : 0 < f) (hfg : f ≤ g) :
    c.roundedHalts g ≤ c.roundedHalts f := by
  have hperiod : toRat (ofWord c.clockHz) / g ≤ toRat (ofWord c.clockHz) / f :=
    div_le_div_of_nonneg_left h.within_clock.pos.le hf hfg
  have hrest : c.roundedRest g ≤ c.roundedRest f :=
    rounded_mono (sub_le_sub_right (rounded_mono hperiod) _)
  exact rounded_mono (div_le_div_of_nonneg_right hrest h.within_halt.pos.le)

theorem denotes_rest (h : c.Sound) {f : Float} (hf : Within f (-80) 63) :
    Denotes (ofWord c.clockHz / f - ofWord c.loopCycles) (c.roundedRest (toRat f)) ∧
      |c.roundedRest (toRat f)| ≤ 2 ^ (143 : ℤ) := by
  have hclock := h.within_clock
  have hloop := h.within_loop
  have hperiod : Within (ofWord c.clockHz / f) (0 - 63) (63 - -80) :=
    hclock.div hf (by norm_num) (by norm_num) (by norm_num) (by norm_num) (by norm_num)
  have hvalue : toRat (ofWord c.clockHz / f) = rounded (toRat (ofWord c.clockHz) / toRat f) :=
    (denotes_div (hclock.isFinite (by norm_num)) (hf.isFinite (by norm_num))
      hf.pos.ne').toRat_eq
  rw [roundedRest, ← hvalue]
  refine ⟨denotes_sub (hperiod.isFinite (by norm_num)) (hloop.isFinite (by norm_num)), ?_⟩
  refine abs_rounded_le (by norm_num) (by norm_num) (abs_le.mpr ⟨?_, ?_⟩)
  · have hupper := (hloop.mono le_rfl (show (63 : ℤ) ≤ 143 by norm_num)).upper
    linarith only [hupper, hperiod.pos]
  · have hupper : toRat (ofWord c.clockHz / f) ≤ 2 ^ (143 : ℤ) := hperiod.upper
    linarith only [hupper, hloop.pos]

theorem denotes_halts (h : c.Sound) {f : Float} (hf : Within f (-80) 63) :
    Denotes (c.delayForFrequency f) (c.roundedHalts (toRat f)) := by
  obtain ⟨hrest, hsmall⟩ := h.denotes_rest hf
  have hfinite := hrest.isFinite (hsmall.trans_lt (two_zpow_lt_beyond (by norm_num)))
  have hhalt := h.within_halt
  have hquotient := denotes_div hfinite (hhalt.isFinite (by norm_num)) hhalt.pos.ne'
  rwa [hrest.toRat_eq] at hquotient

theorem abs_roundedHalts_le (h : c.Sound) {f : Float} (hf : Within f (-80) 63) :
    |c.roundedHalts (toRat f)| ≤ 2 ^ (143 : ℤ) := by
  have hhalt : 1 ≤ toRat (ofWord c.haltCycles) := h.within_halt.lower
  refine abs_rounded_le (by norm_num) (by norm_num) ?_
  rw [abs_div, abs_of_pos h.within_halt.pos]
  exact (div_le_self (abs_nonneg _) hhalt).trans (h.denotes_rest hf).2

/-- The number of halts for a frequency is a finite number. -/
theorem isFinite_halts (h : c.Sound) {f : Float} (hf : Within f (-80) 63) :
    isFinite (c.delayForFrequency f) = true :=
  (h.denotes_halts hf).isFinite
    ((h.abs_roundedHalts_le hf).trans_lt (two_zpow_lt_beyond (by norm_num)))

end Sound

end StepTone.Firmware.Constants
