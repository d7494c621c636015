/-
StepTone.Proofs.PeriodRoundTrip — from a frequency to a row and back.

The number of halts of a row is the period of its frequency, less the bare loop, in units
of a halt. Over the rational numbers this can be turned round: the period that a row gives
misses the one that was asked for by the rounding of the halts, which is half a halt at most,
and by what the register cuts off. Between the bounds there are 256 halts at most, so only a
register of eight bits cuts anything off, and never more than one halt.

* `InRange` — a frequency lies between the two bounds.
* `exactRow` — the row for a frequency, over integers of any size.
* `KeepsPeriod` — how far the period of a row is from the one asked for.
* `keepsPeriod_exactRow` — every frequency in range gives such a row.
* `sample_eq_exactRow` — no word wraps in the rows of constants that are not refused.
* `rows_keep_period` — the rows of all constants, and of every table that is made.
-/
import StepTone.Proofs.TableGeneration

namespace StepTone.Table

open Firmware (Constants Bounds BoundsFault)
open Arithmetic (ofInt ofWord)
open Binary64 (halfAway halfAway_of_nonneg halfAway_nonneg)

/-- The frequency lies between those of the loop with all halts and of the bare loop. -/
structure InRange (clock loop halt : ℤ) (f : ℚ) : Prop where
  low : (clock : ℚ) / (loop + 256 * halt) ≤ f
  high : f ≤ clock / loop

/-- The row for a frequency, over integers of any size. -/
def exactRow (clock loop halt : ℤ) (w : Width) (index : ℕ) (f : ℚ) : Entry ℚ :=
  let exact := (clock / f - loop) / halt
  let halts := Arithmetic.round exact
  { index, frequency := f, exact, delay := clamp w halts, clamped := outgrows w halts }

/-- Cycles of the period asked for, less those of the period that the row gives. -/
def Entry.periodError (clock loop halt : ℤ) (e : Entry ℚ) : ℚ :=
  clock / e.frequency - (loop + e.delay.toNat * halt)

/-- The period of a row is within one halt of the one asked for, and within half a halt
unless the register was too narrow. -/
structure KeepsPeriod (clock loop halt : ℤ) (w : Width) (e : Entry ℚ) : Prop where
  exact_nonneg : 0 ≤ e.exact
  exact_le : e.exact ≤ 256
  near : |e.periodError clock loop halt| ≤ halt
  nearer : e.clamped = false → |e.periodError clock loop halt| ≤ halt / 2
  clamped_iff : e.clamped = true ↔ w = .eight ∧ 511 / 2 ≤ e.exact

/-! ## Rounding into the register -/

theorem abs_sub_halfAway_le {x : ℚ} (h : 0 ≤ x) : |x - halfAway x| ≤ 1 / 2 := by
  have hlow := Int.floor_le (x + 1 / 2)
  have hhigh := Int.lt_floor_add_one (x + 1 / 2)
  rw [halfAway_of_nonneg h, abs_le]
  constructor
  · linarith only [hlow]
  · linarith only [hhigh]

/-- Up to 256 halts, the register cuts off one at most; that takes eight bits, and a number
that is rounded to 256. -/
theorem outgrows_halfAway_iff {w : Width} {x : ℚ} (hw : w.isBuilt = true) (hlow : 0 ≤ x)
    (hhigh : x ≤ 256) : outgrows w (halfAway x) = true ↔ w = .eight ∧ 511 / 2 ≤ x := by
  have hnonneg := halfAway_nonneg hlow
  have htop : ⌊x + 1 / 2⌋ < 257 := Int.floor_lt.mpr (by norm_num; linarith only [hhigh])
  have hcut : 256 ≤ ⌊x + 1 / 2⌋ ↔ 511 / 2 ≤ x := by
    rw [Int.le_floor]
    constructor
    · intro h
      norm_num at h
      linarith only [h]
    · intro h
      norm_num
      linarith only [h]
  rw [halfAway_of_nonneg hlow] at hnonneg ⊢
  rw [outgrows_iff, ← hcut]
  rcases Bool.or_eq_true_iff.mp hw with h | h
  · obtain rfl := of_decide_eq_true h
    have hmax : (Width.eight.max.toNat : ℤ) = 255 := rfl
    simp only [hmax, true_and]
    omega
  · obtain rfl := of_decide_eq_true h
    have hmax : (Width.sixteen.max.toNat : ℤ) = 65535 := rfl
    have hne : Width.sixteen ≠ .eight := by decide
    simp only [hmax, hne, false_and, iff_false, not_not]
    omega

/-- A number of halts that is not cut off is the rounded one. -/
theorem clamp_of_not_outgrows {w : Width} {n : ℤ} (h : outgrows w n = false) :
    ((clamp w n).toNat : ℤ) = n := by
  have hin : 0 ≤ n ∧ n ≤ w.max.toNat := by
    by_contra hout
    rw [(outgrows_iff w n).mpr hout] at h
    cases h
  rw [clamp_toNat]
  omega

/-- The register misses the exact number of halts by half a halt, or by one where it cuts
off. -/
theorem abs_sub_clamp_le {w : Width} {x : ℚ} (hw : w.isBuilt = true) (hlow : 0 ≤ x)
    (hhigh : x ≤ 256) :
    |x - (clamp w (halfAway x)).toNat| ≤ if outgrows w (halfAway x) then 1 else 1 / 2 := by
  cases hcut : outgrows w (halfAway x) with
  | false =>
    have hkept : (((clamp w (halfAway x)).toNat : ℤ) : ℚ) = halfAway x := by
      rw [clamp_of_not_outgrows hcut]
    rw [Int.cast_natCast] at hkept
    rw [hkept]
    exact abs_sub_halfAway_le hlow
  | true =>
    obtain ⟨rfl, hlarge⟩ := (outgrows_halfAway_iff hw hlow hhigh).mp hcut
    have hfull : ((clamp .eight (halfAway x)).toNat : ℤ) = 255 := by
      have hout := (outgrows_iff _ _).mp hcut
      have hnonneg := halfAway_nonneg hlow
      have hmax : (Width.eight.max.toNat : ℤ) = 255 := rfl
      rw [clamp_toNat]
      omega
    have hcast : (((clamp .eight (halfAway x)).toNat : ℤ) : ℚ) = 255 := by
      rw [hfull]
      norm_num
    rw [Int.cast_natCast] at hcast
    rw [hcast, if_pos rfl, abs_le]
    constructor
    · linarith only [hlarge]
    · linarith only [hhigh]

/-! ## One row -/

section

variable {clock loop halt : ℤ} {f : ℚ}

/-- Between the bounds a frequency needs between none and 256 halts. -/
theorem InRange.halts (h : InRange clock loop halt f) (hclock : 0 < clock) (hloop : 0 < loop)
    (hhalt : 0 < halt) :
    0 ≤ (clock / f - loop) / halt ∧ (clock / f - loop) / halt ≤ (256 : ℚ) := by
  have hC : (0 : ℚ) < clock := by exact_mod_cast hclock
  have hL : (0 : ℚ) < loop := by exact_mod_cast hloop
  have hH : (0 : ℚ) < halt := by exact_mod_cast hhalt
  have hlongest : (0 : ℚ) < loop + 256 * halt := by positivity
  have hf : 0 < f := (div_pos hC hlongest).trans_le h.low
  have hshort : (loop : ℚ) ≤ clock / f := (le_div_comm₀ hf hL).mp h.high
  have hlong : (clock : ℚ) / f ≤ loop + 256 * halt := (div_le_comm₀ hlongest hf).mp h.low
  refine ⟨div_nonneg (sub_nonneg.mpr hshort) hH.le, ?_⟩
  rw [div_le_iff₀ hH]
  linarith only [hlong]

/-- The error of a period is that of the halts, in cycles. -/
theorem periodError_exactRow (hhalt : 0 < halt) (w : Width) (index : ℕ) (f : ℚ) :
    (exactRow clock loop halt w index f).periodError clock loop halt =
      ((exactRow clock loop halt w index f).exact -
        (exactRow clock loop halt w index f).delay.toNat) * halt := by
  have hH : (halt : ℚ) ≠ 0 := by exact_mod_cast hhalt.ne'
  simp only [Entry.periodError, exactRow]
  rw [sub_mul, div_mul_cancel₀ _ hH, sub_sub]

theorem keepsPeriod_exactRow (hclock : 0 < clock) (hloop : 0 < loop) (hhalt : 0 < halt)
    {w : Width} (hw : w.isBuilt = true) (index : ℕ) (hf : InRange clock loop halt f) :
    KeepsPeriod clock loop halt w (exactRow clock loop halt w index f) := by
  obtain ⟨hlow, hhigh⟩ := hf.halts hclock hloop hhalt
  have hH : (0 : ℚ) < halt := by exact_mod_cast hhalt
  have herror : |(exactRow clock loop halt w index f).exact -
      (exactRow clock loop halt w index f).delay.toNat| ≤
        if (exactRow clock loop halt w index f).clamped then 1 else 1 / 2 :=
    -- rational numbers are rounded by `halfAway`, up to unfolding
    abs_sub_clamp_le hw hlow hhigh
  refine ⟨hlow, hhigh, ?_, ?_, outgrows_halfAway_iff hw hlow hhigh⟩
  · rw [periodError_exactRow hhalt, abs_mul, abs_of_pos hH]
    refine mul_le_of_le_one_left hH.le (herror.trans ?_)
    split_ifs
    · exact le_rfl
    · norm_num
  · intro hfits
    rw [hfits] at herror
    rw [periodError_exactRow hhalt, abs_mul, abs_of_pos hH, div_eq_inv_mul, ← one_div]
    exact mul_le_mul_of_nonneg_right herror hH.le

end

/-! ## The rows of a table -/

section

variable {c : Constants}

/-- Words and integers give the same row where the longest period fits a word. -/
theorem sample_eq_exactRow (h : c.Sound) (w : Width) (index : ℕ) (f : ℚ) :
    Entry.sample c w index f =
      exactRow c.clockHz.toInt c.loopLength c.haltCycles.toInt w index f := by
  have hloop : (ofWord c.loopCycles : ℚ) = c.loopLength := by
    rw [← h.loopCycles_eq]
    rfl
  have hexact : c.delayForFrequency f =
      (c.clockHz.toInt / f - c.loopLength) / c.haltCycles.toInt := by
    rw [Constants.delayForFrequency, hloop]
    rfl
  simp only [Entry.sample, exactRow, hexact]

/-- The lowest frequency is that of the loop with all halts. -/
theorem limits_fMin (h : c.Sound) : (c.limits : Bounds ℚ).fMin =
    c.clockHz.toInt / (c.loopLength + 256 * c.haltCycles.toInt) := by
  rw [← h.loopCycles_eq]
  change (1 : ℚ) / ((c.loopCycles.toInt + 256 * c.haltCycles.toInt) / c.clockHz.toInt) = _
  rw [one_div_div]

/-- The highest frequency is that of the bare loop. -/
theorem limits_fMax (h : c.Sound) :
    (c.limits : Bounds ℚ).fMax = c.clockHz.toInt / c.loopLength := by
  rw [← h.loopCycles_eq]
  change (1 : ℚ) / ((c.loopCycles.toInt + 0 * c.haltCycles.toInt) / c.clockHz.toInt) = _
  rw [zero_mul, add_zero, one_div_div]

variable {scale : LogScale ℚ} {o : Options} {t : Table ℚ}

/-- The rows climb from one bound to the other. -/
theorem Made.inRange (h : Made scale c o t) (i : Fin size) :
    InRange c.clockHz.toInt c.loopLength c.haltCycles.toInt (t.entries.get i).frequency := by
  have hmono : StrictMono fun i : Fin 256 => (t.entries.get i).frequency :=
    Fin.strictMono_iff_lt_succ.mpr h.rises
  constructor
  · rw [← limits_fMin h.sound, ← h.bounds_eq, ← h.frequency_zero]
    exact hmono.monotone (Fin.zero_le i)
  · rw [← limits_fMax h.sound, ← h.bounds_eq, ← h.frequency_last]
    exact hmono.monotone (Fin.le_last i)

theorem Made.keepsPeriod (h : Made scale c o t) (i : Fin size) :
    KeepsPeriod c.clockHz.toInt c.loopLength c.haltCycles.toInt t.options.width
      (t.entries.get i) := by
  have hrange := h.inRange i
  have hpos := h.sound.positive
  have hrow := h.row i
  rw [sample_eq_exactRow h.sound] at hrow
  rw [hrow] at hrange ⊢
  exact keepsPeriod_exactRow hpos.clock hpos.loopLength_pos hpos.halt h.built _ hrange

end

/-! ## Evenly spaced rows -/

/-- Without a logarithm the rows are spaced evenly, both ends included. -/
theorem ladder_even (b : Bounds ℚ) (i : Fin size) :
    (ladder ⟨id, id⟩ b).get i = b.fMin + (b.fMax - b.fMin) * i.val / 255 := by
  by_cases hzero : i.val = 0
  · obtain rfl : i = 0 := Fin.ext hzero
    simp
  · by_cases hlast : i.val = 255
    · obtain rfl : i = Fin.last 255 := Fin.ext hlast
      rw [ladder_last, Fin.val_last]
      norm_num
    · rw [ladder_inner b hzero hlast]
      rfl

theorem climbs_even {b : Bounds ℚ} (h : b.fMin < b.fMax) :
    firstStall (ladder ⟨id, id⟩ b) = none := by
  refine firstStall_eq_none_iff.mpr fun i => ?_
  have hcast : (i.castSucc.val : ℚ) = i := rfl
  have hsucc : (i.succ.val : ℚ) = i + 1 := by simp
  rw [ladder_even, ladder_even, hcast, hsucc]
  linarith only [h]

/-! ## Every row -/

/-- Over the rational numbers, with constants of any size, a frequency between the bounds
needs between none and 256 halts, and the period of its row is within one halt of the one
asked for, within half a halt unless the row is clamped. Only a register of eight bits clamps,
and only from 255.5 halts on. The rows for constants held in words are these rows, unless
the constants are refused because a word would wrap, and those of a table that is made lie
between the bounds. -/
theorem rows_keep_period :
    (∀ clock move halt moves : ℤ, 0 < clock → 0 < move → 0 < halt → 0 < moves →
      ∀ w : Width, w.isBuilt = true → ∀ (index : ℕ) (f : ℚ),
        InRange clock (moves * move) halt f →
        KeepsPeriod clock (moves * move) halt w
          (exactRow clock (moves * move) halt w index f)) ∧
    (∀ c : Constants, c.Positive →
      (c.bounds : Except (BoundsFault ℚ) (Bounds ℚ)) = .error (.cycleOverflow c) ∨
      ∀ (w : Width) (index : ℕ) (f : ℚ), Entry.sample c w index f =
        exactRow c.clockHz.toInt (c.freqLoopMoves.toInt * c.moveCycles.toInt)
          c.haltCycles.toInt w index f) ∧
    ∀ (scale : LogScale ℚ) (c : Constants) (o : Options) (t : Table ℚ),
      generate scale c o = .ok t → ∀ i,
        InRange c.clockHz.toInt (c.freqLoopMoves.toInt * c.moveCycles.toInt)
          c.haltCycles.toInt (t.entries.get i).frequency ∧
        KeepsPeriod c.clockHz.toInt (c.freqLoopMoves.toInt * c.moveCycles.toInt)
          c.haltCycles.toInt t.options.width (t.entries.get i) := by
  refine ⟨?_, ?_, ?_⟩
  · intro clock move halt moves hclock hmove hhalt hmoves w hw index f hf
    exact keepsPeriod_exactRow hclock (mul_pos hmoves hmove) hhalt hw index hf
  · intro c hpos
    by_cases hover : 2 ^ 63 ≤ c.longestPeriod
    · left
      rw [Constants.bounds_of_positive hpos, if_pos hover]
    · exact .inr (sample_eq_exactRow ⟨hpos, not_le.mp hover⟩)
  · intro scale c o t ht i
    have hmade := made_of_generate ht
    exact ⟨hmade.inRange i, hmade.keepsPeriod i⟩

/-- The lowest frequency of the usual constants: all 256 halts meet a register of eight bits,
and the period comes out one halt short. A table with evenly spaced rows can be made too. -/
theorem lowest_row_keeps_period :
    (exactRow 125000 528 8 .eight 0 (125000 / 2576)).exact = 256 ∧
    (exactRow 125000 528 8 .eight 0 (125000 / 2576)).delay = 255 ∧
    (exactRow 125000 528 8 .eight 0 (125000 / 2576)).periodError 125000 528 8 = 8 ∧
    KeepsPeriod 125000 528 8 .eight (exactRow 125000 528 8 .eight 0 (125000 / 2576)) ∧
    ∃ t, generate (⟨id, id⟩ : LogScale ℚ) {} {} = .ok t ∧
      ∀ i, KeepsPeriod 125000 528 8 .eight (t.entries.get i) := by
  obtain ⟨hrows, -, htables⟩ := rows_keep_period
  obtain ⟨hsound, -⟩ := Constants.bounds_eq_ok_iff.mp HalfHertz.bounds_eq
  have hrange : InRange 125000 528 8 (125000 / 2576) := ⟨by norm_num, by norm_num⟩
  have hbounds : ({} : Constants).bounds = .ok (({} : Constants).limits : Bounds ℚ) :=
    Constants.bounds_eq_ok_iff.mpr ⟨hsound, by decide +kernel, rfl⟩
  have htable := generate_eq_ok (o := {}) rfl hbounds (climbs_even (by decide +kernel))
  exact ⟨by decide +kernel, by decide +kernel, by decide +kernel,
    hrows 125000 24 8 22 (by decide) (by decide) (by decide) (by decide) .eight rfl 0 _ hrange,
    _, htable, fun i => (htables _ _ _ _ htable i).2⟩

end StepTone.Table
