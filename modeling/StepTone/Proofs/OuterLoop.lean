/-
StepTone.Proofs.OuterLoop — the time that is taken out of every note.

Between two notes the firmware does some bookkeeping, and a note is held for as much less.
The cycles of that bookkeeping are a product of two words, and it wraps: the test that
guards the frequency loop against this says nothing about a product with a factor of its
own. Where the product fits a word, all is well; where it wraps to a negative word, time
is added to the notes and not taken out of them.

* `outerLoopSeconds_nonneg_iff` — the time has the sign of the word that it is made from.
* `holdSeconds_le`, `le_holdSeconds` — a note is shortened or stretched by that sign.
* `outer_loop_taken_out` — what this means for the songs on a table.
* `rest_is_stretched` — ten milliseconds of silence that last a second.
-/
import StepTone.Proofs.SongBlock

namespace StepTone.Song

open Arithmetic (ofInt ofWord isMagnitude)
open Binary64
open Firmware (Constants)
open Table (Made)

variable {ls curve : LogScale Float} {c : Constants} {o : Table.Options} {t : Table Float}
  {scale : Float} {n : Note Float} {step : Step Float}

/-! ## The sign of the time -/

theorem ofInt_zero_le_iff {x : Float} (h : IsNumber x) : ofInt 0 ≤ x ↔ 0 ≤ toRat x := by
  rw [le_iff, denotes_ofInt_zero.toRat_eq]
  simp [h, denotes_ofInt_zero.isNumber]

/-- A negative word stays at minus one or below when it is read as a double. -/
theorem rounded_le_neg_one {z : ℤ} (h : z < 0) : rounded z ≤ -1 := by
  have hone : (1 : ℚ) ≤ -(z : ℚ) := by exact_mod_cast (by omega : 1 ≤ -z)
  have hround : (2 : ℚ) ^ (0 : ℤ) ≤ rounded (-z) :=
    two_zpow_le_rounded (by norm_num) (by norm_num) (by simpa using hone)
  rw [rounded_neg, zpow_zero] at hround
  linarith only [hround]

/-- The time between two notes has the sign of the word that counts its cycles. -/
theorem outerLoopSeconds_nonneg_iff (h : c.Sound) :
    ofInt 0 ≤ (c.outerLoopSeconds : Float) ↔ 0 ≤ (c.outerLoopMoves * c.moveCycles).toInt := by
  obtain ⟨⟨hnumber, hvalue⟩, -⟩ := denotes_outerLoopSeconds h
  have hclock := h.within_clock
  rw [ofInt_zero_le_iff hnumber, hvalue]
  constructor
  · intro hnonneg
    by_contra hwrapped
    -- a clock is below `2^63`, so the quotient is too far from zero to be rounded to it
    have hfar : (2 : ℚ) ^ (-63 : ℤ) ≤
        -(rounded (c.outerLoopMoves * c.moveCycles).toInt / toRat (ofWord c.clockHz)) := by
      have hcycles := rounded_le_neg_one (not_le.mp hwrapped)
      rw [zpow_neg, ← neg_div, le_div_iff₀ hclock.pos, inv_mul_le_iff₀ (two_zpow_pos 63)]
      have hupper := hclock.upper
      nlinarith only [hcycles, hupper, two_zpow_pos 63]
    have hround := two_zpow_le_rounded (by norm_num) (by norm_num) hfar
    rw [rounded_neg] at hround
    linarith only [hround, hnonneg, two_zpow_pos (-63)]
  · intro hword
    have hcycles : (0 : ℚ) ≤ (c.outerLoopMoves * c.moveCycles).toInt := by exact_mod_cast hword
    exact rounded_nonneg (div_nonneg (rounded_nonneg hcycles) hclock.pos.le)

/-! ## One note -/

/-- A time that is not negative shortens a note. -/
theorem holdSeconds_le (h : Made curve c o t) (hduration : isMagnitude n.durationMs = true)
    (hnonneg : ofInt 0 ≤ (c.outerLoopSeconds : Float)) :
    holdSeconds t n ≤ n.durationMs / ofInt 1000 := by
  obtain ⟨hfinite, hmagnitude⟩ := Bool.and_eq_true_iff.mp hduration
  obtain ⟨hnumber, hvalue⟩ := denotes_holdSeconds h hfinite
  obtain ⟨hseconds, -⟩ := denotes_seconds hfinite
  have hlength : 0 ≤ toRat n.durationMs := by
    have hle := (le_iff.mp (of_decide_eq_true hmagnitude)).2.2
    rwa [denotes_ofInt_zero.toRat_eq] at hle
  have houter := (le_iff.mp hnonneg).2.2
  rw [denotes_ofInt_zero.toRat_eq] at houter
  refine le_iff.mpr ⟨hnumber, hseconds.isNumber, ?_⟩
  rw [hvalue]
  refine max_le ?_ ?_
  · rw [hseconds.toRat_eq]
    exact rounded_nonneg (div_nonneg hlength (by norm_num))
  · calc rounded (toRat (n.durationMs / ofInt 1000) - toRat (c.outerLoopSeconds : Float))
        ≤ rounded (toRat (n.durationMs / ofInt 1000)) := rounded_mono (sub_le_self _ houter)
      _ = toRat (n.durationMs / ofInt 1000) := rounded_toRat (isFinite_seconds hfinite)

/-- A negative time stretches it. -/
theorem le_holdSeconds (h : Made curve c o t) (hfinite : isFinite n.durationMs = true)
    (hneg : (c.outerLoopSeconds : Float) < ofInt 0) :
    n.durationMs / ofInt 1000 ≤ holdSeconds t n := by
  obtain ⟨hnumber, hvalue⟩ := denotes_holdSeconds h hfinite
  have houter := (lt_iff.mp hneg).2.2
  rw [denotes_ofInt_zero.toRat_eq] at houter
  refine le_iff.mpr ⟨(denotes_seconds hfinite).1.isNumber, hnumber, ?_⟩
  rw [hvalue]
  have hself := rounded_toRat (isFinite_seconds hfinite)
  calc toRat (n.durationMs / ofInt 1000)
      = rounded (toRat (n.durationMs / ofInt 1000)) := hself.symm
    _ ≤ rounded (toRat (n.durationMs / ofInt 1000) - toRat (c.outerLoopSeconds : Float)) :=
        rounded_mono (by linarith only [houter])
    _ ≤ _ := le_max_right _ _

/-- A note that can be played has a duration, and it is held for its time. -/
theorem seconds_of_compileNote (hstep : compileNote ls t scale n = .ok step) :
    isMagnitude step.note.durationMs = true ∧ step.seconds = holdSeconds t step.note := by
  obtain ⟨⟨-, hduration⟩, hcases⟩ := compileNote_cases hstep
  rcases hcases with ⟨-, hhold⟩ | ⟨-, -, row, -, hhold⟩
  · obtain ⟨-, rfl⟩ := hold_eq_ok_iff.mp hhold
    exact ⟨hduration, rfl⟩
  · obtain ⟨-, rfl⟩ := hold_eq_ok_iff.mp hhold
    exact ⟨hduration, rfl⟩

/-! ## The songs on a table -/

/-- The time between the notes on a table that was made, with bookkeeping of a positive
length. The cycles are the product of the constants exactly where that product fits a word,
and then the time is not negative. In any case it is not negative exactly where the word
is not; no step is then held for longer than its note lasts, and otherwise none is held for
less. -/
theorem outer_loop_taken_out (ht : Table.generate curve c o = .ok t)
    (hmoves : 0 < t.constants.outerLoopMoves) :
    t.constants = c ∧
    ((c.outerLoopMoves * c.moveCycles).toInt = c.outerLoopMoves.toInt * c.moveCycles.toInt ↔
      c.outerLoopMoves.toInt * c.moveCycles.toInt < 2 ^ 63) ∧
    (c.outerLoopMoves.toInt * c.moveCycles.toInt < 2 ^ 63 →
      ofInt 0 ≤ (c.outerLoopSeconds : Float)) ∧
    (ofInt 0 ≤ (c.outerLoopSeconds : Float) ↔ 0 ≤ (c.outerLoopMoves * c.moveCycles).toInt) ∧
    ∀ ls scale notes s, compile ls t scale notes = .ok s → ∀ step ∈ s.steps,
      (ofInt 0 ≤ (c.outerLoopSeconds : Float) →
        step.seconds ≤ step.note.durationMs / ofInt 1000) ∧
      ((c.outerLoopSeconds : Float) < ofInt 0 →
        step.note.durationMs / ofInt 1000 ≤ step.seconds) := by
  have hmade := Table.made_of_generate ht
  have hsign := outerLoopSeconds_nonneg_iff hmade.sound
  rw [hmade.constants, Int64.lt_iff_toInt_lt, Int64.toInt_zero] at hmoves
  have hproduct := mul_pos hmoves hmade.sound.positive.move
  have hexact := Constants.toInt_mul_eq_iff hproduct.le
  refine ⟨hmade.constants, hexact, ?_, hsign, ?_⟩
  · intro hfit
    rw [hsign, hexact.mpr hfit]
    exact hproduct.le
  · intro ls scale notes s hs
    obtain ⟨-, -, hsteps, -⟩ := compile_eq_ok_iff.mp hs
    refine forall_mem_of_compileFrom (fun n step hstep => ?_) hsteps
    obtain ⟨hduration, hseconds⟩ := seconds_of_compileNote hstep
    rw [hseconds]
    exact ⟨holdSeconds_le hmade hduration,
      le_holdSeconds hmade (Bool.and_eq_true_iff.mp hduration).1⟩

/-- A song that passes a test can be compiled. -/
theorem exists_of_any {notes : List (Note Float)} {p : Sequence Float → Bool}
    (h : (compile ls t scale notes).toOption.any p = true) :
    ∃ s, compile ls t scale notes = .ok s ∧ p s = true := by
  cases hs : compile ls t scale notes with
  | error fault =>
    rw [hs] at h
    cases h
  | ok s =>
    rw [hs] at h
    exact ⟨s, rfl, h⟩

/-- On the table of the usual constants the product fits, and the two notes are not held for
longer than they last. -/
theorem restAndTone_shortened :
    (27 * 24 : Int64).toInt = 27 * 24 ∧
    ofInt 0 ≤ (({} : Constants).outerLoopSeconds : Float) ∧
    ∃ s, compile ⟨id, id⟩ Table.HalfHertz.table (ofInt 1) restAndTone = .ok s ∧
      ∀ step ∈ s.steps, step.seconds ≤ step.note.durationMs / ofInt 1000 := by
  obtain ⟨-, hexact, hnonneg, -, hsteps⟩ :=
    outer_loop_taken_out Table.HalfHertz.generate_eq (by decide)
  have hplayed : ((compile ⟨id, id⟩ Table.HalfHertz.table (ofInt 1) restAndTone).toOption.any
      fun s => s.steps.length = 2) = true := by
    decide +kernel
  obtain ⟨s, hs, -⟩ := exists_of_any hplayed
  have htime := hnonneg (by decide)
  exact ⟨hexact.mpr (by decide), htime, s, hs,
    fun step hmem => (hsteps _ _ _ s hs step hmem).1 htime⟩

/-! ## A product that wraps -/

namespace Wrapped

open Table (HalfHertz.scale HalfHertz.limits HalfHertz.table)

/-- The usual constants, with so many moves between two notes that their cycles wrap to a
little more than the cycles of a second, below zero. -/
def constants : Constants where
  outerLoopMoves := 768614336404559442

def table : Table Float :=
  { HalfHertz.table with constants := constants }

/-- Ten milliseconds of silence. -/
def rest : Note Float := ⟨ofInt 0, ofInt 10⟩

theorem generate_eq : Table.generate HalfHertz.scale constants {} = .ok table := by
  obtain ⟨-, hspread, -⟩ := Constants.bounds_eq_ok_iff.mp Table.HalfHertz.bounds_eq
  have hsound : constants.Sound :=
    ⟨Constants.firstNonPositive_eq_none_iff.mp (by decide), by decide⟩
  have hbounds : constants.bounds = .ok HalfHertz.limits :=
    Constants.bounds_eq_ok_iff.mpr ⟨hsound, hspread, rfl⟩
  exact Table.generate_eq_ok (o := {}) rfl hbounds Table.HalfHertz.climbs

end Wrapped

/-- The cycles between two notes can wrap, and a silence of ten milliseconds is then held
for more than a second. -/
theorem rest_is_stretched :
    Table.generate Table.HalfHertz.scale Wrapped.constants {} = .ok Wrapped.table ∧
    0 < Wrapped.table.constants.outerLoopMoves ∧
    (Wrapped.constants.outerLoopMoves * Wrapped.constants.moveCycles).toInt = -125008 ∧
    (Wrapped.constants.outerLoopSeconds : Float) < ofInt 0 ∧
    ∃ s, compile ⟨id, id⟩ Wrapped.table (ofInt 1) [Wrapped.rest] = .ok s ∧
      ∃ step ∈ s.steps, step.note.durationMs / ofInt 1000 < step.seconds ∧
        ofInt 1 < step.seconds := by
  have hstretched : ((compile ⟨id, id⟩ Wrapped.table (ofInt 1) [Wrapped.rest]).toOption.any
      fun s => s.steps.any fun step => decide (step.note.durationMs / ofInt 1000 < step.seconds ∧
        ofInt 1 < step.seconds)) = true := by
    decide +kernel
  obtain ⟨s, hs, hany⟩ := exists_of_any hstretched
  obtain ⟨step, hmem, hstep⟩ := List.any_eq_true.mp hany
  exact ⟨Wrapped.generate_eq, by decide, by decide, by decide +kernel, s, hs, step, hmem,
    of_decide_eq_true hstep⟩

end StepTone.Song
