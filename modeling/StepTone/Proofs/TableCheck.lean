/-
StepTone.Proofs.TableCheck — what the check of a table decides.

* `Table.Lawful` — the laws of a table, stated for each row and each two neighbours.
* `check_eq_ok_iff` — the check succeeds exactly on the tables that keep the laws.
* `Lawful.delay_antitone`, `frequency_strictMono` — the laws for neighbours hold for any
  two rows.
-/
import Mathlib.Order.Fin.Basic
import StepTone.Proofs.Doubles
import StepTone.Table.Check

namespace StepTone.Table

variable {F : Type} [Arithmetic F] {t : Table F}

/-- The laws of a table. -/
structure Lawful (t : Table F) : Prop where
  /-- Every delay fits the register. -/
  fits : ∀ i, (t.entries.get i).delay ≤ t.options.width.max
  /-- Frequencies rise from row to row. -/
  rises : ∀ i : Fin 255,
    (t.entries.get i.castSucc).frequency < (t.entries.get i.succ).frequency
  /-- Delays never do. -/
  falls : ∀ i : Fin 255, (t.entries.get i.succ).delay ≤ (t.entries.get i.castSucc).delay

/-! ## The check, row by row -/

omit [Arithmetic F] in
/-- A row is in range if its register can hold the delay. -/
theorem rangeBreach?_eq_none_iff {i : Fin size} :
    t.rangeBreach? i = none ↔ (t.entries.get i).delay ≤ t.options.width.max := by
  simp [rangeBreach?]

/-- Two rows in succession are in order if the frequency rises and the delay does not. -/
theorem orderBreach?_eq_none_iff {i : Fin 255} :
    t.orderBreach? i = none ↔
      (t.entries.get i.castSucc).frequency < (t.entries.get i.succ).frequency ∧
      (t.entries.get i.succ).delay ≤ (t.entries.get i.castSucc).delay := by
  by_cases hrise : (t.entries.get i.castSucc).frequency < (t.entries.get i.succ).frequency
  · simp [orderBreach?, hrise]
  · simp [orderBreach?, hrise]

theorem breachAt?_zero_eq_none_iff :
    t.breachAt? 0 = none ↔ t.rangeBreach? 0 = none := by
  rw [breachAt?]
  cases t.rangeBreach? 0 with
  | none => simp
  | some b => simp

/-- Every row but the first is compared with the one before it. -/
theorem breachAt?_succ_eq_none_iff {i : Fin 255} :
    t.breachAt? i.succ = none ↔ t.rangeBreach? i.succ = none ∧ t.orderBreach? i = none := by
  rw [breachAt?]
  cases t.rangeBreach? i.succ with
  | none => simp
  | some b => simp

theorem check_eq_ok_iff_firstBreach : t.check = .ok () ↔ t.firstBreach? = none := by
  rw [check]
  cases t.firstBreach? with
  | none => simp
  | some b => simp

/-- The check succeeds exactly on the tables that keep the laws. -/
theorem check_eq_ok_iff : t.check = .ok () ↔ t.Lawful := by
  rw [check_eq_ok_iff_firstBreach, firstBreach?, List.findSome?_eq_none_iff]
  constructor
  · intro h
    have hrow (i : Fin 255) := breachAt?_succ_eq_none_iff.mp (h i.succ (List.mem_finRange _))
    have horder (i : Fin 255) := orderBreach?_eq_none_iff.mp (hrow i).2
    refine ⟨fun i => rangeBreach?_eq_none_iff.mp ?_, fun i => (horder i).1,
      fun i => (horder i).2⟩
    cases i using Fin.cases with
    | zero => exact breachAt?_zero_eq_none_iff.mp (h 0 (List.mem_finRange _))
    | succ i => exact (hrow i).1
  · intro h i _
    cases i using Fin.cases with
    | zero => exact breachAt?_zero_eq_none_iff.mpr (rangeBreach?_eq_none_iff.mpr (h.fits 0))
    | succ i =>
      exact breachAt?_succ_eq_none_iff.mpr ⟨rangeBreach?_eq_none_iff.mpr (h.fits i.succ),
        orderBreach?_eq_none_iff.mpr ⟨h.rises i, h.falls i⟩⟩

/-! ## Any two rows -/

/-- From neighbouring rows to any two rows: delays never grow. -/
theorem Lawful.delay_antitone (h : t.Lawful) :
    Antitone fun i : Fin size => (t.entries.get i).delay.toNat :=
  Fin.antitone_iff_succ_le.mpr fun i => UInt16.le_iff_toNat_le.mp (h.falls i)

section

variable {t : Table Float}
  (h : ∀ i : Fin 255, (t.entries.get i.castSucc).frequency < (t.entries.get i.succ).frequency)

include h

/-- From neighbouring rows to any two rows: frequencies always grow. -/
theorem frequency_strictMono :
    StrictMono fun i : Fin size => Binary64.toRat (t.entries.get i).frequency :=
  Fin.strictMono_iff_lt_succ.mpr fun i => (Binary64.lt_iff.mp (h i)).2.2

theorem frequency_isNumber (i : Fin size) : Binary64.IsNumber (t.entries.get i).frequency := by
  cases i using Fin.cases with
  | zero => exact (Binary64.lt_iff.mp (h 0)).1
  | succ i => exact (Binary64.lt_iff.mp (h i)).2.1

theorem frequency_lt {i j : Fin size} (hij : i < j) :
    (t.entries.get i).frequency < (t.entries.get j).frequency :=
  Binary64.lt_iff.mpr
    ⟨frequency_isNumber h i, frequency_isNumber h j, frequency_strictMono h hij⟩

end

end StepTone.Table
