/-
StepTone.Proofs.FirstBreach — the row that the check of a table reports.

The check compares every row with the one before it and stops at the first row that fails.
The laws speak of any two rows. Up to the row that is reported nothing is broken, so there
the two come to the same: a frequency above the one before is above all the earlier ones,
and a delay not above the one before is not above any of them.

* `LawfulUpTo` — the laws for any two of the rows up to one.
* `lawfulUpTo_succ`, `lawfulUpTo_iff` — one more row keeps them where no breach is found at
  it, so they hold up to a row where none is found so far.
* `Complaint` — what has to be said of the first row that breaks a law.
* `check_reports_first_breach` — the check decides the laws, and else names that row.
-/
import Mathlib.Order.Bounds.Basic
import StepTone.Proofs.TableCheck

namespace StepTone.Table

variable {t : Table Float} {i : Fin size}

/-! ## The rows up to one -/

/-- The rows up to one keep the laws, any two of them. -/
structure LawfulUpTo (t : Table Float) (i : Fin size) : Prop where
  fits : ∀ j ≤ i, (t.entries.get j).delay ≤ t.options.width.max
  rises : ∀ j k, j < k → k ≤ i → (t.entries.get j).frequency < (t.entries.get k).frequency
  falls : ∀ j k, j < k → k ≤ i → (t.entries.get k).delay ≤ (t.entries.get j).delay

/-- Behind rows that keep the laws, a frequency that is above the one before is above all of
them. -/
theorem LawfulUpTo.rises_iff {i : Fin 255} (h : t.LawfulUpTo i.castSucc) :
    (∀ j < i.succ, (t.entries.get j).frequency < (t.entries.get i.succ).frequency) ↔
      (t.entries.get i.castSucc).frequency < (t.entries.get i.succ).frequency := by
  constructor
  · intro hall
    exact hall i.castSucc i.castSucc_lt_succ
  · intro hlast j hj
    rcases (Fin.le_castSucc_iff.mpr hj).eq_or_lt with rfl | hlt
    · exact hlast
    · exact Binary64.float_lt_trans (h.rises j i.castSucc hlt le_rfl) hlast

/-- Behind rows that keep the laws, a delay that is not above the one before is not above any
of them. -/
theorem LawfulUpTo.falls_iff {i : Fin 255} (h : t.LawfulUpTo i.castSucc) :
    (∀ j < i.succ, (t.entries.get i.succ).delay ≤ (t.entries.get j).delay) ↔
      (t.entries.get i.succ).delay ≤ (t.entries.get i.castSucc).delay := by
  constructor
  · intro hall
    exact hall i.castSucc i.castSucc_lt_succ
  · intro hlast j hj
    rcases (Fin.le_castSucc_iff.mpr hj).eq_or_lt with rfl | hlt
    · exact hlast
    · exact UInt16.le_trans hlast (h.falls j i.castSucc hlt le_rfl)

theorem lawfulUpTo_zero : t.LawfulUpTo 0 ↔ t.breachAt? 0 = none := by
  rw [breachAt?_zero_eq_none_iff, rangeBreach?_eq_none_iff]
  constructor
  · intro h
    exact h.fits 0 le_rfl
  · intro h
    refine ⟨fun j hj => ?_, fun j k hjk hk => ?_, fun j k hjk hk => ?_⟩
    · rwa [Fin.le_zero_iff.mp hj]
    · exact absurd (hjk.trans_le hk) (Fin.not_lt_zero j)
    · exact absurd (hjk.trans_le hk) (Fin.not_lt_zero j)

/-- One more row keeps the laws exactly where no breach is found at it. -/
theorem lawfulUpTo_succ {i : Fin 255} :
    t.LawfulUpTo i.succ ↔ t.LawfulUpTo i.castSucc ∧ t.breachAt? i.succ = none := by
  have hstep {j : Fin size} : j ≤ i.succ ↔ j ≤ i.castSucc ∨ j = i.succ := by
    rw [Fin.le_castSucc_iff, le_iff_lt_or_eq]
  rw [breachAt?_succ_eq_none_iff, rangeBreach?_eq_none_iff, orderBreach?_eq_none_iff]
  constructor
  · intro h
    have hbefore {j : Fin size} (hj : j ≤ i.castSucc) : j ≤ i.succ := hstep.mpr (.inl hj)
    exact ⟨⟨fun j hj => h.fits j (hbefore hj), fun j k hjk hk => h.rises j k hjk (hbefore hk),
        fun j k hjk hk => h.falls j k hjk (hbefore hk)⟩,
      h.fits i.succ le_rfl, h.rises _ _ i.castSucc_lt_succ le_rfl,
      h.falls _ _ i.castSucc_lt_succ le_rfl⟩
  · rintro ⟨h, hfits, hrises, hfalls⟩
    refine ⟨fun j hj => ?_, fun j k hjk hk => ?_, fun j k hjk hk => ?_⟩
    · rcases hstep.mp hj with hj | rfl
      · exact h.fits j hj
      · exact hfits
    · rcases hstep.mp hk with hk | rfl
      · exact h.rises j k hjk hk
      · exact h.rises_iff.mpr hrises j hjk
    · rcases hstep.mp hk with hk | rfl
      · exact h.falls j k hjk hk
      · exact h.falls_iff.mpr hfalls j hjk

/-- The laws hold up to a row exactly where no breach is found so far. -/
theorem lawfulUpTo_iff : t.LawfulUpTo i ↔ ∀ j ≤ i, t.breachAt? j = none := by
  induction i using Fin.induction with
  | zero =>
    rw [lawfulUpTo_zero]
    constructor
    · intro h j hj
      rwa [Fin.le_zero_iff.mp hj]
    · intro h
      exact h 0 le_rfl
  | succ i ih =>
    rw [lawfulUpTo_succ, ih]
    constructor
    · rintro ⟨hbefore, hrow⟩ j hj
      rcases hj.eq_or_lt with rfl | hlt
      · exact hrow
      · exact hbefore j (Fin.le_castSucc_iff.mpr hlt)
    · intro h
      exact ⟨fun j hj => h j (Fin.le_castSucc_iff.mp hj).le, h i.succ le_rfl⟩

/-- The laws of a table are those of all its rows. -/
theorem lawfulUpTo_last : t.LawfulUpTo (Fin.last 255) ↔ t.check = .ok () := by
  rw [lawfulUpTo_iff, check_eq_ok_iff_firstBreach, firstBreach?, List.findSome?_eq_none_iff]
  exact ⟨fun h j _ => h j (Fin.le_last j), fun h j _ => h j (List.mem_finRange j)⟩

/-! ## The first breach -/

/-- The row is the first one at which the rows up to it break a law. -/
def IsFirstBroken (t : Table Float) (i : Fin size) : Prop :=
  IsLeast {j | ¬ t.LawfulUpTo j} i

theorem isFirstBroken_iff :
    t.IsFirstBroken i ↔ t.breachAt? i ≠ none ∧ ∀ j < i, t.breachAt? j = none := by
  constructor
  · rintro ⟨hbroken, hleast⟩
    have hbefore : ∀ j < i, t.breachAt? j = none := by
      intro j hj
      have hlawful : t.LawfulUpTo j := by
        by_contra hnot
        exact absurd (hleast hnot) (not_le.mpr hj)
      exact lawfulUpTo_iff.mp hlawful j le_rfl
    refine ⟨fun hnone => hbroken (lawfulUpTo_iff.mpr fun j hj => ?_), hbefore⟩
    rcases hj.eq_or_lt with rfl | hlt
    · exact hnone
    · exact hbefore j hlt
  · rintro ⟨hbreach, hbefore⟩
    refine ⟨fun hlawful => hbreach (lawfulUpTo_iff.mp hlawful i le_rfl), fun j hj => ?_⟩
    by_contra hlt
    exact hj (lawfulUpTo_iff.mpr fun k hk => hbefore k (hk.trans_lt (not_le.mp hlt)))

theorem firstBreach?_eq_some_iff {b : Breach} :
    t.firstBreach? = some b ↔ ∃ i, t.IsFirstBroken i ∧ t.breachAt? i = some b := by
  rw [firstBreach?, ← Fin.findSome?_eq_findSome?_finRange, Fin.findSome?_eq_some_iff]
  refine exists_congr fun i => ?_
  rw [isFirstBroken_iff]
  constructor
  · rintro ⟨hbreach, hbefore⟩
    exact ⟨⟨by simp [hbreach], hbefore⟩, hbreach⟩
  · rintro ⟨⟨-, hbefore⟩, hbreach⟩
    exact ⟨hbreach, hbefore⟩

/-! ## What is said of it -/

/-- What has to be said of the first row that breaks a law: that its delay does not fit the
register; or else that its frequency is not above all the earlier ones; or else that its delay
is above an earlier one. -/
inductive Complaint (t : Table Float) (i : Fin size) : String → Prop
  | register (h : t.options.width.max < (t.entries.get i).delay) :
    Complaint t i ("entry " ++ toString i.val ++ " delay "
      ++ toString (t.entries.get i).delay.toNat ++ " exceeds register max "
      ++ toString t.options.width.max.toNat)
  | frequency (hfits : (t.entries.get i).delay ≤ t.options.width.max)
    (h : ¬ ∀ j < i, (t.entries.get j).frequency < (t.entries.get i).frequency) :
    Complaint t i ("frequency not increasing at entry " ++ toString i.val)
  | delay (hfits : (t.entries.get i).delay ≤ t.options.width.max)
    (hrises : ∀ j < i, (t.entries.get j).frequency < (t.entries.get i).frequency)
    (h : ¬ ∀ j < i, (t.entries.get i).delay ≤ (t.entries.get j).delay) :
    Complaint t i ("delay increases at entry " ++ toString i.val)

/-- The three faults exclude each other. -/
theorem Complaint.unique {m m' : String} (h : t.Complaint i m) (h' : t.Complaint i m') :
    m = m' := by
  cases h with
  | register hrange =>
    cases h' with
    | register => rfl
    | frequency hfits => exact absurd hrange (UInt16.not_lt.mpr hfits)
    | delay hfits => exact absurd hrange (UInt16.not_lt.mpr hfits)
  | frequency hfits hstall =>
    cases h' with
    | register hrange => exact absurd hrange (UInt16.not_lt.mpr hfits)
    | frequency => rfl
    | delay _ hrises => exact absurd hrises hstall
  | delay hfits hrises =>
    cases h' with
    | register hrange => exact absurd hrange (UInt16.not_lt.mpr hfits)
    | frequency _ hstall => exact absurd hrises hstall
    | delay => rfl

/-- The breach that is found at the first broken row is the one that has to be reported. -/
theorem exists_complaint {b : Breach} (hfirst : t.IsFirstBroken i) (h : t.breachAt? i = some b) :
    ∃ message, t.Complaint i message ∧ b.toFault = .coded { code := .tableRange, message } := by
  rw [breachAt?] at h
  by_cases hrange : t.options.width.max < (t.entries.get i).delay
  · rw [rangeBreach?, if_pos hrange] at h
    obtain rfl := Option.some.inj h
    exact ⟨_, .register hrange, rfl⟩
  · have hfits : (t.entries.get i).delay ≤ t.options.width.max := UInt16.not_lt.mp hrange
    rw [rangeBreach?_eq_none_iff.mpr hfits] at h
    cases i using Fin.cases with
    | zero => cases h
    | succ i =>
      have hbefore : t.LawfulUpTo i.castSucc := by
        by_contra hnot
        exact absurd (hfirst.2 hnot) (not_le.mpr i.castSucc_lt_succ)
      replace h : t.orderBreach? i = some b := h
      rw [orderBreach?] at h
      by_cases hrises :
          (t.entries.get i.castSucc).frequency < (t.entries.get i.succ).frequency
      · rw [if_neg (not_not.mpr hrises)] at h
        obtain ⟨hdelay, h⟩ := Option.ite_none_right_eq_some.mp h
        obtain rfl := Option.some.inj h
        have hjumps := mt hbefore.falls_iff.mp (UInt16.not_le.mpr hdelay)
        exact ⟨_, .delay hfits (hbefore.rises_iff.mpr hrises) hjumps, rfl⟩
      · rw [if_pos hrises] at h
        obtain rfl := Option.some.inj h
        exact ⟨_, .frequency hfits (mt hbefore.rises_iff.mp hrises), rfl⟩

theorem check_eq_error_iff {fault : Fault} :
    t.check = .error fault ↔ ∃ b, t.firstBreach? = some b ∧ fault = b.toFault := by
  rw [check]
  cases t.firstBreach? with
  | none => simp
  | some b => simp [eq_comm]

/-- The check of a table succeeds exactly where every delay fits the register and, for any two
rows, the later one has the higher frequency and no larger delay; then every frequency is a
number. Else it fails under one code and names the first row at which the rows up to it break
a law; of several laws that this row breaks, that of the register comes first, then that of
the frequencies. -/
theorem check_reports_first_breach (t : Table Float) :
    (t.check = .ok () ↔
      (∀ i, (t.entries.get i).delay ≤ t.options.width.max) ∧
      (∀ i j, i < j → (t.entries.get i).frequency < (t.entries.get j).frequency) ∧
      ∀ i j, i < j → (t.entries.get j).delay ≤ (t.entries.get i).delay) ∧
    (t.check = .ok () → ∀ i, Binary64.IsNumber (t.entries.get i).frequency) ∧
    ∀ fault, t.check = .error fault ↔
      ∃ i message, t.IsFirstBroken i ∧ t.Complaint i message ∧
        fault = .coded { code := .tableRange, message } := by
  refine ⟨?_, fun h => frequency_isNumber (check_eq_ok_iff.mp h).rises, fun fault => ?_⟩
  · rw [← lawfulUpTo_last]
    constructor
    · intro h
      exact ⟨fun i => h.fits i (Fin.le_last i), fun i j hij => h.rises i j hij (Fin.le_last j),
        fun i j hij => h.falls i j hij (Fin.le_last j)⟩
    · rintro ⟨hfits, hrises, hfalls⟩
      exact ⟨fun j _ => hfits j, fun j k hjk _ => hrises j k hjk, fun j k hjk _ => hfalls j k hjk⟩
  · rw [check_eq_error_iff]
    constructor
    · rintro ⟨b, hfirst, rfl⟩
      obtain ⟨i, hbroken, hbreach⟩ := firstBreach?_eq_some_iff.mp hfirst
      obtain ⟨message, hcomplaint, hfault⟩ := exists_complaint hbroken hbreach
      exact ⟨i, message, hbroken, hcomplaint, hfault⟩
    · rintro ⟨i, message, hbroken, hcomplaint, rfl⟩
      obtain ⟨b, hbreach⟩ := Option.ne_none_iff_exists'.mp (isFirstBroken_iff.mp hbroken).1
      obtain ⟨message', hcomplaint', hfault⟩ := exists_complaint hbroken hbreach
      refine ⟨b, firstBreach?_eq_some_iff.mpr ⟨i, hbroken, hbreach⟩, ?_⟩
      rw [hfault, hcomplaint.unique hcomplaint']

end StepTone.Table
