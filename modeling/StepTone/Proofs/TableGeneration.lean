/-
StepTone.Proofs.TableGeneration — the laws of the tables that are made.

Making a table looks at the frequencies of its rows and never at their delays. The delays
fall all the same: every operation between a frequency and the register is monotone, and
none of them leaves the finite numbers.

* `Table.Made` — what a table consists of that was made from the constants.
* `clamp_toNat`, `outgrows_iff` — what the register gets, and when that is not the number.
* `Made.lawful` — a table that was made keeps the laws.
-/
import StepTone.Proofs.FirmwareBounds
import StepTone.Proofs.TableCheck
import StepTone.Table.Generate

namespace StepTone.Table

open Firmware (Constants Bounds BoundsFault)
open Arithmetic (ofInt ofWord)

section

variable {F : Type} [Arithmetic F] {scale : LogScale F} {c : Constants} {o : Options}
  {t : Table F}

/-! ## The ladder -/

@[simp]
theorem ladder_zero (b : Bounds F) : (ladder scale b).get 0 = b.fMin :=
  Vector.getElem_ofFn (by decide)

@[simp]
theorem ladder_last (b : Bounds F) : (ladder scale b).get (Fin.last 255) = b.fMax :=
  Vector.getElem_ofFn (by decide)

theorem ladder_inner (b : Bounds F) {i : Fin size} (hzero : i.val ≠ 0) (hlast : i.val ≠ 255) :
    (ladder scale b).get i = scale.exp (scale.log b.fMin +
      (scale.log b.fMax - scale.log b.fMin) * ofInt i.val / ofInt 255) :=
  (Vector.getElem_ofFn i.isLt).trans (by rw [if_neg hzero, if_neg hlast])

/-- There is no stall exactly if every row is above the one before it. -/
theorem firstStall_eq_none_iff {l : Vector F size} :
    firstStall l = none ↔ ∀ i : Fin 255, l.get i.castSucc < l.get i.succ := by
  simp [firstStall]

/-! ## What is made -/

/-- The number of halts of a row, rounded to a whole number. -/
def Entry.halts (e : Entry F) : ℤ :=
  Arithmetic.round e.exact

/-- What a table consists of that was made from the constants. -/
structure Made (scale : LogScale F) (c : Constants) (o : Options) (t : Table F) : Prop where
  constants : t.constants = c
  options : t.options = o.withDefault
  built : t.options.width.isBuilt = true
  bounds : c.bounds = .ok t.bounds
  climbs : firstStall (ladder scale t.bounds) = none
  row : ∀ i, t.entries.get i =
    .sample c t.options.width i.val ((ladder scale t.bounds).get i)

/-- Every table that is generated is made row by row from the ladder. -/
theorem made_of_generate (h : generate scale c o = .ok t) : Made scale c o t := by
  rw [generate] at h
  cases hbuilt : o.withDefault.width.isBuilt with
  | false =>
    rw [hbuilt] at h
    cases h
  | true =>
    cases hbounds : (c.bounds : Except (BoundsFault F) (Bounds F)) with
    | error e =>
      rw [hbuilt, hbounds] at h
      cases h
    | ok b =>
      simp only [hbuilt, hbounds, Except.mapError, bind, Except.bind] at h
      cases hclimbs : firstStall (ladder scale b) with
      | some row =>
        rw [hclimbs] at h
        cases h
      | none =>
        rw [hclimbs] at h
        cases h
        exact ⟨rfl, rfl, hbuilt, hbounds, hclimbs, fun i => Vector.getElem_ofFn i.isLt⟩

/-- A ladder that climbs makes a table. -/
theorem generate_eq_ok {b : Bounds F} (hbuilt : o.withDefault.width.isBuilt = true)
    (hbounds : c.bounds = .ok b) (hclimbs : firstStall (ladder scale b) = none) :
    generate scale c o = .ok {
      constants := c, bounds := b, options := o.withDefault,
      entries := Vector.ofFn fun i =>
        .sample c o.withDefault.width i.val ((ladder scale b).get i) } := by
  rw [generate, hbounds]
  simp only [hbuilt, Except.mapError, bind, Except.bind, hclimbs]
  rfl

namespace Made

theorem sound (h : Made scale c o t) : c.Sound :=
  (Constants.bounds_eq_ok_iff.mp h.bounds).1

theorem bounds_eq (h : Made scale c o t) : t.bounds = c.limits :=
  (Constants.bounds_eq_ok_iff.mp h.bounds).2.2

/-- Frequencies rise, since a ladder that stalls is refused. -/
theorem rises (h : Made scale c o t) (i : Fin 255) :
    (t.entries.get i.castSucc).frequency < (t.entries.get i.succ).frequency := by
  rw [h.row, h.row]
  exact firstStall_eq_none_iff.mp h.climbs i

theorem frequency_zero (h : Made scale c o t) : (t.entries.get 0).frequency = t.bounds.fMin := by
  rw [h.row]
  exact ladder_zero t.bounds

theorem frequency_last (h : Made scale c o t) :
    (t.entries.get (Fin.last 255)).frequency = t.bounds.fMax := by
  rw [h.row]
  exact ladder_last t.bounds

theorem index_eq (h : Made scale c o t) (i : Fin size) : (t.entries.get i).index = i := by
  rw [h.row]
  rfl

theorem exact_eq (h : Made scale c o t) (i : Fin size) :
    (t.entries.get i).exact = c.delayForFrequency (t.entries.get i).frequency := by
  rw [h.row]
  rfl

/-- The register gets the rounded number of halts, moved into its range. -/
theorem delay_eq (h : Made scale c o t) (i : Fin size) :
    (t.entries.get i).delay = clamp t.options.width (t.entries.get i).halts := by
  rw [h.row]
  rfl

theorem clamped_eq (h : Made scale c o t) (i : Fin size) :
    (t.entries.get i).clamped = outgrows t.options.width (t.entries.get i).halts := by
  rw [h.row]
  rfl

end Made

end

/-! ## The register -/

/-- The register gets the number of halts, moved into its range. -/
theorem clamp_toNat (w : Width) (n : ℤ) :
    ((clamp w n).toNat : ℤ) = max 0 (min n w.max.toNat) := by
  have hmax : w.max.toNat < 65536 := w.max.toNat_lt
  rw [clamp]
  split
  · have : ((0 : UInt16).toNat : ℤ) = 0 := rfl
    omega
  · split
    · omega
    · have : (UInt16.ofNat n.toNat).toNat = n.toNat :=
        UInt16.toNat_ofNat_of_lt (by simp only [UInt16.size]; omega)
      omega

/-- Moving numbers into the range of a register keeps their order. -/
theorem clamp_mono (w : Width) {m n : ℤ} (h : m ≤ n) : clamp w m ≤ clamp w n := by
  have hm := clamp_toNat w m
  have hn := clamp_toNat w n
  rw [UInt16.le_iff_toNat_le]
  omega

theorem clamp_le (w : Width) (n : ℤ) : clamp w n ≤ w.max := by
  have hn := clamp_toNat w n
  rw [UInt16.le_iff_toNat_le]
  omega

theorem outgrows_iff (w : Width) (n : ℤ) :
    outgrows w n = true ↔ ¬ (0 ≤ n ∧ n ≤ w.max.toNat) := by
  rw [outgrows, Bool.or_eq_true, decide_eq_true_iff, decide_eq_true_iff]
  omega

/-! ## The laws -/

namespace Made

open Binary64

variable {scale : LogScale Float} {c : Constants} {o : Options} {t : Table Float}

/-- Every frequency lies between the bounds, so it is positive and finite. -/
theorem within_frequency (h : Made scale c o t) (i : Fin size) :
    Within (t.entries.get i).frequency (-80) 63 := by
  have hmono := frequency_strictMono h.rises
  have hlow := hmono.monotone (Fin.zero_le i)
  have hhigh := hmono.monotone (Fin.le_last i)
  simp only [h.frequency_zero, h.frequency_last, h.bounds_eq] at hlow hhigh
  exact ⟨frequency_isNumber h.rises i, h.sound.within_fMin.lower.trans hlow,
    hhigh.trans h.sound.within_fMax.upper⟩

theorem isFinite_exact (h : Made scale c o t) (i : Fin size) :
    isFinite (t.entries.get i).exact = true := by
  rw [h.exact_eq]
  exact h.sound.isFinite_halts (h.within_frequency i)

/-- The halts of a row, as a function of the rational behind its frequency. -/
theorem halts_eq (h : Made scale c o t) (i : Fin size) :
    (t.entries.get i).halts =
      halfAway (c.roundedHalts (toRat (t.entries.get i).frequency)) := by
  obtain ⟨hnumber, hvalue⟩ := h.sound.denotes_halts (h.within_frequency i)
  rw [Entry.halts, h.exact_eq, ← hvalue]
  exact roundHalfAway_eq hnumber

/-- Higher frequencies need fewer halts, and neither rounding nor clamping turns the order
around. -/
theorem falls (h : Made scale c o t) (i : Fin 255) :
    (t.entries.get i.succ).delay ≤ (t.entries.get i.castSucc).delay := by
  have hpos := (h.within_frequency i.castSucc).pos
  have hrise := (lt_iff.mp (h.rises i)).2.2
  rw [h.delay_eq, h.delay_eq, h.halts_eq, h.halts_eq]
  exact clamp_mono _ (halfAway_mono (h.sound.roundedHalts_anti hpos hrise.le))

theorem lawful (h : Made scale c o t) : t.Lawful :=
  ⟨fun i => h.delay_eq i ▸ clamp_le _ _, h.rises, h.falls⟩

end Made

/-! ## A table with rows half a hertz apart -/

namespace HalfHertz

open Binary64

/-- A scale on which the inner rows of the usual constants lie half a hertz apart. -/
def scale : LogScale Float where
  exp x := (ofInt 100 + x) / ofInt 2
  log f := if f < ofInt 100 then ofInt 0 else ofInt 255

/-- The bounds of the usual constants. -/
def limits : Bounds Float := ({} : Constants).limits

/-- The table of the usual constants on this scale. -/
def table : Table Float where
  constants := {}
  bounds := limits
  options := {}
  entries := Vector.ofFn fun i => .sample {} .eight i.val ((ladder scale limits).get i)

theorem bounds_eq : ({} : Constants).bounds = .ok limits := by
  have hspread : ofInt 1 < limits.ratio := by decide +kernel
  refine Constants.bounds_eq_ok_iff.mpr ⟨⟨?_, by decide⟩, hspread, rfl⟩
  exact Constants.firstNonPositive_eq_none_iff.mp (by decide)

theorem exp_eq (x : Float) : scale.exp x = (ofInt 100 + x) / ofInt 2 :=
  rfl

theorem log_eq (f : Float) : scale.log f = if f < ofInt 100 then ofInt 0 else ofInt 255 :=
  rfl

theorem log_fMin : scale.log limits.fMin = ofInt 0 := by
  have hlow : limits.fMin < ofInt 100 := by decide +kernel
  rw [log_eq, if_pos hlow]

theorem log_fMax : scale.log limits.fMax = ofInt 255 := by
  have hhigh : ¬ limits.fMax < ofInt 100 := by decide +kernel
  rw [log_eq, if_neg hhigh]

theorem denotes_rung {i : Fin size} (hfirst : i.val ≠ 0) (hlast : i.val ≠ 255) :
    Denotes ((ladder scale limits).get i) (50 + i / 2) := by
  have hi : i.val < 256 := i.isLt
  have hzero := holds_ofInt (n := 0) (by norm_num)
  have htop := holds_ofInt (n := 255) (by norm_num)
  have hspan := (htop.sub hzero (by norm_num)).mul (holds_ofInt (n := i) (by omega)) (by omega)
  have hpart := hspan.div htop (by norm_num) (by omega)
  have hsum := (holds_ofInt (n := 100) (by norm_num)).add (hzero.add hpart (by omega)) (by omega)
  have hvalue : ((100 + (0 + i) : ℕ) : ℚ) / 2 = 50 + i / 2 := by
    push_cast
    ring
  rw [ladder_inner _ hfirst hlast, exp_eq, log_fMin, log_fMax, ← hvalue]
  exact hsum.half

/-- A ladder climbs whose inner rungs are half a hertz apart, whatever the scale. -/
theorem climbs_of_rungs {scale : LogScale Float}
    (hrungs : ∀ i : Fin size, i.val ≠ 0 → i.val ≠ 255 →
      Denotes ((ladder scale limits).get i) (50 + i / 2)) :
    firstStall (ladder scale limits) = none := by
  have hlow : limits.fMin < ofInt 50 := by decide +kernel
  have hhigh : ofInt 180 < limits.fMax := by decide +kernel
  have hfifty := (holds_ofInt (n := 50) (by norm_num)).denotes
  have htop := (holds_ofInt (n := 180) (by norm_num)).denotes
  refine firstStall_eq_none_iff.mpr fun i => ?_
  have hi : i.val < 255 := i.isLt
  have hnext : i.succ.val ≠ 0 := Nat.succ_ne_zero i.val
  have hcast : (i.castSucc.val : ℚ) = i := rfl
  have hsucc : (i.succ.val : ℚ) = i + 1 := by simp
  rcases Nat.eq_zero_or_pos i.val with hzero | hpos
  · have hfirst : i.castSucc = (0 : Fin size) := Fin.ext hzero
    have hrung := hrungs i.succ hnext (by rw [Fin.val_succ]; omega)
    rw [hfirst, ladder_zero]
    refine float_lt_trans hlow (hfifty.lt hrung ?_)
    rw [hsucc, hzero]
    norm_num
  · have hrung := hrungs i.castSucc (by rw [Fin.val_castSucc]; omega)
      (by rw [Fin.val_castSucc]; omega)
    rcases Nat.lt_or_ge i.val 254 with hlt | hge
    · refine hrung.lt (hrungs i.succ hnext (by rw [Fin.val_succ]; omega)) ?_
      rw [hsucc, hcast]
      linarith
    · have hlast : i.succ = Fin.last 255 := Fin.ext (by rw [Fin.val_succ, Fin.val_last]; omega)
      rw [hlast, ladder_last]
      refine float_lt_trans (hrung.lt htop ?_) hhigh
      rw [hcast, show i.val = 254 by omega]
      norm_num

theorem climbs : firstStall (ladder scale limits) = none :=
  climbs_of_rungs fun _ => denotes_rung

theorem generate_eq : generate scale {} {} = .ok table :=
  generate_eq_ok (o := {}) rfl bounds_eq climbs

end HalfHertz

/-! ## Every table that is made -/

/-- A table that is made keeps the laws and passes its check. Its rows stand in order from
the lowest to the highest frequency; each holds the number of halts for its frequency, a
finite number, moved into the range of the register, and says whether it had to be moved. -/
theorem generate_lawful {scale : LogScale Float} {c : Constants} {o : Options}
    {t : Table Float} (h : generate scale c o = .ok t) :
    t.check = .ok () ∧
    (∀ i j, i < j → (t.entries.get i).frequency < (t.entries.get j).frequency) ∧
    (∀ i, (t.entries.get i).delay ≤ t.options.width.max) ∧
    (∀ i j, i ≤ j → (t.entries.get j).delay ≤ (t.entries.get i).delay) ∧
    c.bounds = .ok t.bounds ∧
    (t.entries.get 0).frequency = t.bounds.fMin ∧
    (t.entries.get (Fin.last 255)).frequency = t.bounds.fMax ∧
    ∀ i, (t.entries.get i).index = i ∧
      (t.entries.get i).exact = c.delayForFrequency (t.entries.get i).frequency ∧
      Binary64.isFinite (t.entries.get i).exact = true ∧
      ((t.entries.get i).delay.toNat : ℤ) =
        max 0 (min (t.entries.get i).halts t.options.width.max.toNat) ∧
      ((t.entries.get i).clamped = true ↔
        ¬ (0 ≤ (t.entries.get i).halts ∧
          (t.entries.get i).halts ≤ t.options.width.max.toNat)) := by
  have hmade := made_of_generate h
  have hlaws := hmade.lawful
  refine ⟨check_eq_ok_iff.mpr hlaws, fun i j => frequency_lt hlaws.rises, hlaws.fits, ?_,
    hmade.bounds, hmade.frequency_zero, hmade.frequency_last, fun i => ?_⟩
  · intro i j hij
    exact UInt16.le_iff_toNat_le.mpr (hlaws.delay_antitone hij)
  · refine ⟨hmade.index_eq i, hmade.exact_eq i, hmade.isFinite_exact i, ?_, ?_⟩
    · rw [hmade.delay_eq]
      exact clamp_toNat _ _
    · rw [hmade.clamped_eq]
      exact outgrows_iff _ _

/-- The table with rows half a hertz apart is made, so it passes its check. -/
theorem halfHertz_lawful : generate HalfHertz.scale {} {} = .ok HalfHertz.table ∧
    HalfHertz.table.check = .ok () :=
  ⟨HalfHertz.generate_eq, (generate_lawful HalfHertz.generate_eq).1⟩

end StepTone.Table
