/-
StepTone.Proofs.PitchOrder — a higher frequency never gets a lower row.

The row nearest to a frequency is found in three regimes: below the bounds, above them, and
between them by a formula that is rounded and then moved into the positions of the table. All
that the formula does keeps the order, and so do the two seams. Of the logarithm nothing is
known but that it never falls and is positive at the ratio of the bounds, so its values may be
infinite; the lemmas about doubles here do not exclude this.

* `Scales` — a map of doubles that multiplies by a positive number, infinities included.
* `scales_div`, `scales_mul`, `Scales.mono` — dividing and multiplying keep the order.
* `Vanishes` — a double that is zero or undefined, which is what an infinite divisor leaves.
* `gauge` — the formula between the bounds; `gauge_mono`, `gauge_le` — its order, and that it
  never passes the last row.
* `nearestIndex_keeps_order` — the three regimes together.
-/
import StepTone.Proofs.TableGeneration

namespace StepTone

namespace Binary64

open Float.Model (Format UnpackedFloat)
open Float.Model.UnpackedFloat

variable {x y c : Float}

/-! ## Infinite doubles -/

theorem unpack_packed_infinity (s : Sign) : (packed (.infinity s)).toModel.unpack = .infinity s :=
  (unpack_packed _).trans (unpack_packedInfinity s)

theorem unpack_packed_zero (s : Sign) : (packed (.zero s)).toModel.unpack = .zero s :=
  (unpack_packed _).trans (unpack_packedZero s)

theorem unpack_packed_notANumber : (packed .notANumber).toModel.unpack = .notANumber :=
  rfl

/-- A number that is not finite is one of the two infinities. -/
theorem unpack_of_not_isFinite (hx : IsNumber x) (h : ¬ isFinite x = true) :
    ∃ s, x.toModel.unpack = .infinity s := by
  rw [isFinite_eq] at h
  rw [isNumber_iff] at hx
  cases hu : x.toModel.unpack with
  | notANumber => exact absurd hu hx
  | infinity s => exact ⟨s, rfl⟩
  | zero s => exact absurd (hu ▸ rfl) h
  | finite s m e hm => exact absurd (hu ▸ rfl) h

theorem toRat_of_not_isFinite (hx : IsNumber x) (h : ¬ isFinite x = true) :
    toRat x = beyond ∨ toRat x = -beyond := by
  obtain ⟨s, hu⟩ := unpack_of_not_isFinite hx h
  rw [← ratOf_unpack, hu, ratOf_infinity]
  cases s with
  | negative => exact .inr rfl
  | positive => exact .inl rfl

/-- All numbers lie between the two infinities. -/
theorem abs_toRat_le_beyond (hx : IsNumber x) : |toRat x| ≤ beyond := by
  by_cases h : isFinite x = true
  · exact (isFinite_iff.mp h).2.le
  · rcases toRat_of_not_isFinite hx h with hb | hb
    · rw [hb, abs_of_pos beyond_pos]
    · rw [hb, abs_neg, abs_of_pos beyond_pos]

/-- A finite number above zero has a mantissa and a positive sign. -/
theorem unpack_of_pos (hc : isFinite c = true) (hpos : 0 < toRat c) :
    ∃ m e hm, c.toModel.unpack = .finite .positive m e hm := by
  rw [isFinite_eq] at hc
  rw [← ratOf_unpack] at hpos
  cases hu : c.toModel.unpack with
  | notANumber =>
    rw [hu] at hc
    cases hc
  | infinity s =>
    rw [hu] at hc
    cases hc
  | zero s =>
    rw [hu, ratOf_zero] at hpos
    exact absurd hpos (lt_irrefl 0)
  | finite s m e hm =>
    cases s with
    | positive => exact ⟨m, e, hm, rfl⟩
    | negative =>
      rw [hu, ratOf_finite, withSign_negative] at hpos
      have := dyadic_pos hm e
      linarith

/-! ## Scaling -/

/-- The map multiplies by a positive number and rounds; an infinity stays what it is. -/
structure Scales (f : Float → Float) (k : ℚ) : Prop where
  pos : 0 < k
  finite : ∀ x, isFinite x = true → Denotes (f x) (rounded (toRat x * k))
  infinite : ∀ x, IsNumber x → ¬ isFinite x = true → Denotes (f x) (toRat x)

namespace Scales

variable {f : Float → Float} {k : ℚ}

theorem isNumber (h : Scales f k) (hx : IsNumber x) : IsNumber (f x) := by
  by_cases hfinite : isFinite x = true
  · exact (h.finite x hfinite).isNumber
  · exact (h.infinite x hx hfinite).isNumber

theorem mono (h : Scales f k) (hxy : x ≤ y) : f x ≤ f y := by
  obtain ⟨hx, hy, hle⟩ := le_iff.mp hxy
  have hfx := abs_le.mp (abs_toRat_le_beyond (h.isNumber hx))
  have hfy := abs_le.mp (abs_toRat_le_beyond (h.isNumber hy))
  refine le_iff.mpr ⟨h.isNumber hx, h.isNumber hy, ?_⟩
  by_cases hfinite : isFinite x = true
  · by_cases hfinite' : isFinite y = true
    · rw [(h.finite x hfinite).toRat_eq, (h.finite y hfinite').toRat_eq]
      exact rounded_mono (mul_le_mul_of_nonneg_right hle h.pos.le)
    · -- above a finite number only the positive infinity is left
      rcases toRat_of_not_isFinite hy hfinite' with hb | hb
      · rw [(h.infinite y hy hfinite').toRat_eq, hb]
        exact hfx.2
      · have := abs_lt.mp (isFinite_iff.mp hfinite).2
        linarith
  · rcases toRat_of_not_isFinite hx hfinite with hb | hb
    · -- nothing is above the positive infinity but itself
      have hylast : toRat y = beyond := le_antisymm (abs_le.mp (abs_toRat_le_beyond hy)).2 (hb ▸ hle)
      have hinfinite : ¬ isFinite y = true := by
        intro hyfinite
        have := abs_lt.mp (isFinite_iff.mp hyfinite).2
        linarith
      rw [(h.infinite x hx hfinite).toRat_eq, (h.infinite y hy hinfinite).toRat_eq]
      exact hle
    · rw [(h.infinite x hx hfinite).toRat_eq, hb]
      exact hfy.1

end Scales

theorem scales_div (hc : isFinite c = true) (hpos : 0 < toRat c) :
    Scales (· / c) (toRat c)⁻¹ where
  pos := inv_pos.mpr hpos
  finite x hx := by
    rw [← div_eq_mul_inv]
    exact denotes_div hx hc hpos.ne'
  infinite x hx hinfinite := by
    obtain ⟨s, hu⟩ := unpack_of_not_isFinite hx hinfinite
    obtain ⟨m, e, hm, hv⟩ := unpack_of_pos hc hpos
    have hquotient : x / c = packed (.infinity s) := by
      change packed (UnpackedFloat.div Format.binary64 x.toModel.unpack c.toModel.unpack) = _
      rw [hu, hv]
      cases s <;> rfl
    rw [← ratOf_unpack, hu, hquotient]
    exact denotes_of_unpack (unpack_packed_infinity s) nofun

theorem scales_mul (hc : isFinite c = true) (hpos : 0 < toRat c) : Scales (· * c) (toRat c) where
  pos := hpos
  finite x hx := denotes_mul hx hc
  infinite x hx hinfinite := by
    obtain ⟨s, hu⟩ := unpack_of_not_isFinite hx hinfinite
    obtain ⟨m, e, hm, hv⟩ := unpack_of_pos hc hpos
    have hproduct : x * c = packed (.infinity s) := by
      change packed (UnpackedFloat.mul Format.binary64 x.toModel.unpack c.toModel.unpack) = _
      rw [hu, hv]
      cases s <;> rfl
    rw [← ratOf_unpack, hu, hproduct]
    exact denotes_of_unpack (unpack_packed_infinity s) nofun

theorem roundHalfAway_mono (h : x ≤ y) : roundHalfAway x ≤ roundHalfAway y := by
  obtain ⟨hx, hy, hle⟩ := le_iff.mp h
  rw [roundHalfAway_eq hx, roundHalfAway_eq hy]
  exact halfAway_mono hle

/-- A finite number above zero goes once into itself. -/
theorem denotes_div_self (hc : isFinite c = true) (hpos : 0 < toRat c) : Denotes (c / c) 1 := by
  have hquotient := denotes_div hc hc hpos.ne'
  have hone : rounded 1 = 1 := by exact_mod_cast rounded_natCast (n := 1) (by norm_num)
  rwa [div_self hpos.ne', hone] at hquotient

/-! ## An infinite divisor -/

/-- The double is zero, or undefined. -/
def Vanishes (x : Float) : Prop :=
  x.toModel.unpack = .notANumber ∨ ∃ s, x.toModel.unpack = .zero s

theorem vanishes_div (hc : IsNumber c) (hinfinite : ¬ isFinite c = true) (x : Float) :
    Vanishes (x / c) := by
  obtain ⟨s, hv⟩ := unpack_of_not_isFinite hc hinfinite
  have hquotient : x / c = packed
      (UnpackedFloat.div Format.binary64 x.toModel.unpack c.toModel.unpack) := rfl
  rw [Vanishes, hquotient, hv]
  cases x.toModel.unpack with
  | notANumber => exact .inl unpack_packed_notANumber
  | infinity s' => exact .inl unpack_packed_notANumber
  | zero s' => exact .inr ⟨_, unpack_packed_zero _⟩
  | finite s' m e hm => exact .inr ⟨_, unpack_packed_zero _⟩

theorem Vanishes.mul (h : Vanishes x) (hc : isFinite c = true) (hpos : 0 < toRat c) :
    Vanishes (x * c) := by
  obtain ⟨m, e, hm, hv⟩ := unpack_of_pos hc hpos
  have hproduct : x * c = packed
      (UnpackedFloat.mul Format.binary64 x.toModel.unpack c.toModel.unpack) := rfl
  rw [Vanishes, hproduct, hv]
  rcases h with hu | ⟨s, hu⟩
  · rw [hu]
    exact .inl unpack_packed_notANumber
  · rw [hu]
    exact .inr ⟨_, unpack_packed_zero _⟩

theorem Vanishes.roundHalfAway_eq_zero (h : Vanishes x) : roundHalfAway x = 0 := by
  rcases h with hu | ⟨s, hu⟩
  · have hvalue : value x = .nan := by
      rw [value_eq_ofUnpacked, hu]
      rfl
    rw [roundHalfAway, hvalue]
  · obtain ⟨hnumber, hzero⟩ := denotes_of_unpack hu nofun
    rw [roundHalfAway_eq hnumber, hzero, ratOf_zero]
    exact_mod_cast halfAway_intCast 0

end Binary64

/-- The logarithm never falls, as long as numbers above zero are put in. -/
def LogScale.Rising (scale : LogScale Float) : Prop :=
  ∀ x y : Float, Arithmetic.ofInt 0 < x → x ≤ y → scale.log x ≤ scale.log y

namespace Table

open Arithmetic (ofInt)
open Binary64
open Firmware (Constants)

/-! ## The formula between the bounds -/

theorem toPosition_toNat (n : ℤ) : ((toPosition n).val : ℤ) = max 0 (min n 255) := by
  rw [toPosition]
  split_ifs with hneg hsmall
  · change (0 : ℤ) = _
    omega
  · have : n.toNat < 256 := hsmall
    change (n.toNat : ℤ) = _
    omega
  · have : ¬ n.toNat < 256 := hsmall
    change (255 : ℤ) = _
    omega

theorem toPosition_mono {m n : ℤ} (h : m ≤ n) : toPosition m ≤ toPosition n := by
  have hm := toPosition_toNat m
  have hn := toPosition_toNat n
  rw [Fin.le_def]
  omega

/-- The position of a frequency between the bounds, before it is moved into those of the
table. -/
def gauge (scale : LogScale Float) (t : Table Float) (freq : Float) : ℤ :=
  Arithmetic.round (scale.log (freq / t.bounds.fMin) / scale.log t.bounds.ratio * ofInt 255)

theorem denotes_rows : Denotes (ofInt 255 : Float) 255 :=
  denotes_natCast (n := 255) (by norm_num)

theorem isFinite_rows : isFinite (ofInt 255) = true :=
  (holds_ofInt (n := 255) (by norm_num)).isFinite

theorem rows_pos : 0 < toRat (ofInt 255) := by
  rw [denotes_rows.toRat_eq]
  norm_num

section

variable {scale : LogScale Float} {t : Table Float} {x y : Float}

theorem gauge_of_infinite (hnumber : IsNumber (scale.log t.bounds.ratio))
    (hinfinite : ¬ isFinite (scale.log t.bounds.ratio) = true) : gauge scale t x = 0 :=
  ((vanishes_div hnumber hinfinite _).mul isFinite_rows rows_pos).roundHalfAway_eq_zero

variable (hlow : Within t.bounds.fMin (-80) 63) (hlog : scale.Rising)
  (hspan : ofInt 0 < scale.log t.bounds.ratio)

include hlow in
/-- Above the lower bound, a frequency is more than zero times that bound. -/
theorem quotient_pos (hx : t.bounds.fMin ≤ x) : ofInt 0 < x / t.bounds.fMin := by
  have hfinite := hlow.isFinite (by norm_num)
  obtain ⟨-, hnumber, hle⟩ := le_iff.mp ((scales_div hfinite hlow.pos).mono hx)
  rw [(denotes_div_self hfinite hlow.pos).toRat_eq] at hle
  exact ofInt_zero_lt_iff.mpr ⟨hnumber, zero_lt_one.trans_le hle⟩

include hlow hlog hspan in
/-- The formula keeps the order, whether or not the logarithms are finite. -/
theorem gauge_mono (hx : t.bounds.fMin ≤ x) (hxy : x ≤ y) :
    gauge scale t x ≤ gauge scale t y := by
  obtain ⟨hnumber, hpos⟩ := ofInt_zero_lt_iff.mp hspan
  have hquotient := (scales_div (hlow.isFinite (by norm_num)) hlow.pos).mono hxy
  have hlogs := hlog _ _ (quotient_pos hlow hx) hquotient
  by_cases hfinite : isFinite (scale.log t.bounds.ratio) = true
  · have hparts := (scales_div hfinite hpos).mono hlogs
    exact roundHalfAway_mono ((scales_mul isFinite_rows rows_pos).mono hparts)
  · rw [gauge_of_infinite hnumber hfinite, gauge_of_infinite hnumber hfinite]

include hspan in
/-- At the upper bound the formula is at the last row. -/
theorem gauge_fMax : gauge scale t t.bounds.fMax ≤ 255 := by
  obtain ⟨hnumber, hpos⟩ := ofInt_zero_lt_iff.mp hspan
  by_cases hfinite : isFinite (scale.log t.bounds.ratio) = true
  · have hself := denotes_div_self hfinite hpos
    have hone : isFinite (scale.log t.bounds.ratio / scale.log t.bounds.ratio) = true :=
      hself.isFinite (by exact_mod_cast abs_natCast_lt_beyond (n := 1) (by norm_num))
    have hproduct := denotes_mul hone isFinite_rows
    have hrows : rounded 255 = 255 := by exact_mod_cast rounded_natCast (n := 255) (by norm_num)
    rw [hself.toRat_eq, denotes_rows.toRat_eq, one_mul, hrows] at hproduct
    have hround : gauge scale t t.bounds.fMax = halfAway 255 :=
      hproduct.toRat_eq ▸ roundHalfAway_eq hproduct.isNumber
    rw [hround]
    exact_mod_cast (halfAway_intCast 255).le
  · rw [gauge_of_infinite hnumber hfinite]
    norm_num

include hlow hlog hspan in
/-- Between the bounds the formula never passes the last row. -/
theorem gauge_le (hx : t.bounds.fMin ≤ x) (hx' : x ≤ t.bounds.fMax) : gauge scale t x ≤ 255 :=
  (gauge_mono hlow hlog hspan hx hx').trans (gauge_fMax hspan)

end

/-! ## The three regimes -/

section

variable {scale : LogScale Float} {t : Table Float} {x y : Float}

theorem nearestIndex_of_not_lt (h : ¬ t.bounds.fMin < x) : t.nearestIndex scale x = 0 :=
  if_pos h

theorem nearestIndex_of_le (h : t.bounds.fMin < x) (h' : t.bounds.fMax ≤ x) :
    t.nearestIndex scale x = Fin.last 255 := by
  rw [nearestIndex, if_neg (not_not.mpr h), if_pos h']
  rfl

theorem nearestIndex_between (h : t.bounds.fMin < x) (h' : ¬ t.bounds.fMax ≤ x) :
    t.nearestIndex scale x = toPosition (gauge scale t x) := by
  rw [nearestIndex, if_neg (not_not.mpr h), if_neg h']
  rfl

end

variable {scale : LogScale Float} {c : Constants} {o : Options} {t : Table Float}

theorem Made.fMin_lt_fMax (h : Made scale c o t) : t.bounds.fMin < t.bounds.fMax := by
  rw [← h.frequency_zero, ← h.frequency_last]
  exact frequency_lt h.rises (Fin.last_pos' (n := 255))

theorem Made.nearestIndex_mono (h : Made scale c o t) (hlog : scale.Rising)
    (hspan : ofInt 0 < scale.log t.bounds.ratio) {x y : Float} (hxy : x ≤ y) :
    t.nearestIndex scale x ≤ t.nearestIndex scale y := by
  by_cases hx : t.bounds.fMin < x
  · have hy : t.bounds.fMin < y := float_lt_of_lt_of_le hx hxy
    by_cases hy' : t.bounds.fMax ≤ y
    · rw [nearestIndex_of_le hy hy']
      exact Fin.le_last _
    · -- neither frequency reaches the upper bound, so the formula decides
      have hx' : ¬ t.bounds.fMax ≤ x := fun hx' => hy' (float_le_trans hx' hxy)
      rw [nearestIndex_between hx hx', nearestIndex_between hy hy']
      exact toPosition_mono (gauge_mono (h.bounds_eq ▸ h.sound.within_fMin) hlog hspan
        (float_le_of_lt hx) hxy)
  · rw [nearestIndex_of_not_lt hx]
    exact Fin.zero_le _

/-- The row nearest to a frequency keeps the order of pitches. In a table that was made, with
a logarithm that never falls and is positive at the ratio of the bounds, a higher frequency
never gets a lower row, the frequencies up to the lower bound get the first row and those from
the upper bound on the last one; between the bounds the formula for the row never passes the
last row. -/
theorem nearestIndex_keeps_order (h : generate scale c o = .ok t) (hlog : scale.Rising)
    (hspan : ofInt 0 < scale.log t.bounds.ratio) :
    (∀ x y : Float, x ≤ y → t.nearestIndex scale x ≤ t.nearestIndex scale y) ∧
    (∀ x : Float, x ≤ t.bounds.fMin → t.nearestIndex scale x = 0) ∧
    (∀ x : Float, t.bounds.fMax ≤ x → t.nearestIndex scale x = Fin.last 255) ∧
    ∀ x : Float, t.bounds.fMin < x → x < t.bounds.fMax →
      t.nearestIndex scale x = toPosition (gauge scale t x) ∧ gauge scale t x ≤ 255 := by
  have hmade := made_of_generate h
  have hlow : Within t.bounds.fMin (-80) 63 := hmade.bounds_eq ▸ hmade.sound.within_fMin
  refine ⟨fun x y => hmade.nearestIndex_mono hlog hspan, fun x hx => ?_, fun x hx => ?_,
    fun x hx hx' => ⟨?_, ?_⟩⟩
  · exact nearestIndex_of_not_lt (float_not_lt_of_le hx)
  · exact nearestIndex_of_le (float_lt_of_lt_of_le hmade.fMin_lt_fMax hx) hx
  · exact nearestIndex_between hx fun hle => float_not_lt_of_le hle hx'
  · exact gauge_le hlow hlog hspan (float_le_of_lt hx) (float_le_of_lt hx')

/-! ## A scale that rises -/

namespace HalfHertz

/-- A scale that never falls, on which the inner rows of the usual constants lie half a hertz
apart. -/
def rising : LogScale Float where
  exp x := (ofInt 90 + x) / ofInt 2
  log f := if f < ofInt 10 then f else if f < ofInt 100 then ofInt 10 else ofInt 265

theorem rising_exp (x : Float) : rising.exp x = (ofInt 90 + x) / ofInt 2 :=
  rfl

theorem rising_log (f : Float) : rising.log f =
    if f < ofInt 10 then f else if f < ofInt 100 then ofInt 10 else ofInt 265 :=
  rfl

theorem isRising : rising.Rising := by
  intro x y _ hxy
  have hten : (ofInt 10 : Float) ≤ ofInt 10 := by decide +kernel
  have htop : (ofInt 10 : Float) ≤ ofInt 265 := by decide +kernel
  have hself : (ofInt 265 : Float) ≤ ofInt 265 := by decide +kernel
  rw [rising_log, rising_log]
  by_cases hy : y < ofInt 10
  · rw [if_pos hy, if_pos (float_lt_of_le_of_lt hxy hy)]
    exact hxy
  · rw [if_neg hy]
    by_cases hx : x < ofInt 10
    · rw [if_pos hx]
      split_ifs
      · exact float_le_of_lt hx
      · exact float_le_trans (float_le_of_lt hx) htop
    · rw [if_neg hx]
      by_cases hy' : y < ofInt 100
      · rw [if_pos hy', if_pos (float_lt_of_le_of_lt hxy hy')]
        exact hten
      · rw [if_neg hy']
        split_ifs
        · exact htop
        · exact hself

theorem rising_fMin : rising.log limits.fMin = ofInt 10 := by
  have hlow : ¬ limits.fMin < ofInt 10 := by decide +kernel
  have hhigh : limits.fMin < ofInt 100 := by decide +kernel
  rw [rising_log, if_neg hlow, if_pos hhigh]

theorem rising_fMax : rising.log limits.fMax = ofInt 265 := by
  have hlow : ¬ limits.fMax < ofInt 10 := by decide +kernel
  have hhigh : ¬ limits.fMax < ofInt 100 := by decide +kernel
  rw [rising_log, if_neg hlow, if_neg hhigh]

theorem denotes_rising_rung {i : Fin size} (hfirst : i.val ≠ 0) (hlast : i.val ≠ 255) :
    Denotes ((ladder rising limits).get i) (50 + i / 2) := by
  have hi : i.val < 256 := i.isLt
  have hlow := holds_ofInt (n := 10) (by norm_num)
  have hrows := holds_ofInt (n := 255) (by norm_num)
  have hspan := ((holds_ofInt (n := 265) (by norm_num)).sub hlow (by norm_num)).mul
    (holds_ofInt (n := i) (by omega)) (by omega)
  have hpart := hspan.div hrows (by norm_num) (by omega)
  have hsum := (holds_ofInt (n := 90) (by norm_num)).add (hlow.add hpart (by omega)) (by omega)
  have hvalue : ((90 + (10 + i) : ℕ) : ℚ) / 2 = 50 + i / 2 := by
    push_cast
    ring
  rw [ladder_inner _ hfirst hlast, rising_exp, rising_fMin, rising_fMax, ← hvalue]
  exact hsum.half

theorem generate_rising : ∃ t, generate rising {} {} = .ok t ∧ t.bounds = limits :=
  ⟨_, generate_eq_ok (o := {}) rfl bounds_eq (climbs_of_rungs fun _ => denotes_rising_rung), rfl⟩

end HalfHertz

/-- On this scale, rows of four frequencies, one of them below the bounds and one above. -/
theorem halfHertz_keeps_order : ∃ t, generate HalfHertz.rising {} {} = .ok t ∧
    HalfHertz.rising.Rising ∧ ofInt 0 < HalfHertz.rising.log t.bounds.ratio ∧
    t.nearestIndex HalfHertz.rising (ofInt 7) = 0 ∧
    t.nearestIndex HalfHertz.rising (ofInt 60) = 65 ∧
    t.nearestIndex HalfHertz.rising (ofInt 60) ≤ t.nearestIndex HalfHertz.rising (ofInt 200) ∧
    t.nearestIndex HalfHertz.rising (ofInt 300) = Fin.last 255 := by
  obtain ⟨t, ht, hbounds⟩ := HalfHertz.generate_rising
  have hspan : ofInt 0 < HalfHertz.rising.log t.bounds.ratio := by
    rw [hbounds]
    decide +kernel
  obtain ⟨hmono, hfirst, hlast, hbetween⟩ :=
    nearestIndex_keeps_order ht HalfHertz.isRising hspan
  refine ⟨t, ht, HalfHertz.isRising, hspan, hfirst _ ?_, ?_, hmono _ _ (by decide +kernel),
    hlast _ ?_⟩
  · rw [hbounds]
    decide +kernel
  · rw [(hbetween (ofInt 60) (by rw [hbounds]; decide +kernel)
      (by rw [hbounds]; decide +kernel)).1, gauge, hbounds]
    decide +kernel
  · rw [hbounds]
    decide +kernel

end Table

end StepTone
