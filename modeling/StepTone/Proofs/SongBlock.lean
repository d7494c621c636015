/-
StepTone.Proofs.SongBlock — what a compiled song consists of.

Three numbers of a song are cut down to a byte: the periods that a note is held, the row
of the table, and the length of the song block. None of them loses anything, since a song
is short, a table has 256 rows, and a note that is held for too long is refused.

* `actualFrequency_eq`, `actualFrequency_eq_error_iff` — the rows that a table has.
* `Plays` — a step says which row a note is played on and for how many periods.
* `denotes_holdSeconds`, `within_actualAt` — the time of a note and the rate of a row.
* `compileNote_eq` — a note, looked up without the question whether its row is there.
* `plays_of_compileNote`, `plays_of_compileFrom` — one note, and then all of them.
* `readPairs` — a song block read as pairs of bytes.
* `compile_plays_every_note` — a compiled song as a whole.
-/
import Mathlib.Data.List.Forall2
import StepTone.Proofs.TableGeneration
import StepTone.Song

namespace StepTone

/-! ## Rows that a table has -/

namespace Table

theorem size_pos : 0 < size :=
  Nat.zero_lt_succ 255

/-- A table has the rows from 0 to 255 and no others. -/
theorem entry_eq_ok_iff {t : Table Float} {i : Int64} {e : Entry Float} :
    t.entry i = .ok e ↔ ∃ row : Fin size, i.toInt = row.val ∧ t.entries.get row = e := by
  rw [entry]
  cases hi : i.toInt with
  | ofNat n =>
    rw [row?]
    by_cases hn : n < size
    · rw [Vector.getElem?_eq_getElem hn]
      constructor
      · intro h
        exact ⟨⟨n, hn⟩, rfl, Except.ok.inj h⟩
      · rintro ⟨row, hrow, rfl⟩
        obtain rfl : n = row.val := Int.ofNat.inj hrow
        rfl
    · rw [Vector.getElem?_eq_none (Nat.le_of_not_lt hn)]
      refine iff_of_false nofun ?_
      rintro ⟨row, hrow, -⟩
      obtain rfl : n = row.val := Int.ofNat.inj hrow
      exact hn row.isLt
  | negSucc n =>
    refine iff_of_false nofun ?_
    rintro ⟨row, hrow, -⟩
    cases hrow

/-- The lookup by position finds each row of the table. -/
theorem actualFrequency_eq (t : Table Float) (row : Fin size) :
    t.actualFrequency (Int64.ofNat row.val) = .ok (t.actualAt row) := by
  have hlt : row.val < 256 := row.isLt
  have hrow : (Int64.ofNat row.val).toInt = row.val := Int64.toInt_ofNat_of_lt (by omega)
  rw [actualFrequency, entry_eq_ok_iff.mpr ⟨row, hrow, rfl⟩]
  rfl

/-- It refuses every other position. -/
theorem actualFrequency_eq_error_iff (t : Table Float) (i : Int64) :
    t.actualFrequency i = .error (.outsideTable i) ↔ ¬ (0 ≤ i.toInt ∧ i.toInt ≤ 255) := by
  have hentry : t.entry i = .error (.outsideTable i) ∨ ∃ e, t.entry i = .ok e := by
    rw [entry]
    cases t.row? i.toInt with
    | none => exact .inl rfl
    | some e => exact .inr ⟨e, rfl⟩
  rw [actualFrequency]
  rcases hentry with hnone | ⟨e, he⟩
  · rw [hnone]
    refine iff_of_true rfl fun hinside => ?_
    -- a row within the table would have been found
    have hlt : i.toInt.toNat < size := by
      change i.toInt.toNat < 256
      omega
    have hfound := entry_eq_ok_iff (t := t).mpr
      ⟨⟨i.toInt.toNat, hlt⟩, (Int.toNat_of_nonneg hinside.1).symm, rfl⟩
    rw [hnone] at hfound
    cases hfound
  · obtain ⟨row, hrow, -⟩ := entry_eq_ok_iff.mp he
    have hlt : row.val < 256 := row.isLt
    rw [he]
    exact iff_of_false nofun fun h => h (by omega)

end Table

namespace Song

open Arithmetic (ofInt ofWord isMagnitude atLeastZero)
open Binary64
open Firmware (Constants)
open Table (Made)

variable {ls curve : LogScale Float} {c : Constants} {o : Table.Options} {t : Table Float}
  {scale : Float} {n : Note Float} {step : Step Float}

/-! ## Steps -/

/-- What a step says about the note it was made from. -/
structure Plays (ls : LogScale Float) (t : Table Float) (scale : Float) (n : Note Float)
    (step : Step Float) (row : Fin Table.size) : Prop where
  note : step.note = n
  index : step.index = row
  scaled : step.scaled = n.frequency * scale
  seconds : step.seconds = holdSeconds t n
  /-- A rest stands on the first row and gives no tone. -/
  rest : n.isRest = true → row = 0 ∧ step.actual = ofInt 0
  /-- A tone lies within the bounds and stands on the row nearest to it. -/
  tone : n.isRest = false →
    (t.bounds.fMin ≤ step.scaled ∧ step.scaled ≤ t.bounds.fMax) ∧
    row = t.nearestIndex ls step.scaled ∧ step.actual = t.actualAt row
  /-- The periods of the row that fit the time, and how many of them are whole. -/
  finite : isFinite (step.seconds * t.actualAt row) = true
  repeats : (step.repeats.toNat : ℤ) = ⌊toRat (step.seconds * t.actualAt row)⌋

/-! ## Times and rates -/

/-- The rate of a row is a positive number. -/
theorem within_actualAt (h : Made curve c o t) (row : Fin Table.size) :
    Within (t.actualAt row) (-80) 63 := by
  have hdelay : (t.entries.get row).delay.toNat ≤ 2 ^ 16 := (UInt16.toNat_lt _).le
  have hrate := h.sound.within_frequencyForDelay (upTo_natCast hdelay (by norm_num))
  rw [← h.constants] at hrate
  exact hrate

/-- The milliseconds of a note as seconds. -/
theorem denotes_seconds {x : Float} (h : isFinite x = true) :
    Denotes (x / ofInt 1000) (rounded (toRat x / 1000)) ∧
      |rounded (toRat x / 1000)| ≤ 2 ^ (1015 : ℤ) := by
  have hthousand : Denotes (ofInt 1000) 1000 := denotes_natCast (n := 1000) (by norm_num)
  have hfinite : isFinite (ofInt 1000 : Float) = true :=
    (upTo_natCast (n := 1000) (k := 10) (by norm_num) (by norm_num)).isFinite (by norm_num)
  have hne : toRat (ofInt 1000) ≠ 0 := by
    rw [hthousand.toRat_eq]
    norm_num
  have hquotient := denotes_div h hfinite hne
  rw [hthousand.toRat_eq] at hquotient
  refine ⟨hquotient, abs_rounded_le (by norm_num) (by norm_num) ?_⟩
  -- a thousand is above `2^9`, which leaves room for the subtraction that follows
  have hlt := (isFinite_iff.mp h).2
  have hsplit : (2 : ℚ) ^ (1024 : ℤ) = 2 ^ (1015 : ℤ) * 2 ^ (9 : ℤ) := by
    rw [← zpow_add₀ (by norm_num)]
    norm_num
  rw [beyond_cast, hsplit] at hlt
  rw [abs_div, abs_of_pos (by norm_num : (0 : ℚ) < 1000), div_le_iff₀ (by norm_num)]
  refine hlt.le.trans (mul_le_mul_of_nonneg_left (by norm_num) (two_zpow_pos 1015).le)

theorem isFinite_seconds {x : Float} (h : isFinite x = true) :
    isFinite (x / ofInt 1000) = true := by
  obtain ⟨hseconds, hlong⟩ := denotes_seconds h
  exact hseconds.isFinite (hlong.trans_lt (two_zpow_lt_beyond (by norm_num)))

/-- The time between two notes. Its cycles may have wrapped, so that its sign is open. -/
theorem denotes_outerLoopSeconds (h : c.Sound) :
    Denotes (c.outerLoopSeconds : Float)
        (rounded (rounded (c.outerLoopMoves * c.moveCycles).toInt / toRat (ofWord c.clockHz))) ∧
      |toRat (c.outerLoopSeconds : Float)| ≤ 2 ^ (63 : ℤ) := by
  set cycles := c.outerLoopMoves * c.moveCycles
  have hcycles : Denotes (ofWord cycles) (rounded cycles.toInt) := denotes_ofWord cycles
  have hsmall : |rounded cycles.toInt| ≤ 2 ^ (63 : ℤ) := by
    refine abs_rounded_le (by norm_num) (by norm_num) ?_
    have hlow := cycles.le_toInt
    have hhigh := cycles.toInt_lt
    have habs : |cycles.toInt| ≤ 2 ^ 63 := abs_le.mpr ⟨hlow, hhigh.le⟩
    exact_mod_cast habs
  have hclock := h.within_clock
  have hfinite := hcycles.isFinite (hsmall.trans_lt (two_zpow_lt_beyond (by norm_num)))
  have hseconds := denotes_div hfinite (hclock.isFinite (by norm_num)) hclock.pos.ne'
  rw [hcycles.toRat_eq] at hseconds
  refine ⟨hseconds, ?_⟩
  have hone : 1 ≤ toRat (ofWord c.clockHz) := hclock.lower
  change |toRat (ofWord cycles / ofWord c.clockHz)| ≤ _
  rw [hseconds.toRat_eq]
  refine abs_rounded_le (by norm_num) (by norm_num) ?_
  rw [abs_div, abs_of_pos hclock.pos]
  exact (div_le_self (abs_nonneg _) hone).trans hsmall

theorem denotes_atLeastZero {x : Float} {q : ℚ} (h : Denotes x q) :
    Denotes (atLeastZero x) (max 0 q) := by
  have hle : x ≤ ofInt 0 ↔ q ≤ 0 := by
    rw [le_iff, h.toRat_eq, denotes_ofInt_zero.toRat_eq]
    simp [h.isNumber, denotes_ofInt_zero.isNumber]
  rw [atLeastZero]
  split
  · next hx =>
    rw [max_eq_left (hle.mp hx)]
    exact denotes_ofInt_zero
  · next hx =>
    rw [max_eq_right (not_le.mp (mt hle.mpr hx)).le]
    exact h

/-- The time of a note is its duration less the time between two notes, and not negative. -/
theorem denotes_holdSeconds (h : Made curve c o t) (hduration : isFinite n.durationMs = true) :
    Denotes (holdSeconds t n) (max 0 (rounded (toRat (n.durationMs / ofInt 1000) -
      toRat (c.outerLoopSeconds : Float)))) := by
  obtain ⟨houter, hshort⟩ := denotes_outerLoopSeconds h.sound
  have hfinite := isFinite_iff.mpr
    ⟨houter.isNumber, hshort.trans_lt (two_zpow_lt_beyond (by norm_num))⟩
  rw [holdSeconds, h.constants]
  exact denotes_atLeastZero (denotes_sub (isFinite_seconds hduration) hfinite)

theorem upTo_holdSeconds (h : Made curve c o t) (hduration : isFinite n.durationMs = true) :
    UpTo (holdSeconds t n) 1016 := by
  obtain ⟨hseconds, hlong⟩ := denotes_seconds hduration
  obtain ⟨-, hshort⟩ := denotes_outerLoopSeconds h.sound
  obtain ⟨hnumber, hvalue⟩ := denotes_holdSeconds h hduration
  have hdouble : (2 : ℚ) ^ (1016 : ℤ) = 2 ^ (1015 : ℤ) + 2 ^ (1015 : ℤ) := by
    rw [← two_mul, ← zpow_one_add₀ (by norm_num)]
    norm_num
  have hless : (2 : ℚ) ^ (63 : ℤ) ≤ 2 ^ (1015 : ℤ) :=
    zpow_le_zpow_right₀ (by norm_num) (by norm_num)
  refine ⟨hnumber, hvalue ▸ le_max_left _ _, ?_⟩
  rw [hvalue, hseconds.toRat_eq]
  refine max_le (two_zpow_pos 1016).le ((le_abs_self _).trans ?_)
  refine abs_rounded_le (by norm_num) (by norm_num) ?_
  rw [hdouble]
  exact (abs_sub _ _).trans (add_le_add hlong (hshort.trans hless))

/-! ## One note -/

theorem hold_eq_ok_iff {scaled actual seconds rate : Float} {row : Fin Table.size} :
    hold n scaled actual row seconds rate = .ok step ↔
      seconds * rate < ofInt 256 ∧
      step = { note := n, scaled, index := row.val, actual, seconds,
               repeats := UInt8.ofInt (floor (seconds * rate)) } := by
  rw [hold]
  split
  · next hlt => exact ⟨fun h => ⟨hlt, (Except.ok.inj h).symm⟩, fun h => congrArg _ h.2.symm⟩
  · next hge => exact iff_of_false nofun fun h => hge h.1

/-- A byte keeps the numbers up to 255. -/
theorem toNat_ofInt {z : ℤ} (hnonneg : 0 ≤ z) (hlt : z < 256) :
    ((UInt8.ofInt z).toNat : ℤ) = z := by
  rw [UInt8.ofInt, UInt8.toNat_ofNat']
  omega

/-- A count of periods below 256 is kept by a byte. -/
theorem toNat_floor {periods : Float} (hnonneg : 0 ≤ toRat periods) (hlt : periods < ofInt 256) :
    isFinite periods = true ∧ ((UInt8.ofInt (floor periods)).toNat : ℤ) = ⌊toRat periods⌋ := by
  obtain ⟨hnumber, -, hless⟩ := lt_iff.mp hlt
  have hlimit : toRat (ofInt 256) = 256 := (denotes_natCast (n := 256) (by norm_num)).toRat_eq
  rw [hlimit] at hless
  have hsmall : toRat periods ≤ 2 ^ (8 : ℤ) := hless.le.trans (by norm_num)
  refine ⟨(UpTo.mk hnumber hnonneg hsmall).isFinite (by norm_num), ?_⟩
  rw [floor_eq hnumber]
  exact toNat_ofInt (Int.floor_nonneg.mpr hnonneg) (Int.floor_lt.mpr (by exact_mod_cast hless))

/-- The periods of a held note are counted in the row that it stands on. -/
theorem repeats_of_hold (h : Made curve c o t) (hduration : isFinite n.durationMs = true)
    {row : Fin Table.size} (hlt : holdSeconds t n * t.actualAt row < ofInt 256) :
    isFinite (holdSeconds t n * t.actualAt row) = true ∧
    ((UInt8.ofInt (floor (holdSeconds t n * t.actualAt row))).toNat : ℤ) =
      ⌊toRat (holdSeconds t n * t.actualAt row)⌋ := by
  have htime := upTo_holdSeconds h hduration
  have hrate := within_actualAt h row
  have hperiods := denotes_mul (htime.isFinite (by norm_num)) (hrate.isFinite (by norm_num))
  refine toNat_floor ?_ hlt
  rw [hperiods.toRat_eq]
  exact rounded_nonneg (mul_nonneg htime.nonneg hrate.pos.le)

theorem rateAt_eq (t : Table Float) (row : Fin Table.size) :
    rateAt t (Int64.ofNat row.val) = .ok (t.actualAt row) := by
  rw [rateAt, Table.actualFrequency_eq]
  rfl

/-- The row of a note is one that the table has, so looking it up cannot fail. -/
theorem compileNote_eq (ls : LogScale Float) (t : Table Float) (scale : Float) (n : Note Float) :
    compileNote ls t scale n =
      if !isMagnitude n.frequency || !isMagnitude n.durationMs then .error (.noMagnitude n)
      else if n.isRest then
        hold n (n.frequency * scale) (ofInt 0) 0 (holdSeconds t n) (t.actualAt 0)
      else if t.bounds.fMin ≤ n.frequency * scale ∧ n.frequency * scale ≤ t.bounds.fMax then
        hold n (n.frequency * scale) (t.actualAt (t.nearestIndex ls (n.frequency * scale)))
          (t.nearestIndex ls (n.frequency * scale)) (holdSeconds t n)
          (t.actualAt (t.nearestIndex ls (n.frequency * scale)))
      else .error (.outside (n.frequency * scale) t.bounds.fMin t.bounds.fMax) := by
  have hrest : rateAt t 0 = .ok (t.actualAt 0) := rateAt_eq t 0
  simp only [compileNote, hrest, rateAt_eq]
  rfl

/-- A note is compiled as a rest or as a tone, or not at all. -/
theorem compileNote_cases (h : compileNote ls t scale n = .ok step) :
    (isMagnitude n.frequency = true ∧ isMagnitude n.durationMs = true) ∧
    (n.isRest = true ∧
      hold n (n.frequency * scale) (ofInt 0) 0 (holdSeconds t n) (t.actualAt 0) = .ok step ∨
    n.isRest = false ∧
      (t.bounds.fMin ≤ n.frequency * scale ∧ n.frequency * scale ≤ t.bounds.fMax) ∧
      ∃ row, row = t.nearestIndex ls (n.frequency * scale) ∧
        hold n (n.frequency * scale) (t.actualAt row) row (holdSeconds t n) (t.actualAt row) =
          .ok step) := by
  rw [compileNote_eq] at h
  split at h
  · cases h
  next hmagnitude =>
  have hmagnitudes : isMagnitude n.frequency = true ∧ isMagnitude n.durationMs = true := by
    simpa using hmagnitude
  refine ⟨hmagnitudes, ?_⟩
  split at h
  · next hrest => exact .inl ⟨hrest, h⟩
  next htone =>
  split at h
  · next hbounds => exact .inr ⟨Bool.eq_false_iff.mpr htone, hbounds, _, rfl, h⟩
  · cases h

/-- A note that can be played. -/
theorem plays_of_compileNote (h : Made curve c o t)
    (hstep : compileNote ls t scale n = .ok step) : ∃ row, Plays ls t scale n step row := by
  obtain ⟨⟨-, hduration⟩, hcases⟩ := compileNote_cases hstep
  have hfinite : isFinite n.durationMs = true := (Bool.and_eq_true_iff.mp hduration).1
  rcases hcases with ⟨hrest, hhold⟩ | ⟨htone, hbounds, row, hrow, hhold⟩
  · obtain ⟨hlt, rfl⟩ := hold_eq_ok_iff.mp hhold
    exact ⟨0, {
      note := rfl, index := rfl, scaled := rfl, seconds := rfl
      rest := fun _ => ⟨rfl, rfl⟩
      tone := fun htone => absurd (hrest.symm.trans htone) (by decide)
      finite := (repeats_of_hold h hfinite hlt).1
      repeats := (repeats_of_hold h hfinite hlt).2 }⟩
  · obtain ⟨hlt, rfl⟩ := hold_eq_ok_iff.mp hhold
    exact ⟨row, {
      note := rfl, index := rfl, scaled := rfl, seconds := rfl
      rest := fun hrest => absurd (hrest.symm.trans htone) (by decide)
      tone := fun _ => ⟨hbounds, hrow, rfl⟩
      finite := (repeats_of_hold h hfinite hlt).1
      repeats := (repeats_of_hold h hfinite hlt).2 }⟩

/-! ## All notes -/

theorem compileFrom_cons_eq_ok_iff {position : ℕ} {rest : List (Note Float)}
    {steps : List (Step Float)} :
    compileFrom ls t scale position (n :: rest) = .ok steps ↔
      ∃ step more, compileNote ls t scale n = .ok step ∧
        compileFrom ls t scale (position + 1) rest = .ok more ∧ steps = step :: more := by
  rw [compileFrom]
  cases compileNote ls t scale n with
  | error fault => simp
  | ok step =>
    cases compileFrom ls t scale (position + 1) rest with
    | error fault => simp
    | ok more => simp [eq_comm]

/-- What holds of every note that can be played holds of all steps. -/
theorem forall_mem_of_compileFrom {P : Step Float → Prop}
    (hnote : ∀ n step, compileNote ls t scale n = .ok step → P step) {position : ℕ}
    {notes : List (Note Float)} {steps : List (Step Float)}
    (hsteps : compileFrom ls t scale position notes = .ok steps) : ∀ step ∈ steps, P step := by
  induction notes generalizing position steps with
  | nil =>
    obtain rfl := Except.ok.inj hsteps
    exact fun _ hmem => absurd hmem List.not_mem_nil
  | cons n rest ih =>
    obtain ⟨step, more, hstep, hmore, rfl⟩ := compileFrom_cons_eq_ok_iff.mp hsteps
    exact List.forall_mem_cons.mpr ⟨hnote n step hstep, ih hmore⟩

/-- One step for each note, in the order of the notes. -/
theorem plays_of_compileFrom (h : Made curve c o t) {position : ℕ} {notes : List (Note Float)}
    {steps : List (Step Float)} (hsteps : compileFrom ls t scale position notes = .ok steps) :
    List.Forall₂ (fun n step => ∃ row, Plays ls t scale n step row) notes steps := by
  induction notes generalizing position steps with
  | nil =>
    obtain rfl := Except.ok.inj hsteps
    exact .nil
  | cons n rest ih =>
    obtain ⟨step, more, hstep, hmore, rfl⟩ := compileFrom_cons_eq_ok_iff.mp hsteps
    exact .cons (plays_of_compileNote h hstep) (ih hmore)

/-- Every step stands on a row of the table. -/
theorem index_lt_of_plays {notes : List (Note Float)} {steps : List (Step Float)}
    (h : List.Forall₂ (fun n step => ∃ row, Plays ls t scale n step row) notes steps) :
    ∀ step ∈ steps, 0 ≤ step.index ∧ step.index < 256 := by
  induction h with
  | nil => exact fun _ hmem => absurd hmem List.not_mem_nil
  | cons hplays _ ih =>
    obtain ⟨row, hrow⟩ := hplays
    refine List.forall_mem_cons.mpr ⟨?_, ih⟩
    rw [hrow.index]
    exact ⟨row.val.cast_nonneg, by exact_mod_cast row.isLt⟩

theorem compile_eq_ok_iff {notes : List (Note Float)} {s : Sequence Float} :
    compile ls t scale notes = .ok s ↔
      (notes ≠ [] ∧ notes.length ≤ maxNotes) ∧
      (ofInt 0 < scale ∧ ¬ t.constants.outerLoopMoves ≤ 0) ∧
      compileFrom ls t scale 0 notes = .ok s.steps ∧ s.scale = scale := by
  rw [compile]
  split
  · next hempty => exact iff_of_false nofun fun h => h.1.1 (List.isEmpty_iff.mp hempty)
  next hsome =>
  split
  · next hmany => exact iff_of_false nofun fun h => Nat.not_lt.mpr h.1.2 hmany
  next hfew =>
  split
  · next hscale => exact iff_of_false nofun fun h => hscale h.2.1.1
  next hscale =>
  split
  · next hloop => exact iff_of_false nofun fun h => h.2.1.2 hloop
  next hloop =>
  have hnotes : notes ≠ [] ∧ notes.length ≤ maxNotes :=
    ⟨by simpa using hsome, Nat.le_of_not_lt hfew⟩
  cases compileFrom ls t scale 0 notes with
  | error fault => exact iff_of_false nofun fun h => nomatch h.2.2.1
  | ok steps =>
    refine ⟨fun h => ?_, fun h => ?_⟩
    · obtain rfl := Except.ok.inj h
      exact ⟨hnotes, ⟨not_not.mp hscale, hloop⟩, rfl, rfl⟩
    · obtain ⟨-, -, hsteps, rfl⟩ := h
      obtain rfl := Except.ok.inj hsteps
      rfl

/-! ## The song block -/

/-- A song block read as pairs of a count and a row. -/
def readPairs : List UInt8 → Option (List (ℕ × ℤ))
  | [] => some []
  | [_] => none
  | count :: row :: rest => (readPairs rest).map ((count.toNat, (row.toNat : ℤ)) :: ·)

theorem readPairs_flatMap {steps : List (Step Float)}
    (h : ∀ step ∈ steps, 0 ≤ step.index ∧ step.index < 256) :
    readPairs (steps.flatMap fun step => [step.repeats, UInt8.ofInt step.index]) =
      some (steps.map fun step => (step.repeats.toNat, step.index)) := by
  induction steps with
  | nil => rfl
  | cons step rest ih =>
    obtain ⟨hstep, hrest⟩ := List.forall_mem_cons.mp h
    rw [List.flatMap_cons, List.map_cons]
    change (readPairs (rest.flatMap fun step => [step.repeats, UInt8.ofInt step.index])).map _ = _
    rw [ih hrest, toNat_ofInt hstep.1 hstep.2]
    rfl

theorem length_bytes (s : Sequence Float) : s.bytes.length = 2 * s.steps.length := by
  simp [Sequence.bytes, mul_comm]

/-- The block of a song of up to 127 notes has a length that a byte keeps. -/
theorem toNat_length {s : Sequence Float} (h : s.steps.length ≤ maxNotes) :
    s.length.toNat = 2 * s.steps.length := by
  have hlt : s.steps.length ≤ 127 := h
  rw [Sequence.length, UInt8.toNat_ofNat']
  omega

/-- A compiled song. It has between one and 127 notes and one step for each of them, in
their order; and its block is read back as the counts and the rows of the steps. -/
theorem compile_plays_every_note {notes : List (Note Float)} {s : Sequence Float}
    (ht : Table.generate curve c o = .ok t) (hs : compile ls t scale notes = .ok s) :
    (1 ≤ notes.length ∧ notes.length ≤ 127) ∧
    List.Forall₂ (fun n step => ∃ row, Plays ls t scale n step row) notes s.steps ∧
    s.bytes.length = 2 * notes.length ∧ s.length.toNat = s.bytes.length ∧
    readPairs s.bytes = some (s.steps.map fun step => (step.repeats.toNat, step.index)) := by
  obtain ⟨⟨hne, hcount⟩, -, hsteps, -⟩ := compile_eq_ok_iff.mp hs
  have hplays := plays_of_compileFrom (Table.made_of_generate ht) hsteps
  have hlength : notes.length = s.steps.length := hplays.length_eq
  refine ⟨⟨List.length_pos_iff.mpr hne, hcount⟩, hplays, ?_, ?_, ?_⟩
  · rw [length_bytes, hlength]
  · rw [length_bytes, toNat_length (hlength ▸ hcount)]
  · exact readPairs_flatMap (index_lt_of_plays hplays)

/-- A rest, and a tone of 100 Hz. -/
def restAndTone : List (Note Float) :=
  [⟨ofInt 0, ofInt 250⟩, ⟨ofInt 100, ofInt 500⟩]

/-- They can be played on the table of the usual constants, with a row looked up on a
linear scale. -/
theorem restAndTone_played :
    Table.generate Table.HalfHertz.scale {} {} = .ok Table.HalfHertz.table ∧
    ∃ s, compile ⟨id, id⟩ Table.HalfHertz.table (ofInt 1) restAndTone = .ok s ∧
      s.bytes.length = 4 ∧
      readPairs s.bytes = some (s.steps.map fun step => (step.repeats.toNat, step.index)) := by
  have hsome : (compile ⟨id, id⟩ Table.HalfHertz.table (ofInt 1) restAndTone).toOption.isSome =
      true := by
    decide +kernel
  cases hs : compile ⟨id, id⟩ Table.HalfHertz.table (ofInt 1) restAndTone with
  | error fault =>
    rw [hs] at hsome
    cases hsome
  | ok s =>
    obtain ⟨-, -, hlength, -, hpairs⟩ := compile_plays_every_note Table.HalfHertz.generate_eq hs
    exact ⟨Table.HalfHertz.generate_eq, s, rfl, hlength, hpairs⟩

end Song

end StepTone
