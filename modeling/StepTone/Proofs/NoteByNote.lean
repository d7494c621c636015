/-
StepTone.Proofs.NoteByNote — a melody is compiled note by note.

What becomes of a note hangs on the table and the scale and not on the other notes. So two
melodies that are played one after the other give the steps of the one and then those of the
other, and of the notes that cannot be played the first one is reported, with its position.
This asks nothing of the table: the row of a note is one that the table has, whatever the
bounds and whatever the frequency.

* `Playable` — what a note must be like, and `exists_compileNote_iff` — that this is enough.
* `compileNote_ne_row` — the row of a note is never what is wrong with it.
* `compileFrom_eq_ok_iff`, `compileFrom_eq_error_iff` — all notes, and the first bad one.
* `compileFrom_append_ok`, `compileFrom_append_error` — two melodies in a row.
* `Refused` — the label under which a melody is refused, and the reason for it.
* `compile_goes_note_by_note` — the whole of it.
-/
import StepTone.Proofs.SongBlock

namespace StepTone.Song

open Arithmetic (ofInt isMagnitude)

variable {ls : LogScale Float} {t : Table Float} {scale : Float} {n : Note Float}
  {step : Step Float}

/-! ## One note -/

/-- The row that a note is looked up on; a rest stands on the first one. -/
def rowOf (ls : LogScale Float) (t : Table Float) (scale : Float) (n : Note Float) :
    Fin Table.size :=
  if n.isRest then ⟨0, Table.size_pos⟩ else t.nearestIndex ls (n.frequency * scale)

/-- A note that the table can play. -/
structure Playable (ls : LogScale Float) (t : Table Float) (scale : Float) (n : Note Float) :
    Prop where
  frequency : isMagnitude n.frequency = true
  duration : isMagnitude n.durationMs = true
  /-- A tone lies within the bounds of the table. -/
  within : n.isRest = false →
    t.bounds.fMin ≤ n.frequency * scale ∧ n.frequency * scale ≤ t.bounds.fMax
  /-- A byte counts the periods that it is held for. -/
  short : holdSeconds t n * t.actualAt (rowOf ls t scale n) < ofInt 256

theorem exists_hold_iff {scaled actual seconds rate : Float} {row : Fin Table.size} :
    (∃ step, hold n scaled actual row seconds rate = .ok step) ↔ seconds * rate < ofInt 256 := by
  constructor
  · rintro ⟨step, h⟩
    exact (hold_eq_ok_iff.mp h).1
  · intro h
    exact ⟨_, hold_eq_ok_iff.mpr ⟨h, rfl⟩⟩

theorem exists_compileNote_iff :
    (∃ step, compileNote ls t scale n = .ok step) ↔ Playable ls t scale n := by
  constructor
  · rintro ⟨step, h⟩
    obtain ⟨⟨hfrequency, hduration⟩, hcases⟩ := compileNote_cases h
    rcases hcases with ⟨hrest, hhold⟩ | ⟨htone, hbounds, row, rfl, hhold⟩
    · refine ⟨hfrequency, hduration, fun htone => ?_, ?_⟩
      · rw [hrest] at htone
        cases htone
      · rw [rowOf, if_pos hrest]
        exact (hold_eq_ok_iff.mp hhold).1
    · refine ⟨hfrequency, hduration, fun _ => hbounds, ?_⟩
      rw [rowOf, if_neg (Bool.eq_false_iff.mp htone)]
      exact (hold_eq_ok_iff.mp hhold).1
  · rintro ⟨hfrequency, hduration, hwithin, hshort⟩
    rw [compileNote_eq, hfrequency, hduration, if_neg (by decide)]
    cases hrest : n.isRest with
    | true =>
      rw [rowOf, if_pos hrest] at hshort
      exact exists_hold_iff.mpr hshort
    | false =>
      rw [rowOf, if_neg (Bool.eq_false_iff.mp hrest)] at hshort
      simp only [Bool.false_eq_true, if_false, if_pos (hwithin hrest)]
      exact exists_hold_iff.mpr hshort

theorem exists_compileNote_error_iff :
    (∃ fault, compileNote ls t scale n = .error fault) ↔ ¬ Playable ls t scale n := by
  rw [← exists_compileNote_iff]
  cases compileNote ls t scale n with
  | error fault => simp
  | ok step => simp

/-- Of a note that cannot be played, its row is never what is wrong. -/
theorem compileNote_ne_row {fault : Fault} : compileNote ls t scale n ≠ .error (.row fault) := by
  have hhold {scaled actual seconds rate : Float} {row : Fin Table.size} :
      hold n scaled actual row seconds rate ≠ .error (.row fault) := by
    rw [hold]
    split <;> simp
  rw [compileNote_eq]
  split
  · simp
  split
  · exact hhold
  split
  · exact hhold
  · simp

/-! ## All notes -/

/-- The position that the notes are counted from does not matter where all can be played. -/
theorem compileFrom_eq_ok_iff {position : ℕ} {notes : List (Note Float)}
    {steps : List (Step Float)} :
    compileFrom ls t scale position notes = .ok steps ↔
      List.Forall₂ (fun n step => compileNote ls t scale n = .ok step) notes steps := by
  induction notes generalizing position steps with
  | nil => simp [compileFrom, eq_comm]
  | cons n rest ih =>
    rw [compileFrom_cons_eq_ok_iff, List.forall₂_cons_left_iff]
    simp only [ih]

theorem exists_compileFrom_iff (position : ℕ) {notes : List (Note Float)} :
    (∃ steps, compileFrom ls t scale position notes = .ok steps) ↔
      ∀ n ∈ notes, Playable ls t scale n := by
  simp only [compileFrom_eq_ok_iff, ← exists_compileNote_iff]
  induction notes with
  | nil => simp
  | cons n rest ih =>
    rw [List.forall_mem_cons, ← ih]
    constructor
    · rintro ⟨steps, hsteps⟩
      obtain ⟨step, more, hstep, hmore, -⟩ := List.forall₂_cons_left_iff.mp hsteps
      exact ⟨⟨step, hstep⟩, more, hmore⟩
    · rintro ⟨⟨step, hstep⟩, more, hmore⟩
      exact ⟨step :: more, .cons hstep hmore⟩

theorem compileFrom_cons_of_ok {position : ℕ} {rest : List (Note Float)}
    {f : CompileFault Float} (hstep : compileNote ls t scale n = .ok step) :
    compileFrom ls t scale position (n :: rest) = .error f ↔
      compileFrom ls t scale (position + 1) rest = .error f := by
  rw [compileFrom, hstep]
  cases compileFrom ls t scale (position + 1) rest with
  | error fault => simp
  | ok steps => simp

/-- The first note that cannot be played, with the notes before and behind it. -/
structure FirstBad (ls : LogScale Float) (t : Table Float) (scale : Float)
    (notes before : List (Note Float)) (n : Note Float) : Prop where
  split : ∃ after, notes = before ++ n :: after
  playable : ∀ m ∈ before, Playable ls t scale m
  bad : ¬ Playable ls t scale n

theorem FirstBad.cons {notes before : List (Note Float)} {m : Note Float}
    (h : FirstBad ls t scale notes before n) (hm : Playable ls t scale m) :
    FirstBad ls t scale (m :: notes) (m :: before) n := by
  obtain ⟨⟨after, rfl⟩, hplayable, hbad⟩ := h
  exact ⟨⟨after, rfl⟩, List.forall_mem_cons.mpr ⟨hm, hplayable⟩, hbad⟩

/-- Notes behind it do not matter. -/
theorem FirstBad.append_right {notes before : List (Note Float)}
    (h : FirstBad ls t scale notes before n) (more : List (Note Float)) :
    FirstBad ls t scale (notes ++ more) before n := by
  obtain ⟨⟨after, rfl⟩, hplayable, hbad⟩ := h
  exact ⟨⟨after ++ more, by simp⟩, hplayable, hbad⟩

/-- Notes in front of it move it on. -/
theorem FirstBad.append_left {notes before front : List (Note Float)}
    (h : FirstBad ls t scale notes before n) (hfront : ∀ m ∈ front, Playable ls t scale m) :
    FirstBad ls t scale (front ++ notes) (front ++ before) n := by
  obtain ⟨⟨after, rfl⟩, hplayable, hbad⟩ := h
  refine ⟨⟨after, by simp⟩, ?_, hbad⟩
  exact fun m hm => (List.mem_append.mp hm).elim (hfront m) (hplayable m)

/-- The first bad note is reported, at its place behind the position counted from. -/
theorem compileFrom_eq_error_iff {position : ℕ} {notes : List (Note Float)}
    {f : CompileFault Float} :
    compileFrom ls t scale position notes = .error f ↔
      ∃ before n fault, FirstBad ls t scale notes before n ∧
        compileNote ls t scale n = .error fault ∧ f = .note (position + before.length) fault := by
  constructor
  · intro h
    induction notes generalizing position with
    | nil => cases h
    | cons n rest ih =>
      cases hnote : compileNote ls t scale n with
      | error fault =>
        rw [compileFrom, hnote] at h
        refine ⟨[], n, fault, ⟨⟨rest, rfl⟩, ?_, ?_⟩, hnote, (Except.error.inj h).symm⟩
        · exact fun _ hm => absurd hm List.not_mem_nil
        · exact exists_compileNote_error_iff.mp ⟨fault, hnote⟩
      | ok step =>
        obtain ⟨before, m, fault, hfirst, hm, rfl⟩ := ih ((compileFrom_cons_of_ok hnote).mp h)
        have hn : Playable ls t scale n := exists_compileNote_iff.mp ⟨step, hnote⟩
        refine ⟨n :: before, m, fault, hfirst.cons hn, hm, ?_⟩
        rw [List.length_cons]
        congr 1
        omega
  · rintro ⟨before, n, fault, ⟨⟨after, rfl⟩, hplayable, -⟩, hnote, rfl⟩
    induction before generalizing position with
    | nil =>
      rw [List.nil_append, compileFrom, hnote]
      rfl
    | cons m rest ih =>
      obtain ⟨hm, hrest⟩ := List.forall_mem_cons.mp hplayable
      obtain ⟨step, hstep⟩ := exists_compileNote_iff.mpr hm
      rw [List.cons_append, compileFrom_cons_of_ok hstep, ih hrest, List.length_cons]
      congr 2
      omega

/-! ## One melody after the other -/

theorem compileFrom_append_ok {position : ℕ} {a b : List (Note Float)}
    {xs ys : List (Step Float)} (ha : compileFrom ls t scale 0 a = .ok xs)
    (hb : compileFrom ls t scale 0 b = .ok ys) :
    compileFrom ls t scale position (a ++ b) = .ok (xs ++ ys) := by
  rw [compileFrom_eq_ok_iff] at ha hb ⊢
  exact List.rel_append ha hb

/-- A bad note of the first melody is reported as if there were no second one. -/
theorem compileFrom_append_error {position : ℕ} {a : List (Note Float)} {f : CompileFault Float}
    (ha : compileFrom ls t scale position a = .error f) (b : List (Note Float)) :
    compileFrom ls t scale position (a ++ b) = .error f := by
  obtain ⟨before, n, fault, hfirst, hnote, hf⟩ := compileFrom_eq_error_iff.mp ha
  exact compileFrom_eq_error_iff.mpr ⟨before, n, fault, hfirst.append_right b, hnote, hf⟩

/-- A bad note of the second melody is reported as many places later as the first melody has
notes. -/
theorem compileFrom_append_shift {a b : List (Note Float)} {xs : List (Step Float)}
    {f : CompileFault Float} (ha : compileFrom ls t scale 0 a = .ok xs)
    (hb : compileFrom ls t scale 0 b = .error f) :
    ∃ i fault, f = .note i fault ∧
      compileFrom ls t scale 0 (a ++ b) = .error (.note (a.length + i) fault) := by
  obtain ⟨before, n, fault, hfirst, hnote, rfl⟩ := compileFrom_eq_error_iff.mp hb
  have hplayable := (exists_compileFrom_iff 0).mp ⟨xs, ha⟩
  refine ⟨_, fault, rfl, compileFrom_eq_error_iff.mpr
    ⟨a ++ before, n, fault, hfirst.append_left hplayable, hnote, ?_⟩⟩
  rw [List.length_append, Nat.zero_add, Nat.zero_add]

/-! ## What is asked before the first note -/

/-- The scale and the table can be used for songs. -/
structure Ready (t : Table Float) (scale : Float) : Prop where
  scale : ofInt 0 < scale
  moves : ¬ t.constants.outerLoopMoves ≤ 0

theorem compile_of_ready (ls : LogScale Float) {notes : List (Note Float)} (hne : notes ≠ [])
    (hle : notes.length ≤ maxNotes) (h : Ready t scale) :
    compile ls t scale notes =
      (compileFrom ls t scale 0 notes).map fun steps => { steps, scale } := by
  rw [compile, if_neg (by simpa using hne), if_neg (Nat.not_lt.mpr hle),
    if_neg (not_not.mpr h.scale), if_neg h.moves]
  cases compileFrom ls t scale 0 notes with
  | error fault => rfl
  | ok steps => rfl

/-- Where scale or table cannot be used, all melodies of a proper length meet with the same
fault. -/
theorem exists_fault_of_not_ready (ls : LogScale Float) (h : ¬ Ready t scale) :
    ∃ f, ∀ notes : List (Note Float), notes ≠ [] → notes.length ≤ maxNotes →
      compile ls t scale notes = .error f := by
  by_cases hscale : ofInt 0 < scale
  · have hmoves : t.constants.outerLoopMoves ≤ 0 := not_not.mp fun hmoves => h ⟨hscale, hmoves⟩
    refine ⟨.outerLoop t.constants.outerLoopMoves, fun notes hne hle => ?_⟩
    rw [compile, if_neg (by simpa using hne), if_neg (Nat.not_lt.mpr hle),
      if_neg (not_not.mpr hscale), if_pos hmoves]
  · refine ⟨.scale scale, fun notes hne hle => ?_⟩
    rw [compile, if_neg (by simpa using hne), if_neg (Nat.not_lt.mpr hle), if_pos hscale]

/-- A melody can be compiled exactly if it has a proper length and all its notes can be
played. -/
theorem exists_compile_iff {notes : List (Note Float)} :
    (∃ s, compile ls t scale notes = .ok s) ↔
      (notes ≠ [] ∧ notes.length ≤ maxNotes) ∧ Ready t scale ∧
        ∀ n ∈ notes, Playable ls t scale n := by
  rw [← exists_compileFrom_iff 0]
  constructor
  · rintro ⟨s, hs⟩
    obtain ⟨hlength, ⟨hscale, hmoves⟩, hsteps, -⟩ := compile_eq_ok_iff.mp hs
    exact ⟨hlength, ⟨hscale, hmoves⟩, s.steps, hsteps⟩
  · rintro ⟨hlength, ⟨hscale, hmoves⟩, steps, hsteps⟩
    exact ⟨⟨steps, scale⟩, compile_eq_ok_iff.mpr ⟨hlength, ⟨hscale, hmoves⟩, hsteps, rfl⟩⟩

/-! ## What is reported -/

/-- The label under which a melody is refused, and the reason for it. A note is named by the
number of notes before it, all of which can be played. -/
inductive Refused (ls : LogScale Float) (t : Table Float) (scale : Float)
    (notes : List (Note Float)) (label : Label) : Prop where
  | count (hcount : notes = [] ∨ maxNotes < notes.length) (hcode : label.code = .song)
      (hcontext : label.context = [])
  | scale (hscale : ¬ ofInt 0 < scale) (hcode : label.code = .configValidation)
      (hplace : label.sectionName = "song" ∧ label.optionName = "scale")
  | outerLoop (hmoves : t.constants.outerLoopMoves ≤ 0) (hcode : label.code = .configValidation)
      (hplace : label.sectionName = "timing" ∧ label.optionName = "outer_loop_moves")
  | note (before : List (Note Float)) (n : Note Float)
      (hfirst : FirstBad ls t scale notes before n) (hcode : label.code = .song)
      (hcontext : label.context = [("note", .int (Int64.ofNat before.length))])

theorem Refused.code_ne {notes : List (Note Float)} {label : Label}
    (h : Refused ls t scale notes label) : label.code ≠ .tableRange := by
  cases h with
  | count _ hcode => rw [hcode]; decide
  | scale _ hcode => rw [hcode]; decide
  | outerLoop _ hcode => rw [hcode]; decide
  | note _ _ _ hcode => rw [hcode]; decide

theorem label?_note {reason : NoteFault Float} (h : ∀ fault, reason ≠ .row fault) (i : ℕ) :
    ∃ label, (CompileFault.note i reason).toFault.label? = some label ∧ label.code = .song ∧
      label.context = [("note", .int (Int64.ofNat i))] := by
  cases reason with
  | row fault => exact absurd rfl (h fault)
  | noMagnitude note => exact ⟨_, rfl, rfl, rfl⟩
  | outside scaled fMin fMax => exact ⟨_, rfl, rfl, rfl⟩
  | tooLong periods => exact ⟨_, rfl, rfl, rfl⟩

theorem refused_of_compile {notes : List (Note Float)} {f : CompileFault Float}
    (h : compile ls t scale notes = .error f) :
    ∃ label, f.toFault.label? = some label ∧ Refused ls t scale notes label := by
  rw [compile] at h
  split at h
  · next hempty =>
    obtain rfl := Except.error.inj h
    exact ⟨_, rfl, .count (.inl (List.isEmpty_iff.mp hempty)) rfl rfl⟩
  split at h
  · next hmany =>
    obtain rfl := Except.error.inj h
    exact ⟨_, rfl, .count (.inr hmany) rfl rfl⟩
  split at h
  · next hscale =>
    obtain rfl := Except.error.inj h
    exact ⟨_, rfl, .scale hscale rfl ⟨rfl, rfl⟩⟩
  split at h
  · next hmoves =>
    obtain rfl := Except.error.inj h
    exact ⟨_, rfl, .outerLoop hmoves rfl ⟨rfl, rfl⟩⟩
  split at h
  · next fault hfault =>
    obtain rfl := Except.error.inj h
    obtain ⟨before, n, reason, hfirst, hnote, rfl⟩ := compileFrom_eq_error_iff.mp hfault
    have hreason (fault : Fault) : reason ≠ .row fault := by
      rintro rfl
      exact compileNote_ne_row hnote
    obtain ⟨label, hlabel, hcode, hcontext⟩ := label?_note hreason (0 + before.length)
    rw [Nat.zero_add] at hcontext
    exact ⟨label, hlabel, .note before n hfirst hcode hcontext⟩
  · cases h

/-! ## Whole melodies -/

/-- Two melodies, each alone and one after the other. -/
structure Joins (ls : LogScale Float) (t : Table Float) (scale : Float)
    (a b : List (Note Float)) : Prop where
  succeeds : (∃ s, compile ls t scale (a ++ b) = .ok s) ↔
    (∃ s, compile ls t scale a = .ok s) ∧ ∃ s, compile ls t scale b = .ok s
  steps : ∀ s s', compile ls t scale a = .ok s → compile ls t scale b = .ok s' →
    compile ls t scale (a ++ b) = .ok { steps := s.steps ++ s'.steps, scale }
  /-- What is wrong with the first melody is wrong with both. -/
  first : ∀ f, compile ls t scale a = .error f → compile ls t scale (a ++ b) = .error f
  /-- Otherwise a note of the second melody is, and it is counted on. -/
  second : ∀ s f, compile ls t scale a = .ok s → compile ls t scale b = .error f →
    ∃ i fault, f = .note i fault ∧
      compile ls t scale (a ++ b) = .error (.note (a.length + i) fault)

theorem joins_of_first {a b : List (Note Float)} {f : CompileFault Float}
    (ha : compile ls t scale a = .error f) (hab : compile ls t scale (a ++ b) = .error f) :
    Joins ls t scale a b where
  succeeds := by simp [ha, hab]
  steps := by simp [ha]
  first := by simp [ha, hab]
  second := by simp [ha]

theorem joins_of_ready {a b : List (Note Float)} (h : Ready t scale) (ha : a ≠ []) (hb : b ≠ [])
    (hab : a ++ b ≠ []) (hle : (a ++ b).length ≤ maxNotes) : Joins ls t scale a b := by
  rw [List.length_append] at hle
  have hfront := compile_of_ready ls ha (Nat.le_of_add_right_le hle) h
  have hback := compile_of_ready ls hb (Nat.le_of_add_left_le hle) h
  have hwhole := compile_of_ready ls hab (by rwa [List.length_append]) h
  cases hxs : compileFrom ls t scale 0 a with
  | error f =>
    rw [hxs] at hfront
    rw [compileFrom_append_error hxs b] at hwhole
    exact joins_of_first hfront hwhole
  | ok xs =>
    cases hys : compileFrom ls t scale 0 b with
    | error f =>
      obtain ⟨i, fault, rfl, hshift⟩ := compileFrom_append_shift hxs hys
      rw [hxs, Except.map] at hfront
      rw [hys, Except.map] at hback
      rw [hshift, Except.map] at hwhole
      exact {
        succeeds := by simp [hback, hwhole]
        steps := by simp [hback]
        first := by simp [hfront]
        second := by
          intro s f _ hf
          rw [hback] at hf
          exact ⟨i, fault, (Except.error.inj hf).symm, hwhole⟩ }
    | ok ys =>
      rw [hxs, Except.map] at hfront
      rw [hys, Except.map] at hback
      rw [compileFrom_append_ok hxs hys, Except.map] at hwhole
      exact {
        succeeds := by simp [hfront, hback, hwhole]
        steps := by
          intro s s' hs hs'
          rw [hfront] at hs
          rw [hback] at hs'
          obtain rfl := Except.ok.inj hs
          obtain rfl := Except.ok.inj hs'
          exact hwhole
        first := by simp [hfront]
        second := by simp [hback] }

theorem joins_of_length {a b : List (Note Float)} (ha : a ≠ []) (hb : b ≠ [])
    (hle : a.length + b.length ≤ maxNotes) : Joins ls t scale a b := by
  have hab : a ++ b ≠ [] := fun hnil => ha (List.append_eq_nil_iff.mp hnil).1
  have hlength : (a ++ b).length ≤ maxNotes := by rwa [List.length_append]
  by_cases h : Ready t scale
  · exact joins_of_ready h ha hb hab hlength
  · obtain ⟨f, hf⟩ := exists_fault_of_not_ready ls h
    exact joins_of_first (hf a ha (Nat.le_of_add_right_le hle)) (hf (a ++ b) hab hlength)

/-- A melody is compiled note by note. Two melodies in a row are compiled as each of them
alone, and the first fault is reported with its place in the whole. A melody that cannot be
compiled is refused for its length, for the scale, for the bookkeeping, or for the first of
its notes that cannot be played; and never for a row that the table does not have, since
the table has the row nearest to any frequency. -/
theorem compile_goes_note_by_note (ls : LogScale Float) (t : Table Float) (scale : Float) :
    (∀ a b : List (Note Float), a ≠ [] → b ≠ [] → a.length + b.length ≤ 127 →
      Joins ls t scale a b) ∧
    (∀ notes : List (Note Float), (∃ s, compile ls t scale notes = .ok s) ↔
      (notes ≠ [] ∧ notes.length ≤ 127) ∧ Ready t scale ∧
        ∀ n ∈ notes, Playable ls t scale n) ∧
    (∀ notes f, compile ls t scale notes = .error f →
      (∃ label, f.toFault.label? = some label ∧ Refused ls t scale notes label) ∧
      f.toFault.hasCode .tableRange = false) ∧
    (∀ i, t.actualFrequency i = .error (.outsideTable i) ↔ ¬ (0 ≤ i.toInt ∧ i.toInt ≤ 255)) ∧
    ∀ x, t.actualFrequency (Int64.ofNat (t.nearestIndex ls x).val) =
      .ok (t.actualAt (t.nearestIndex ls x)) := by
  refine ⟨fun a b => joins_of_length, fun notes => exists_compile_iff, ?_,
    t.actualFrequency_eq_error_iff, fun x => t.actualFrequency_eq _⟩
  intro notes f hf
  obtain ⟨label, hlabel, hrefused⟩ := refused_of_compile hf
  refine ⟨⟨label, hlabel, hrefused⟩, ?_⟩
  rw [Fault.hasCode, hlabel, Option.any_some]
  exact decide_eq_false hrefused.code_ne

/-- Half a second of silence. -/
def silence : Note Float := ⟨ofInt 0, ofInt 500⟩

/-- A tone below zero. -/
def negativeTone : Note Float := ⟨ofInt (-1), ofInt 250⟩

/-- The second note of a melody cannot be played. Behind a melody of two notes that can be
played, it is reported as the fourth one. -/
theorem negative_tone_counted_on :
    (∃ s, compile ⟨id, id⟩ Table.HalfHertz.table (ofInt 1) restAndTone = .ok s) ∧
    ∃ fault,
      compile ⟨id, id⟩ Table.HalfHertz.table (ofInt 1) [silence, negativeTone] =
        .error (.note 1 fault) ∧
      compile ⟨id, id⟩ Table.HalfHertz.table (ofInt 1) (restAndTone ++ [silence, negativeTone]) =
        .error (.note 3 fault) := by
  obtain ⟨hjoins, -⟩ := compile_goes_note_by_note ⟨id, id⟩ Table.HalfHertz.table (ofInt 1)
  have hplayed : ((compile ⟨id, id⟩ Table.HalfHertz.table (ofInt 1) restAndTone).toOption.isSome &&
      (compileNote ⟨id, id⟩ Table.HalfHertz.table (ofInt 1) silence).toOption.isSome) = true := by
    decide +kernel
  have hok {ε α : Type} {e : Except ε α} (h : e.toOption.isSome = true) : ∃ a, e = .ok a := by
    cases e with
    | ok a => exact ⟨a, rfl⟩
    | error fault => cases h
  obtain ⟨hfront, hsilence⟩ := Bool.and_eq_true_iff.mp hplayed
  obtain ⟨s, hs⟩ := hok hfront
  have hbad : compileNote ⟨id, id⟩ Table.HalfHertz.table (ofInt 1) negativeTone =
      .error (.noMagnitude negativeTone) := by
    rw [compileNote, if_pos (by decide +kernel)]
  have hback : compile ⟨id, id⟩ Table.HalfHertz.table (ofInt 1) [silence, negativeTone] =
      .error (.note 1 (.noMagnitude negativeTone)) := by
    obtain ⟨-, hready, -⟩ := exists_compile_iff.mp ⟨s, hs⟩
    have hfirst : FirstBad ⟨id, id⟩ Table.HalfHertz.table (ofInt 1) [silence, negativeTone]
        [silence] negativeTone :=
      ⟨⟨[], rfl⟩, by simpa using exists_compileNote_iff.mp (hok hsilence),
        exists_compileNote_error_iff.mp ⟨_, hbad⟩⟩
    rw [compile_of_ready _ (by simp) (by decide) hready,
      compileFrom_eq_error_iff.mpr ⟨_, _, _, hfirst, hbad, rfl⟩]
    rfl
  obtain ⟨i, fault, hfault, hwhole⟩ :=
    (hjoins restAndTone [silence, negativeTone] (by simp [restAndTone]) (by simp)
      (by decide)).second s _ hs hback
  obtain ⟨rfl, rfl⟩ := CompileFault.note.inj hfault
  exact ⟨⟨s, hs⟩, _, hback, hwhole⟩

end StepTone.Song
