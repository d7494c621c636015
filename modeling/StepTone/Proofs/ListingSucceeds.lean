/-
StepTone.Proofs.ListingSucceeds — a table that was made can be listed.

What can go wrong with a listing is told in advance: its name, the length of its rows, and
a number of its document that is not finite. The first two are looked at when a profile is
read and when flags are put over it. The numbers come out of the table and the song, which
are only made where every number is far away from the ends of the range.

* `Listable` — the part of a profile that a listing hangs on.
* `listable_of_load`, `Listable.apply` — a profile from a file, and one under flags.
* `isFinite_of_compileNote` — the numbers of one note, rest or tone.
* `isFinite_of_mem_shownNumbers` — all numbers of a document.
* `listing_never_fails` — every format of a table that was made.
-/
import StepTone.Proofs.FlagOverrides
import StepTone.Proofs.ListingValues
import StepTone.Proofs.ProfileReading
import StepTone.Proofs.RunEffects
import StepTone.Proofs.SongBlock
import StepTone.Toml.Document

namespace StepTone

/-! ## Profiles that can be listed -/

namespace Profile

open Settings (fresh_ofIni fresh_ofToml)

/-- The name and the rows of the layout are ones that a listing can have, and the scale of
the song, if there is one, is finite. -/
structure Listable (p : Profile) : Prop where
  name : Listing.checkName p.output.name = .ok ()
  perLine : 0 < p.output.perLine
  scale : ∀ song, p.song = some song → Binary64.isFinite song.scale = true

theorem listable_usual : Listable {} where
  name := rfl
  perLine := by decide
  scale := nofun

/-- Settings from a file have not been read by anybody. -/
theorem fresh_settingsOfFile {decode : Toml.Decoder} {path : String}
    {contents : Except Fault String} {s : Settings}
    (h : settingsOfFile decode path contents = .ok s) : s.Fresh := by
  rw [settingsOfFile, mapError_eq_ok_iff] at h
  obtain ⟨text, -, h⟩ := bind_eq_ok_iff.mp h
  by_cases htoml : isToml path = true
  · rw [if_pos htoml] at h
    obtain ⟨members, -, hmembers⟩ := bind_eq_ok_iff.mp h
    exact fresh_ofToml hmembers
  · rw [if_neg htoml] at h
    exact fresh_ofIni (mapError_eq_ok_iff.mp h)

theorem listable_of_filled {s : Settings} {p : Profile} (h : Filled s p) : Listable p where
  name := (field_name.mpr h.output.name).2
  perLine := Int64.not_le.mp (field_perLine.mpr h.output.perLine).2
  scale := by
    intro song hsong
    have hfilled := h.song
    split at hfilled
    · obtain ⟨song', hsong', hp⟩ := hfilled
      obtain rfl := Option.some.inj (hsong.symm.trans hp)
      have hscale := (field_scale.mpr hsong'.scale).2
      simp only [Bool.or_eq_true, not_or, Bool.not_eq_true', Bool.not_eq_false] at hscale
      exact hscale.1
    · rw [hfilled] at hsong
      cases hsong

theorem listable_of_load {decode : Toml.Decoder} {path : String} {contents : Except Fault String}
    {p : Profile} (h : load decode path contents = .ok p) : Listable p := by
  obtain ⟨s, hs, hrun⟩ := bind_eq_ok_iff.mp h
  exact listable_of_filled ((run_eq_ok_iff (fresh_settingsOfFile hs)).mp hrun).2

/-- Flags put nothing over a profile that a listing cannot have. -/
theorem Listable.apply {p q : Profile} {f : Command.Flags} (hp : p.Listable)
    (h : f.apply p = .ok q) : q.Listable := by
  rw [Command.apply_eq] at h
  simp only [bind_eq_ok_iff] at h
  obtain ⟨format, -, name, hname, perLine, hperLine, width, -, encoding, -, hq⟩ := h
  obtain rfl := Except.ok.inj hq
  refine ⟨?_, ?_, hp.scale⟩
  · cases hf : f.name with
    | none =>
      rw [hf] at hname
      obtain rfl := Except.ok.inj hname
      exact hp.name
    | some word =>
      rw [hf, Option.elim_some] at hname
      cases hword : Listing.checkName word with
      | error fault =>
        rw [hword] at hname
        cases hname
      | ok _ =>
        rw [hword] at hname
        obtain rfl := Except.ok.inj hname
        exact hword
  · cases hf : f.perLine with
    | none =>
      rw [hf] at hperLine
      obtain rfl := Except.ok.inj hperLine
      exact hp.perLine
    | some n =>
      rw [hf, Option.elim_some] at hperLine
      split at hperLine
      · cases hperLine
      · next hpos =>
        obtain rfl := Except.ok.inj hperLine
        exact Int64.not_le.mp hpos

/-- A profile that a run works with: the usual one or one from a file, under flags. -/
def Effective (q : Profile) : Prop :=
  ∃ p, (p = {} ∨ ∃ decode path contents, load decode path contents = .ok p) ∧
    ∃ f : Command.Flags, f.apply p = .ok q

theorem Effective.listable {q : Profile} (h : q.Effective) : q.Listable := by
  obtain ⟨p, rfl | ⟨decode, path, contents, hload⟩, f, hf⟩ := h
  · exact listable_usual.apply hf
  · exact (listable_of_load hload).apply hf

end Profile

/-! ## Numbers that are finite -/

namespace Listing

open Arithmetic (ofInt isMagnitude isZero)
open Binary64
open Firmware (Constants)
open Song (Sequence compileNote compileNote_cases)
open Table (Made)

variable {ls curve : LogScale Float} {c : Constants} {o : Table.Options} {t : Table Float}

theorem upTo_thousand : UpTo (1000 : Float) 10 := by
  have h : Denotes (1000 : Float) 1000 := by
    have h := denotes_ofNat 1000
    rwa [rounded_natCast (by norm_num)] at h
  exact ⟨h.isNumber, by rw [h.toRat_eq]; norm_num, by rw [h.toRat_eq]; norm_num⟩

/-- Milliseconds of a limit of the period. -/
theorem isFinite_milliseconds {x : Float} (h : Within x (-63) 80) : isFinite (x * 1000) = true :=
  (h.upTo.mul upTo_thousand (by norm_num) (by norm_num) (by norm_num) (by norm_num)).isFinite
    (by norm_num)

theorem isFinite_bounds (h : Made curve c o t) :
    isFinite (t.bounds.tMin * 1000) = true ∧ isFinite (t.bounds.tMax * 1000) = true ∧
      isFinite t.bounds.fMin = true ∧ isFinite t.bounds.fMax = true := by
  rw [h.bounds_eq]
  exact ⟨isFinite_milliseconds h.sound.within_tMin, isFinite_milliseconds h.sound.within_tMax,
    h.sound.within_fMin.isFinite (by norm_num), h.sound.within_fMax.isFinite (by norm_num)⟩

theorem isFinite_of_isMagnitude {x : Float} (h : isMagnitude x = true) : isFinite x = true :=
  (Bool.and_eq_true_iff.mp h).1

/-- A zero stays finite under a finite factor. -/
theorem isFinite_mul_of_isZero {x y : Float} (hx : isZero x = true) (hfinite : isFinite x = true)
    (hy : isFinite y = true) : isFinite (x * y) = true := by
  obtain ⟨hle, hge⟩ := Bool.and_eq_true_iff.mp hx
  have hle := (le_iff.mp (of_decide_eq_true hle)).2.2
  have hge := (le_iff.mp (of_decide_eq_true hge)).2.2
  have hzero : toRat x = 0 := by
    have hnull : toRat (ofInt 0) = 0 := (denotes_natCast (n := 0) (by norm_num)).toRat_eq
    rw [hnull] at hle hge
    exact le_antisymm hle hge
  have hproduct := denotes_mul hfinite hy
  rw [hzero, zero_mul, rounded_zero] at hproduct
  exact hproduct.isFinite (by rw [abs_zero]; exact beyond_pos)

/-- What lies between finite numbers is finite. -/
theorem isFinite_of_between {x y z : Float} (hx : isFinite x = true) (hz : isFinite z = true)
    (hxy : x ≤ y) (hyz : y ≤ z) : isFinite y = true := by
  obtain ⟨-, hnumber, hlow⟩ := le_iff.mp hxy
  obtain ⟨-, -, hhigh⟩ := le_iff.mp hyz
  have hx := (isFinite_iff.mp hx).2
  have hz := (isFinite_iff.mp hz).2
  refine isFinite_iff.mpr ⟨hnumber, abs_lt.mpr ⟨?_, ?_⟩⟩
  · exact (abs_lt.mp hx).1.trans_le hlow
  · exact hhigh.trans_lt (abs_lt.mp hz).2

/-- The numbers of a compiled note. A rest is a zero, and a tone lies within the bounds. -/
theorem isFinite_of_compileNote (h : Made curve c o t) {scale : Float}
    (hscale : isFinite scale = true) {n : Song.Note Float} {step : Song.Step Float}
    (hstep : compileNote ls t scale n = .ok step) :
    isFinite step.scaled = true ∧ isFinite step.note.durationMs = true := by
  obtain ⟨⟨hfrequency, hduration⟩, hcases⟩ := compileNote_cases hstep
  have hfrequency := isFinite_of_isMagnitude hfrequency
  have hduration := isFinite_of_isMagnitude hduration
  rcases hcases with ⟨hrest, hhold⟩ | ⟨-, hbounds, row, -, hhold⟩
  · obtain ⟨-, rfl⟩ := Song.hold_eq_ok_iff.mp hhold
    exact ⟨isFinite_mul_of_isZero hrest hfrequency hscale, hduration⟩
  · obtain ⟨-, rfl⟩ := Song.hold_eq_ok_iff.mp hhold
    obtain ⟨-, -, hlow, hhigh⟩ := isFinite_bounds h
    exact ⟨isFinite_of_between hlow hhigh hbounds.1 hbounds.2, hduration⟩

/-- The numbers of all notes from a position on. -/
theorem isFinite_of_compileFrom (h : Made curve c o t) {scale : Float}
    (hscale : isFinite scale = true) {position : ℕ} {notes : List (Song.Note Float)}
    {steps : List (Song.Step Float)}
    (hsteps : Song.compileFrom ls t scale position notes = .ok steps) :
    ∀ step ∈ steps, isFinite step.scaled = true ∧ isFinite step.note.durationMs = true :=
  Song.forall_mem_of_compileFrom (fun _ _ hstep => isFinite_of_compileNote h hscale hstep) hsteps

/-- The song of a profile is what its notes were compiled to. -/
theorem steps_of_song? {q : Profile} {s : Option (Sequence Float)}
    (hs : Command.song? ls q t = .ok s) :
    songSteps s = [] ∨ ∃ song, q.song = some song ∧
      Song.compileFrom ls t song.scale 0 song.notes = .ok (songSteps s) := by
  rw [Command.song?] at hs
  cases hsong : q.song with
  | none =>
    rw [hsong] at hs
    obtain rfl := Except.ok.inj hs
    exact .inl rfl
  | some song =>
    rw [hsong] at hs
    obtain ⟨sequence, hcompile, hs⟩ := Profile.bind_eq_ok_iff.mp hs
    obtain rfl := Except.ok.inj hs
    have hsteps := (Song.compile_eq_ok_iff.mp (Profile.mapError_eq_ok_iff.mp hcompile)).2.2.1
    exact .inr ⟨song, rfl, hsteps⟩

/-- All numbers of a table that was made, and of its song, are finite. -/
theorem isFinite_of_mem_shownNumbers (h : Made curve c o t) {q : Profile} (hq : q.Listable)
    {s : Option (Sequence Float)} (hs : Command.song? ls q t = .ok s) :
    ∀ x ∈ shownNumbers t s, isFinite x = true := by
  refine forall_mem_shownNumbers.mpr ⟨⟨isFinite_bounds h, ?_⟩, ?_⟩
  · intro e he
    obtain ⟨i, hi, rfl⟩ := Vector.getElem_of_mem (Vector.mem_toList_iff.mp he)
    exact (h.within_frequency ⟨i, hi⟩).isFinite (by norm_num)
  · rcases steps_of_song? hs with hnone | ⟨song, hsong, hsteps⟩
    · rw [hnone]
      exact fun _ hmem => absurd hmem List.not_mem_nil
    · exact isFinite_of_compileFrom h (hq.scale song hsong) hsteps

/-! ## Writing -/

/-- A layout with a proper name and proper rows is the one that its request asks for. -/
theorem layout_toRequest {l : Layout} (hname : checkName l.name = .ok ())
    (hperLine : 0 < l.perLine) : l.toRequest.layout = .ok l := by
  have hne : l.name ≠ "" := by
    intro hempty
    rw [hempty] at hname
    exact absurd (isIdentifier_of_checkName hname) (by decide)
  rw [Request.layout, Layout.toRequest]
  simp only [if_neg (name_ne_empty l.format), ofExactName?_name, if_neg (Int64.not_le.mpr hperLine),
    if_neg hne, hname]
  rfl

/-- A text that was made is handed over in one write. -/
theorem write_of_render {m : Type → Type} [Monad m] [LawfulMonad m] (w : String → m Unit)
    {l : Layout} {s : Option (Sequence Float)} {text : String}
    (hlayout : l.toRequest.layout = .ok l) (hrender : render l t s = .ok text) :
    l.toRequest.write (fun text => do w text; return none) t s =
      (do w text; return .ok ()) := by
  rw [Request.write, (text_eq_ok_iff hlayout).mpr hrender]
  simp

/-- A listing never fails late. For a profile that a run works with, once its table was
made and its song, if it has one, was compiled, there is a text in every format; and a
writer that does not fail is handed this text, and nothing else goes wrong. -/
theorem listing_never_fails {q : Profile} (hq : q.Effective)
    (ht : Table.generate curve q.constants q.table = .ok t) {s : Option (Sequence Float)}
    (hs : Command.song? ls q t = .ok s) (format : Format) :
    ∃ text, render { q.output with format } t s = .ok text ∧
      ∀ (m : Type → Type) [Monad m] [LawfulMonad m] (w : String → m Unit),
        ({ q.output with format } : Layout).toRequest.write (fun text => do w text; return none)
          t s = (do w text; return .ok ()) := by
  have hlistable := hq.listable
  have hlayout := layout_toRequest (l := { q.output with format }) hlistable.name hlistable.perLine
  obtain ⟨text, htext⟩ := exists_render_iff.mpr fun _ =>
    isFinite_of_mem_shownNumbers (Table.made_of_generate ht) hlistable hs
  exact ⟨text, htext, fun m _ _ w => write_of_render w hlayout htext⟩

/-- A file with a rest and a tone of 100 Hz. -/
def songFile : String :=
  "[song]\nnotes = 0:250, 100:500\n"

/-- Its song is listed in a document, with the table of the usual constants. -/
theorem songFile_listed :
    ∃ q s text, Profile.load Toml.decode "song.cfg" (.ok songFile) = .ok q ∧ q.Effective ∧
      Table.generate Table.HalfHertz.scale q.constants q.table = .ok Table.HalfHertz.table ∧
      Command.song? ⟨id, id⟩ q Table.HalfHertz.table = .ok s ∧ (songSteps s).length = 2 ∧
      render { q.output with format := .json } Table.HalfHertz.table s = .ok text := by
  have hmade : ((Profile.load Toml.decode "song.cfg" (.ok songFile)).toOption.bind fun q =>
      (Command.song? ⟨id, id⟩ q Table.HalfHertz.table).toOption.map fun s =>
        (q.constants, q.table, (songSteps s).length)) = some ({}, {}, 2) := by
    decide +kernel
  have hok {ε α : Type} {e : Except ε α} {a : α} (h : e.toOption = some a) : e = .ok a := by
    cases e with
    | ok b => exact congrArg _ (Option.some.inj h)
    | error fault => cases h
  obtain ⟨q, hload, hsong⟩ := Option.bind_eq_some_iff.mp hmade
  obtain ⟨s, hs, hvalues⟩ := Option.map_eq_some_iff.mp hsong
  obtain ⟨hconstants, htable, hlength⟩ : q.constants = {} ∧ q.table = {} ∧
      (songSteps s).length = 2 := by simpa using hvalues
  have hq : q.Effective := ⟨q, .inr ⟨_, _, _, hok hload⟩, {}, rfl⟩
  have ht : Table.generate Table.HalfHertz.scale q.constants q.table =
      .ok Table.HalfHertz.table := by
    rw [hconstants, htable]
    exact Table.HalfHertz.generate_eq
  obtain ⟨text, htext, -⟩ := listing_never_fails hq ht (hok hs) .json
  exact ⟨q, s, text, hok hload, hq, ht, hok hs, hlength, htext⟩

end Listing

end StepTone
