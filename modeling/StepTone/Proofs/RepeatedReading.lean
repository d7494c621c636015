/-
StepTone.Proofs.RepeatedReading — a profile that is read twice.

Reading a profile leaves traces, and traces decide which names are reported as unknown. The
second reading starts from more of them than the first one did. It comes out the same all
the same: what is read does not depend on traces, and the accesses of the second reading
are those of the first, which have left all the traces that they can leave.

* `Recorded`, `marks_marks` — accesses that are made again leave nothing new.
* `Blind` — a reading that comes out the same whatever traces there are.
* `Blind.run_again` — a blind reading comes out the same the second time.
* `Event`, `following` — what may have happened to settings before.
* `second_profile_is_first` — a profile that is read twice in a row.
-/
import StepTone.Proofs.ReadingRules

namespace StepTone.Settings

variable {s : Settings}

/-! ## Accesses that are made again -/

/-- The trace of an access is there, unless there is nothing to leave one on. -/
def Recorded (s : Settings) : Access → Prop
  | .fetch name => name ∈ s.names → name ∈ s.fetched
  | .read name option => ∀ sec ∈ s.sections, sec.name = name →
    Text.lower option ∈ sec.options.keys → Text.lower option ∈ sec.touched

theorem mark_of_recorded {a : Access} (h : s.Recorded a) : s.mark a = s := by
  cases a with
  | fetch name =>
    refine if_neg fun hcond => hcond.2 ?_
    exact List.contains_iff_mem.mpr (h (isSome_section?_iff.mp hcond.1))
  | read name option => exact touch_of_forall h

theorem marks_of_recorded {accesses : List Access} (h : ∀ a ∈ accesses, s.Recorded a) :
    s.marks accesses = s := by
  induction accesses with
  | nil => rfl
  | cons a rest ih =>
    obtain ⟨ha, hrest⟩ := List.forall_mem_cons.mp h
    calc s.marks (a :: rest) = (s.mark a).marks rest := rfl
      _ = s.marks rest := by rw [mark_of_recorded ha]
      _ = s := ih hrest

/-- An access that was made is recorded, whatever came before and after it. -/
theorem recorded_marks {accesses : List Access} {a : Access} (h : a ∈ accesses) :
    (s.marks accesses).Recorded a := by
  cases a with
  | fetch name =>
    intro hname
    rw [names_marks] at hname
    exact mem_fetched_marks.mpr (.inr ⟨hname, h⟩)
  | read name option =>
    rintro sec hsec rfl hkey
    obtain ⟨old, -, hname, hoptions, htouched⟩ := touched_of_mem_marks hsec
    rw [hoptions] at hkey
    exact (htouched _).mpr (.inr ⟨hkey, option, hname ▸ h, rfl⟩)

/-- Accesses that are made again leave nothing new. -/
theorem marks_marks (s : Settings) (accesses : List Access) :
    (s.marks accesses).marks accesses = s.marks accesses :=
  marks_of_recorded fun _ ha => recorded_marks ha

/-! ## Readings that do not look at traces -/

section

variable {α β : Type}

/-- A reading that comes out the same whatever traces there are, and then always makes the
same accesses. -/
def Blind (x : Reading α) : Prop :=
  ∀ s : Settings, ∃ r accesses, ∀ done,
    x.run (s.marks done) = (r, s.marks (done ++ accesses))

namespace Blind

theorem pure (a : α) : Blind (Pure.pure a) := by
  intro s
  refine ⟨.ok a, [], fun done => ?_⟩
  rw [Reading.run_pure, List.append_nil]

theorem throw (fault : Fault) : Blind (MonadExcept.throw fault : Reading α) := by
  intro s
  refine ⟨.error fault, [], fun done => ?_⟩
  rw [Reading.run_throw, List.append_nil]

theorem bind {x : Reading α} {f : α → Reading β} (hx : Blind x) (hf : ∀ a, Blind (f a)) :
    Blind (x >>= f) := by
  intro s
  obtain ⟨r, first, hfirst⟩ := hx s
  cases r with
  | error fault =>
    refine ⟨.error fault, first, fun done => ?_⟩
    rw [Reading.run_bind, hfirst]
  | ok a =>
    obtain ⟨r, next, hnext⟩ := hf a s
    refine ⟨r, first ++ next, fun done => ?_⟩
    rw [Reading.run_bind, hfirst, ← List.append_assoc]
    exact hnext (done ++ first)

end Blind

/-! ### Sections and options -/

theorem section?_marks_of_none {name : String} (h : s.section? name = none)
    (done : List Access) : (s.marks done).section? name = none := by
  rw [section?_eq_none_iff, names_marks]
  exact section?_eq_none_iff.mp h

/-- Accesses leave every section with its name and its options. -/
theorem section?_marks_of_some {name : String} {sec : Section} (h : s.section? name = some sec)
    (done : List Access) : ∃ now, (s.marks done).section? name = some now ∧
      now.name = sec.name ∧ now.options = sec.options := by
  have hkept := section?_skeleton (s.marks done) name
  rw [skeleton_marks, ← section?_skeleton, h] at hkept
  obtain ⟨now, hnow, hsame⟩ := Option.map_eq_some_iff.mp hkept
  exact ⟨now, hnow, congrArg Prod.fst hsame, congrArg Prod.snd hsame⟩

theorem Section.get_congr {a b : Section} (hname : a.name = b.name)
    (hoptions : a.options = b.options) (kind : Kind α) (option : String) (fallback : Option α) :
    a.get kind option fallback = b.get kind option fallback := by
  simp only [Section.get, Section.value?, hname, hoptions]

theorem Blind.option (name : String) (kind : Kind α) (asked : String) (fallback : Option α) :
    Blind (Reading.option name kind asked fallback) := by
  intro s
  cases hsec : s.section? name with
  | none =>
    refine ⟨.error (.noSection name), [], fun done => ?_⟩
    rw [Reading.run_option_of_none (section?_marks_of_none hsec done), List.append_nil]
  | some sec =>
    refine ⟨sec.get kind asked fallback, [.read name asked], fun done => ?_⟩
    obtain ⟨now, hnow, hname, hoptions⟩ := section?_marks_of_some hsec done
    rw [Reading.run_option_of_section hnow, Section.get_congr hname hoptions, marks_append]
    rfl

/-- Whether there is a section does not depend on traces; what was read in it does, but is
not asked for. -/
theorem Blind.ifPresent {read : Reading α} (name : String) (usual : α) (hread : Blind read) :
    Blind (Profile.ifPresent name usual read) := by
  intro s
  have hfetch (done : List Access) :
      (s.marks done).fetch name = s.marks (done ++ [.fetch name]) := by
    rw [marks_append]
    rfl
  cases hsec : s.section? name with
  | none =>
    refine ⟨.ok usual, [.fetch name], fun done => ?_⟩
    have hnone := section?_marks_of_none hsec done
    rw [Profile.ifPresent, Reading.run_bind, Reading.run_fetch?, hfetch, hnone]
    rfl
  | some sec =>
    obtain ⟨r, accesses, hrun⟩ := hread s
    refine ⟨r, .fetch name :: accesses, fun done => ?_⟩
    obtain ⟨now, hnow, -⟩ := section?_marks_of_some hsec done
    rw [List.append_cons, Profile.ifPresent, Reading.run_bind, Reading.run_fetch?, hfetch, hnow]
    exact hrun (done ++ [.fetch name])

theorem compositional_blind : Compositional Blind where
  pure := .pure
  throw := .throw
  bind := .bind
  option := .option
  ifPresent := .ifPresent

/-- A blind reading comes out the same the second time, and leaves nothing new. -/
theorem Blind.run_again {x : Reading α} (h : Blind x) (s : Settings) :
    x.run (x.run s).2 = x.run s := by
  obtain ⟨r, accesses, hrun⟩ := h s
  have hfirst : x.run s = (r, s.marks accesses) := hrun []
  rw [hfirst, hrun accesses, marks_append, marks_marks]

end

end StepTone.Settings

namespace StepTone.Profile

open Settings

/-! ## Profiles -/

/-- The look at what is left over leaves no trace of its own. -/
theorem run_judge_snd (p : Profile) (s : Settings) : ((judge p).run s).2 = s := by
  rw [judge, Reading.run_bind, Reading.run_check]
  cases s.checkUnusedSections with
  | error fault => rfl
  | ok u =>
    dsimp only
    rw [Reading.run_bind, Reading.run_check]
    cases s.checkUnusedOptions with
    | error fault => rfl
    | ok u => rfl

/-- The traces of a profile are those of collecting it. -/
theorem run_ofSettings_snd (s : Settings) : (ofSettings.run s).2 = (collect.run s).2 := by
  rw [ofSettings_eq, Reading.run_bind]
  rcases collect.run s with ⟨r, t⟩
  cases r with
  | error fault => rfl
  | ok p => exact run_judge_snd p t

/-- Settings that are collected alike, traces included, are judged alike. -/
theorem run_ofSettings_congr {s t : Settings} (h : collect.run s = collect.run t) :
    ofSettings.run s = ofSettings.run t := by
  rw [ofSettings_eq, Reading.run_bind, Reading.run_bind, h]

/-- Something that happens to settings: an operation on them, or that a profile is read. -/
inductive Event : Type 1 where
  | call (c : Settings.Call)
  | profile

/-- The settings after an event. -/
def Event.leave (s : Settings) : Event → Settings
  | .call c => s.step c
  | .profile => (ofSettings.run s).2

/-- The settings after events. -/
def following (s : Settings) (events : List Event) : Settings :=
  events.foldl Event.leave s

/-- Whatever was done with settings before, a profile that is read twice in a row comes out
the same both times, as the same profile or the same fault, and the second reading leaves
the settings as the first one left them. -/
theorem second_profile_is_first (s : Settings) (events : List Event) :
    let first := ofSettings.run (following s events)
    let second := ofSettings.run first.2
    second.1 = first.1 ∧ second.2 = first.2 := by
  intro first second
  have hcollected := (compositional_blind.collect).run_again (following s events)
  rw [← run_ofSettings_snd] at hcollected
  have hsame : second = first := run_ofSettings_congr hcollected
  exact ⟨congrArg Prod.fst hsame, congrArg Prod.snd hsame⟩

/-- The first reading does leave traces. -/
example : (ofSettings.run { sections := [{ name := "output" }] }).2.fetched = ["output"] := by
  decide +kernel

end StepTone.Profile
