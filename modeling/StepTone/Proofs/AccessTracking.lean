/-
StepTone.Proofs.AccessTracking — what settings remember of being read.

Every operation on settings leaves at most one trace: that a section was fetched, or that
an option of a section was asked for. So the settings after any number of operations are
the settings before them with a list of accesses marked, and what is left unread can be
told from that list.

* `Access`, `Settings.marks` — accesses, and settings in which they are marked.
* `mem_unused_marks`, `mem_unusedSections_marks` — what is left unread after accesses.
* `Call`, `Settings.after` — operations on settings, and the settings after a run of them.
* `after_eq_marks` — a run leaves the marks of its accesses, and nothing else.
* `run_is_tracked` — what a run of operations leaves unread.
-/
import StepTone.Proofs.SettingsStore

namespace StepTone.Settings

/-! ## Texts in order -/

theorem sorted_perm (texts : List String) : (sorted texts).Perm texts :=
  List.mergeSort_perm _ _

theorem mem_sorted {texts : List String} {t : String} : t ∈ sorted texts ↔ t ∈ texts :=
  (sorted_perm texts).mem_iff

theorem pairwise_le_sorted (texts : List String) : (sorted texts).Pairwise (· ≤ ·) :=
  pairwise_mergeSort_by id texts

/-- Texts that stand once come out in strictly ascending order. -/
theorem pairwise_lt_sorted {texts : List String} (h : texts.Nodup) :
    (sorted texts).Pairwise (· < ·) := by
  have hn : (sorted texts).Pairwise (· ≠ ·) := (sorted_perm texts).nodup_iff.mpr h
  exact (pairwise_le_sorted texts).imp₂ (fun a b hle hne => lt_of_le_of_ne hle hne) hn

theorem sorted_eq_of_perm {texts texts' : List String} (h : texts.Perm texts') :
    sorted texts = sorted texts' :=
  List.Perm.eq_of_pairwise (fun _ _ _ _ hab hba => le_antisymm hab hba)
    (pairwise_le_sorted texts) (pairwise_le_sorted texts')
    ((sorted_perm texts).trans (h.trans (sorted_perm texts').symm))

/-! ## Traces on a section -/

namespace Section

@[simp] theorem touch_name (sec : Section) (option : String) :
    (sec.touch option).name = sec.name := by
  rw [touch]
  split
  · rfl
  · rfl

@[simp] theorem touch_options (sec : Section) (option : String) :
    (sec.touch option).options = sec.options := by
  rw [touch]
  split
  · rfl
  · rfl

theorem mem_touched_touch {sec : Section} {option key : String} :
    key ∈ (sec.touch option).touched ↔
      key ∈ sec.touched ∨ key ∈ sec.options.keys ∧ Text.lower option = key := by
  simp only [touch, Options.isSome_lookup_iff, List.contains_iff_mem]
  by_cases hkey : Text.lower option ∈ sec.options.keys
  · by_cases hold : Text.lower option ∈ sec.touched
    · simp only [hkey, hold, not_true, and_false, if_false]
      exact ⟨.inl, fun h => h.elim id fun h => h.2 ▸ hold⟩
    · simp only [hkey, hold, not_false_eq_true, and_self, if_true, List.mem_append,
        List.mem_singleton]
      exact or_congr_right ⟨fun h => ⟨h ▸ hkey, h.symm⟩, fun h => h.2.symm⟩
  · simp only [hkey, false_and, if_false]
    exact ⟨.inl, fun h => h.elim id fun h => absurd (h.2 ▸ h.1) hkey⟩

/-- An option leaves no trace if it is not there, or has left one before. -/
theorem touch_eq_self {sec : Section} {option : String}
    (h : Text.lower option ∈ sec.options.keys → Text.lower option ∈ sec.touched) :
    sec.touch option = sec := by
  refine if_neg fun hcond => hcond.2 ?_
  exact List.contains_iff_mem.mpr (h (Options.isSome_lookup_iff.mp hcond.1))

theorem mem_unused {sec : Section} {key : String} :
    key ∈ sec.unused ↔ key ∈ sec.options.keys ∧ key ∉ sec.touched := by
  rw [unused, mem_sorted, List.mem_filter]
  simp [Options.keys]

theorem pairwise_unused {sec : Section} (h : sec.options.keys.Nodup) :
    sec.unused.Pairwise (· < ·) :=
  pairwise_lt_sorted (h.filter _)

end Section

/-! ## Traces on settings -/

/-- An access to settings that leaves a trace. -/
inductive Access where
  /-- A section is fetched. -/
  | fetch (name : String)
  /-- An option of a section is asked for. -/
  | read (name option : String)
deriving DecidableEq, Repr

/-- The settings after an access. -/
def mark (s : Settings) : Access → Settings
  | .fetch name => s.fetch name
  | .read name option => s.touch name option

/-- The settings after accesses. -/
def marks (s : Settings) (accesses : List Access) : Settings :=
  accesses.foldl mark s

/-- Names and options of the sections, in order: all of the settings but their traces. -/
def skeleton (s : Settings) : List (String × Options) :=
  s.sections.map fun sec => (sec.name, sec.options)

theorem marks_append (s : Settings) (a b : List Access) :
    s.marks (a ++ b) = (s.marks a).marks b :=
  List.foldl_append

variable {s : Settings}

theorem names_eq_skeleton (s : Settings) : s.names = s.skeleton.map Prod.fst := by
  simp [names, skeleton]

theorem section?_skeleton (s : Settings) (name : String) :
    (s.section? name).map (fun sec => (sec.name, sec.options)) =
      s.skeleton.find? (·.1 = name) := by
  rw [section?, skeleton, List.find?_map]
  rfl

theorem fetch_sections (s : Settings) (name : String) : (s.fetch name).sections = s.sections := by
  rw [fetch]
  split
  · rfl
  · rfl

theorem skeleton_mark (s : Settings) (a : Access) : (s.mark a).skeleton = s.skeleton := by
  cases a with
  | fetch name => simp only [mark, skeleton, fetch_sections]
  | read name option =>
    simp only [mark, touch, update, skeleton, List.map_map]
    refine List.map_congr_left fun sec _ => ?_
    by_cases h : sec.name = name
    · simp [h]
    · simp [h]

/-- Accesses change nothing but traces. -/
theorem skeleton_marks (s : Settings) (accesses : List Access) :
    (s.marks accesses).skeleton = s.skeleton := by
  induction accesses generalizing s with
  | nil => rfl
  | cons a rest ih => exact (ih (s.mark a)).trans (skeleton_mark s a)

theorem names_marks (s : Settings) (accesses : List Access) :
    (s.marks accesses).names = s.names := by
  rw [names_eq_skeleton, skeleton_marks, ← names_eq_skeleton]

theorem name_mem_of_mem_marks {accesses : List Access} {sec : Section}
    (h : sec ∈ (s.marks accesses).sections) : sec.name ∈ s.names := by
  rw [← names_marks s accesses]
  exact List.mem_map.mpr ⟨sec, h, rfl⟩

theorem mem_fetched_mark {a : Access} {name : String} :
    name ∈ (s.mark a).fetched ↔ name ∈ s.fetched ∨ name ∈ s.names ∧ a = .fetch name := by
  cases a with
  | read n option => simp [mark, touch, update]
  | fetch n =>
    simp only [mark, fetch, isSome_section?_iff, List.contains_iff_mem, Access.fetch.injEq]
    by_cases hn : n ∈ s.names
    · by_cases hold : n ∈ s.fetched
      · simp only [hn, hold, not_true, and_false, if_false]
        exact ⟨.inl, fun h => h.elim id fun h => h.2 ▸ hold⟩
      · simp only [hn, hold, not_false_eq_true, and_self, if_true, List.mem_append,
          List.mem_singleton]
        exact or_congr_right ⟨fun h => ⟨h ▸ hn, h.symm⟩, fun h => h.2.symm⟩
    · simp only [hn, false_and, if_false]
      exact ⟨.inl, fun h => h.elim id fun h => absurd (h.2 ▸ h.1) hn⟩

theorem mem_fetched_marks {accesses : List Access} {name : String} :
    name ∈ (s.marks accesses).fetched ↔
      name ∈ s.fetched ∨ name ∈ s.names ∧ Access.fetch name ∈ accesses := by
  induction accesses generalizing s with
  | nil => simp [marks]
  | cons a rest ih =>
    have hnames : (s.mark a).names = s.names := names_marks s [a]
    rw [show s.marks (a :: rest) = (s.mark a).marks rest from rfl, ih, mem_fetched_mark, hnames,
      List.mem_cons, eq_comm (a := Access.fetch name)]
    tauto

/-- Each section after an access is one before it, touched if the access reads it. -/
theorem mem_sections_mark {a : Access} {sec : Section} :
    sec ∈ (s.mark a).sections ↔ ∃ old ∈ s.sections, sec =
      match a with
      | .read name option => if old.name = name then old.touch option else old
      | .fetch _ => old := by
  cases a with
  | fetch name => simp [mark, fetch_sections]
  | read name option => simp [mark, touch, update, eq_comm]

/-- Each section after accesses is one before them, with the options marked that are there
and were asked for. -/
theorem touched_of_mem_marks {accesses : List Access} {sec : Section}
    (h : sec ∈ (s.marks accesses).sections) :
    ∃ old ∈ s.sections, sec.name = old.name ∧ sec.options = old.options ∧
      ∀ key, key ∈ sec.touched ↔ key ∈ old.touched ∨ key ∈ old.options.keys ∧
        ∃ option, Access.read old.name option ∈ accesses ∧ Text.lower option = key := by
  induction accesses generalizing s with
  | nil => exact ⟨sec, h, rfl, rfl, by simp⟩
  | cons a rest ih =>
    obtain ⟨mid, hmid, hname, hoptions, htouched⟩ := ih h
    obtain ⟨old, hold, rfl⟩ := mem_sections_mark.mp hmid
    refine ⟨old, hold, ?_⟩
    cases a with
    | fetch n => simpa [hname, hoptions] using htouched
    | read n option =>
      by_cases hn : old.name = n
      · subst hn
        simp only [if_true, Section.touch_name, Section.touch_options,
          Section.mem_touched_touch] at hname hoptions htouched
        refine ⟨hname, hoptions, fun key => ?_⟩
        rw [htouched key]
        simp only [List.mem_cons, Access.read.injEq, true_and]
        constructor
        · rintro ((hold | ⟨hkey, rfl⟩) | ⟨hkey, o, ho, rfl⟩)
          · exact .inl hold
          · exact .inr ⟨hkey, option, .inl rfl, rfl⟩
          · exact .inr ⟨hkey, o, .inr ho, rfl⟩
        · rintro (hold | ⟨hkey, o, rfl | ho, rfl⟩)
          · exact .inl (.inl hold)
          · exact .inl (.inr ⟨hkey, rfl⟩)
          · exact .inr ⟨hkey, o, ho, rfl⟩
      · simpa [hn, hname, hoptions] using htouched

/-! ### From fresh settings -/

/-- After accesses to fresh settings, the unread options of a section are those that no
access asked for. -/
theorem mem_unused_marks (h : s.Fresh) {accesses : List Access} {sec : Section}
    (hsec : sec ∈ (s.marks accesses).sections) {key : String} :
    key ∈ sec.unused ↔ key ∈ sec.options.keys ∧
      ∀ option, Access.read sec.name option ∈ accesses → Text.lower option ≠ key := by
  obtain ⟨old, hold, hname, hoptions, htouched⟩ := touched_of_mem_marks hsec
  rw [Section.mem_unused, htouched, hname, hoptions, h.untouched old hold]
  refine and_congr_right fun hkey => ?_
  simp [hkey]

theorem pairwise_unused_marks (h : s.Fresh) {accesses : List Access} {sec : Section}
    (hsec : sec ∈ (s.marks accesses).sections) : sec.unused.Pairwise (· < ·) := by
  obtain ⟨old, hold, -, hoptions, -⟩ := touched_of_mem_marks hsec
  exact Section.pairwise_unused (hoptions ▸ h.keys_nodup old hold)

/-- After accesses to fresh settings, the unfetched sections are those that no access
fetched. -/
theorem mem_unusedSections_marks (h : s.Fresh) {accesses : List Access} {name : String} :
    name ∈ (s.marks accesses).unusedSections ↔
      name ∈ s.names ∧ Access.fetch name ∉ accesses := by
  rw [unusedSections, mem_sorted, List.mem_filter, names_marks]
  refine and_congr_right fun hname => ?_
  simp [mem_fetched_marks, h.unfetched, hname]

theorem pairwise_unusedSections_marks (h : s.Fresh) (accesses : List Access) :
    (s.marks accesses).unusedSections.Pairwise (· < ·) := by
  refine pairwise_lt_sorted (List.Nodup.filter _ ?_)
  rw [names_marks]
  exact h.names_nodup

theorem checkUnusedSections_eq_ok_iff {t : Settings} :
    t.checkUnusedSections = .ok () ↔ t.unusedSections = [] := by
  rw [checkUnusedSections]
  cases t.unusedSections with
  | nil => simp
  | cons name rest => simp

theorem checkUnusedOptions_eq_ok_iff {t : Settings} : t.checkUnusedOptions = .ok () ↔
    ∀ sec ∈ t.sections, sec.name ∈ t.fetched → sec.unused = [] := by
  have hleft : t.leftovers = [] ↔
      ∀ sec ∈ t.sections, sec.name ∈ t.fetched → sec.unused = [] := by
    simp [leftovers, List.filter_eq_nil_iff]
  rw [← hleft, checkUnusedOptions]
  cases t.leftovers with
  | nil => simp
  | cons left rest => simp

/-! ## Runs of operations -/

/-- An operation on settings, with all that it is given. The kinds of options are the
text, count, word, real, truth and list kinds of `Kind`; nothing here hangs on which of
them it is. -/
inductive Call : Type 1 where
  /-- Fetches a section that has to be there. -/
  | fetch (name : String)
  /-- Fetches a section if there is one. -/
  | fetchOptional (name : String)
  /-- Reads an option of a section. -/
  | option {α : Type} (name : String) (kind : Kind α) (option : String) (fallback : Option α)
  /-- Asks for the unread options of a section. -/
  | unusedOptions (name : String)
  /-- Asks for the sections that were not fetched. -/
  | unusedSections
  | checkUnusedSections
  | checkUnusedOptions

namespace Call

/-- The operation itself, with its answer thrown away. -/
def action : Call → Reading PUnit
  | .fetch name => discard (Reading.fetch name)
  | .fetchOptional name => discard (Reading.fetch? name)
  | .option name kind asked fallback => discard (Reading.option name kind asked fallback)
  | .unusedOptions _ | .unusedSections => pure ()
  | .checkUnusedSections => discard (Reading.check Settings.checkUnusedSections)
  | .checkUnusedOptions => discard (Reading.check Settings.checkUnusedOptions)

/-- The call asks for the option of the section, in whatever case. -/
def Reads (name key : String) : Call → Prop
  | .option n _ asked _ => n = name ∧ Text.lower asked = key
  | _ => False

/-- The call fetches the section. -/
def Fetches (name : String) : Call → Prop
  | .fetch n | .fetchOptional n => n = name
  | _ => False

/-- The access that a call makes, if it makes one. -/
def accesses : Call → List Access
  | .fetch name | .fetchOptional name => [.fetch name]
  | .option name _ asked _ => [.read name asked]
  | _ => []

theorem exists_read_mem_accesses {c : Call} {name key : String} :
    (∃ asked, Access.read name asked ∈ c.accesses ∧ Text.lower asked = key) ↔
      c.Reads name key := by
  cases c with
  | option n kind asked fallback =>
    simp only [accesses, List.mem_singleton, Access.read.injEq, Reads]
    exact ⟨fun ⟨o, ⟨hn, ho⟩, hkey⟩ => ⟨hn.symm, ho ▸ hkey⟩,
      fun ⟨hn, hkey⟩ => ⟨asked, ⟨hn.symm, rfl⟩, hkey⟩⟩
  | _ => simp [accesses, Reads]

theorem fetch_mem_accesses {c : Call} {name : String} :
    Access.fetch name ∈ c.accesses ↔ c.Fetches name := by
  cases c with
  | fetch n => simp [accesses, Fetches, eq_comm]
  | fetchOptional n => simp [accesses, Fetches, eq_comm]
  | _ => simp [accesses, Fetches]

end Call

/-- The settings after an operation, whether it fails or not. -/
def step (s : Settings) (c : Call) : Settings :=
  (c.action.run s).2

/-- The settings after operations. -/
def after (s : Settings) (calls : List Call) : Settings :=
  calls.foldl step s

/-! ### What one operation leaves -/

namespace Reading

variable {α β : Type}

/-- Outcomes of readings are pairs. -/
@[simp] theorem outcome_inj {r r' : Except Fault α} {t t' : Settings} :
    @Eq (Id (Except Fault α × Settings)) (r, t) (r', t') ↔ r = r' ∧ t = t' :=
  Prod.mk_inj

/-- After a reading that succeeds the next one goes on from its traces; one that fails is
the last. -/
theorem run_bind (x : Reading α) (f : α → Reading β) (s : Settings) :
    (x >>= f).run s =
      match x.run s with
      | (.ok a, t) => (f a).run t
      | (.error e, t) => (.error e, t) := by
  change (match x.run s with | (r, t) => (ExceptT.bindCont f r : StateM Settings _) t) = _
  rcases x.run s with ⟨r, t⟩
  cases r with
  | ok a => rfl
  | error e => rfl

@[simp] theorem run_pure (a : α) (s : Settings) :
    (pure a : Reading α).run s = (.ok a, s) := rfl

@[simp] theorem run_throw (e : Fault) (s : Settings) :
    (throw e : Reading α).run s = (.error e, s) := rfl

@[simp] theorem run_get (s : Settings) : (get : Reading Settings).run s = (.ok s, s) := rfl

@[simp] theorem run_modify (f : Settings → Settings) (s : Settings) :
    (modify f : Reading PUnit).run s = (.ok ⟨⟩, f s) := rfl

theorem run_discard (x : Reading α) (s : Settings) :
    ((discard x : Reading PUnit).run s).2 = (x.run s).2 := by
  have hbind : (discard x : Reading PUnit) = x >>= fun _ => pure ⟨⟩ := rfl
  rw [hbind, run_bind]
  rcases x.run s with ⟨r, t⟩
  cases r with
  | ok a => rfl
  | error e => rfl

theorem run_fetch? (name : String) (s : Settings) :
    (fetch? name).run s = (.ok (s.section? name), s.fetch name) := rfl

theorem run_fetch (name : String) (s : Settings) : (fetch name).run s =
    ((s.section? name).elim (.error (.noSection name)) .ok, s.fetch name) := by
  rw [fetch, run_bind, run_fetch?]
  cases s.section? name with
  | none => rfl
  | some sec => rfl

theorem run_option_of_none {s : Settings} {name : String} (h : s.section? name = none)
    (kind : Kind α) (asked : String) (fallback : Option α) :
    (Reading.option name kind asked fallback).run s = (.error (.noSection name), s) := by
  rw [Reading.option, run_bind, run_get]
  simp only [h]
  rfl

/-- Reading an option marks it, and then gives what the section has. -/
theorem run_option_of_section {s : Settings} {name : String} {sec : Section}
    (h : s.section? name = some sec) (kind : Kind α) (asked : String) (fallback : Option α) :
    (Reading.option name kind asked fallback).run s =
      (sec.get kind asked fallback, s.touch name asked) := by
  rw [Reading.option, run_bind, run_get]
  simp only [h]
  rw [run_bind, run_modify]
  cases sec.get kind asked fallback with
  | ok a => rfl
  | error fault => rfl

theorem run_check (f : Settings → Except Fault Unit) (s : Settings) :
    (check f).run s = (f s, s) := by
  rw [check, run_bind, run_get]
  cases hf : f s with
  | ok u => simp only [hf]; rfl
  | error fault => simp only [hf]; rfl

end Reading

/-- Asking for an option leaves no trace if it leaves none in the sections of the name. -/
theorem touch_of_forall {name option : String}
    (h : ∀ sec ∈ s.sections, sec.name = name →
      Text.lower option ∈ sec.options.keys → Text.lower option ∈ sec.touched) :
    s.touch name option = s := by
  have hmap : (s.sections.map fun sec => if sec.name = name then sec.touch option else sec) =
      s.sections.map id := by
    refine List.map_congr_left fun sec hsec => ?_
    by_cases hname : sec.name = name
    · simp [hname, Section.touch_eq_self (h sec hsec hname)]
    · simp [hname]
  rw [touch, update, hmap, List.map_id]

theorem touch_of_none {name : String} (h : s.section? name = none) (option : String) :
    s.touch name option = s := by
  refine touch_of_forall fun sec hsec hname => ?_
  exact absurd (List.mem_map.mpr ⟨sec, hsec, hname⟩) (section?_eq_none_iff.mp h)

/-- An operation leaves the mark of its access, and nothing else, also when it fails. -/
theorem step_eq_marks (s : Settings) (c : Call) : s.step c = s.marks c.accesses := by
  rw [step]
  cases c with
  | fetch name =>
    rw [Call.action, Reading.run_discard, Reading.run_fetch]
    rfl
  | fetchOptional name =>
    rw [Call.action, Reading.run_discard, Reading.run_fetch?]
    rfl
  | option name kind asked fallback =>
    rw [Call.action, Reading.run_discard]
    cases hsec : s.section? name with
    | none =>
      rw [Reading.run_option_of_none hsec]
      exact (touch_of_none hsec asked).symm
    | some sec =>
      rw [Reading.run_option_of_section hsec]
      rfl
  | unusedOptions name => rfl
  | unusedSections => rfl
  | checkUnusedSections =>
    rw [Call.action, Reading.run_discard, Reading.run_check]
    rfl
  | checkUnusedOptions =>
    rw [Call.action, Reading.run_discard, Reading.run_check]
    rfl

/-- A run of operations leaves the marks of its accesses, and nothing else. -/
theorem after_eq_marks (s : Settings) (calls : List Call) :
    s.after calls = s.marks (calls.flatMap Call.accesses) := by
  induction calls generalizing s with
  | nil => rfl
  | cons c rest ih =>
    rw [List.flatMap_cons, marks_append, ← step_eq_marks]
    exact ih (s.step c)

theorem exists_read_mem_flatMap {calls : List Call} {name key : String} :
    (∀ asked, Access.read name asked ∈ calls.flatMap Call.accesses → Text.lower asked ≠ key) ↔
      ∀ c ∈ calls, ¬ c.Reads name key := by
  simp only [← Call.exists_read_mem_accesses, List.mem_flatMap]
  exact ⟨fun h c hc ⟨asked, hread, hkey⟩ => h asked ⟨c, hc, hread⟩ hkey,
    fun h asked ⟨c, hc, hread⟩ hkey => h c hc ⟨asked, hread, hkey⟩⟩

theorem fetch_mem_flatMap {calls : List Call} {name : String} :
    Access.fetch name ∈ calls.flatMap Call.accesses ↔ ∃ c ∈ calls, c.Fetches name := by
  simp only [List.mem_flatMap, Call.fetch_mem_accesses]

/-! ### Options of the wrong kind -/

/-- A fault of the type of an option comes from an option that is there. -/
theorem Section.mem_keys_of_mistyped {α : Type} {sec : Section} {kind : Kind α} {asked : String}
    {fallback : Option α} {fault : Fault} (h : sec.get kind asked fallback = .error fault)
    (hcode : fault.hasCode .configType = true) : Text.lower asked ∈ sec.options.keys := by
  rw [← Options.isSome_lookup_iff]
  cases hlookup : sec.options.lookup (Text.lower asked) with
  | some text => rfl
  | none =>
    simp only [Section.get, Section.value?, hlookup, Option.map_none] at h
    cases fallback with
    | some a => cases h
    | none =>
      cases h
      simp [Fault.noOption, Fault.hasCode, Fault.label?, Code.configOption, Code.configType]
        at hcode

/-! ### What a run of operations leaves -/

/-- What is known of settings after a run of operations. -/
structure Tracked (s : Settings) (calls : List Call) : Prop where
  /-- Sections, their order and their options are as before. -/
  kept : (s.after calls).skeleton = s.skeleton
  unread_ascending : ∀ sec ∈ (s.after calls).sections, sec.unused.Pairwise (· < ·)
  /-- The unread options of a section are those that no call asked it for. -/
  unread : ∀ sec ∈ (s.after calls).sections, ∀ key, key ∈ sec.unused ↔
    key ∈ sec.options.keys ∧ ∀ c ∈ calls, ¬ c.Reads sec.name key
  unfetched_ascending : (s.after calls).unusedSections.Pairwise (· < ·)
  /-- The unfetched sections are those that no call fetched. -/
  unfetched : ∀ name, name ∈ (s.after calls).unusedSections ↔
    name ∈ s.names ∧ ∀ c ∈ calls, ¬ c.Fetches name
  /-- The check of options fails exactly when a section that was fetched has an option
  that no call asked it for. -/
  check_fails : (∃ fault, (s.after calls).checkUnusedOptions = .error fault) ↔
    ∃ sec ∈ (s.after calls).sections, (∃ c ∈ calls, c.Fetches sec.name) ∧
      ∃ key ∈ sec.options.keys, ∀ c ∈ calls, ¬ c.Reads sec.name key
  /-- An option that is not of the type asked for counts as read. -/
  mistyped_counts : ∀ {α : Type} (name : String) (kind : Kind α) (asked : String)
    (fallback : Option α) (fault : Fault) (t : Settings),
    (Reading.option name kind asked fallback).run (s.after calls) = (.error fault, t) →
    fault.hasCode .configType = true →
    ∃ sec, t.section? name = some sec ∧ Text.lower asked ∈ sec.options.keys ∧
      Text.lower asked ∉ sec.unused
  /-- Asking for an option that is not there leaves no trace. -/
  absent_marks_nothing : ∀ {α : Type} (name : String) (kind : Kind α) (asked : String)
    (fallback : Option α) (sec : Section), (s.after calls).section? name = some sec →
    Text.lower asked ∉ sec.options.keys →
    ((Reading.option name kind asked fallback).run (s.after calls)).2 = s.after calls

theorem mistyped_counts_of_run {α : Type} {t t' : Settings} {name : String} {kind : Kind α}
    {asked : String} {fallback : Option α} {fault : Fault}
    (h : (Reading.option name kind asked fallback).run t = (.error fault, t'))
    (hcode : fault.hasCode .configType = true) :
    ∃ sec, t'.section? name = some sec ∧ Text.lower asked ∈ sec.options.keys ∧
      Text.lower asked ∉ sec.unused := by
  cases hsec : t.section? name with
  | none =>
    rw [Reading.run_option_of_none hsec] at h
    cases h
    simp [Fault.noSection, Fault.hasCode, Fault.label?, Code.configSection, Code.configType]
      at hcode
  | some sec =>
    rw [Reading.run_option_of_section hsec] at h
    obtain ⟨hget, rfl⟩ := Prod.mk.inj h
    have hkey := Section.mem_keys_of_mistyped hget hcode
    refine ⟨sec.touch asked, ?_, by simpa using hkey, ?_⟩
    · rw [touch, section?_update (f := (·.touch asked)) fun sec => Section.touch_name sec asked,
        if_pos rfl, hsec]
      rfl
    · rw [Section.mem_unused, Section.mem_touched_touch]
      exact fun hunused => hunused.2 (.inr ⟨hkey, rfl⟩)

theorem touch_of_absent {t : Settings} {name asked : String} {sec : Section}
    (hn : t.names.Nodup) (hsec : t.section? name = some sec)
    (hkey : Text.lower asked ∉ sec.options.keys) : t.touch name asked = t := by
  refine touch_of_forall fun other hother hname => ?_
  -- names stand once, so this is the section that was asked
  subst hname
  obtain rfl : other = sec := Option.some.inj ((section?_of_mem hn hother).symm.trans hsec)
  exact fun hmem => absurd hmem hkey

/-- After any run of operations on settings that nobody has read before, what is unread is
what no operation asked for, and nothing but that has changed. -/
theorem run_is_tracked {s : Settings} (h : s.Fresh) (calls : List Call) : s.Tracked calls where
  kept := by rw [after_eq_marks, skeleton_marks]
  unread_ascending := by
    rw [after_eq_marks]
    exact fun sec hsec => pairwise_unused_marks h hsec
  unread := by
    rw [after_eq_marks]
    intro sec hsec key
    rw [mem_unused_marks h hsec, exists_read_mem_flatMap]
  unfetched_ascending := by
    rw [after_eq_marks]
    exact pairwise_unusedSections_marks h _
  unfetched := by
    intro name
    rw [after_eq_marks, mem_unusedSections_marks h, fetch_mem_flatMap]
    simp
  check_fails := by
    rw [after_eq_marks]
    have hfails (t : Settings) : (∃ fault, t.checkUnusedOptions = .error fault) ↔
        ¬ t.checkUnusedOptions = .ok () := by
      cases t.checkUnusedOptions with
      | ok u => simp
      | error fault => simp
    have hunread (sec : Section) : sec.unused ≠ [] ↔ ∃ key, key ∈ sec.unused := by
      simp [List.eq_nil_iff_forall_not_mem]
    rw [hfails, checkUnusedOptions_eq_ok_iff]
    push Not
    refine exists_congr fun sec => and_congr_right fun hsec => ?_
    rw [mem_fetched_marks, h.unfetched, fetch_mem_flatMap, hunread]
    simp only [List.not_mem_nil, false_or, name_mem_of_mem_marks hsec, true_and,
      mem_unused_marks h hsec, exists_read_mem_flatMap]
  mistyped_counts := fun _ _ _ _ _ _ hrun hcode => mistyped_counts_of_run hrun hcode
  absent_marks_nothing := by
    intro α name kind asked fallback sec hsec hkey
    have hn : (s.after calls).names.Nodup := by
      rw [after_eq_marks, names_marks]
      exact h.names_nodup
    rw [Reading.run_option_of_section hsec]
    exact touch_of_absent hn hsec hkey

/-- A section with two options, and an empty one. -/
def twoOptions : Settings where
  sections := [{ name := "a", options := [("k", "x"), ("l", "2")] }, { name := "b" }]

/-- Reads one option of the section as a number, which it is not, and one that is not
there. -/
def misreading : List Call :=
  [.fetch "a", .option "a" .count "K" none, .option "a" .text "m" none, .unusedOptions "a"]

/-- The misread option counts as read, and the other one is left. -/
theorem misreading_tracked : twoOptions.Fresh ∧
    (∃ sec ∈ (twoOptions.after misreading).sections, sec.name = "a" ∧ "k" ∉ sec.unused ∧
      "l" ∈ sec.unused) ∧
    "a" ∉ (twoOptions.after misreading).unusedSections ∧
    "b" ∈ (twoOptions.after misreading).unusedSections ∧
    ∃ fault, (twoOptions.after misreading).checkUnusedOptions = .error fault := by
  have hfresh : twoOptions.Fresh := ⟨by decide, by decide, rfl, by decide⟩
  have htracked := run_is_tracked hfresh misreading
  have hsec : { name := "a", options := [("k", "x"), ("l", "2")], touched := ["k"] } ∈
      (twoOptions.after misreading).sections := by
    decide
  have hread : ∃ c ∈ misreading, c.Reads "a" "k" :=
    ⟨.option "a" .count "K" none, by simp [misreading], rfl, by decide⟩
  have hunread : ∀ c ∈ misreading, ¬ c.Reads "a" "l" := by
    have hcount : Text.lower "K" ≠ "l" := by decide
    have htext : Text.lower "m" ≠ "l" := by decide
    simp [misreading, Call.Reads, hcount, htext]
  have hfetched : ∃ c ∈ misreading, c.Fetches "a" := ⟨.fetch "a", by simp [misreading], rfl⟩
  refine ⟨hfresh, ⟨_, hsec, rfl, ?_, ?_⟩, ?_, ?_, ?_⟩
  · rw [htracked.unread _ hsec]
    exact fun h => h.2 _ hread.choose_spec.1 hread.choose_spec.2
  · exact (htracked.unread _ hsec "l").mpr ⟨by decide, hunread⟩
  · rw [htracked.unfetched]
    exact fun h => h.2 _ hfetched.choose_spec.1 hfetched.choose_spec.2
  · exact (htracked.unfetched "b").mpr ⟨by decide, by simp [misreading, Call.Fetches]⟩
  · exact htracked.check_fails.mpr ⟨_, hsec, hfetched, "l", by decide, hunread⟩

end StepTone.Settings
