/-
StepTone.Proofs.ProfileReading — which settings give a profile, and which one.

Four readers go through the sections of a profile, one option after the other, and each of
them stops at the first fault. Unknown names are not looked for at all: they are what is
left unread in the end. So a profile is given exactly when all options can be read, and
that is shown by telling for each reader which values it gives, and which accesses it has
made once it succeeds.

* `Yields` — the values that a reading gives, and the accesses that it makes.
* `yields_readTiming`, `yields_readTable` … — the four readers.
* `checks_iff_known` — what they leave unread are the unknown names.
* `run_eq_ok_iff` — settings give the profile that they fill, if their names are known.
* `profile_iff_acceptable` — which settings give a profile, and which one.
-/
import StepTone.Proofs.AccessTracking
import StepTone.Proofs.ProfileMeaning

namespace StepTone

namespace Settings

theorem held?_skeleton (s : Settings) (name key : String) :
    s.held? name key = (s.skeleton.find? (·.1 = name)).bind (·.2.lookup key) := by
  rw [← section?_skeleton, held?]
  cases s.section? name with
  | none => rfl
  | some sec => rfl

/-- Accesses do not change what is read. -/
theorem text?_marks (s : Settings) (accesses : List Access) (name key : String) :
    (s.marks accesses).text? name key = s.text? name key := by
  rw [text?, held?_skeleton, skeleton_marks, ← held?_skeleton, text?]

theorem text?_of_section {s : Settings} {name : String} {sec : Section}
    (h : s.section? name = some sec) {key : String} (hkey : Text.lower key = key) :
    sec.value? key = s.text? name key := by
  rw [Section.value?, hkey, text?, held?, h]
  rfl

end Settings

namespace Profile

open Firmware (Constants Constant)
open Settings

/-! ## Readings and what they yield -/

section

variable {α β : Type} {s : Settings} {done : List Access}

/-- On settings in which some accesses are marked, a reading succeeds with the values that
satisfy `R` and no others, and then has made the further accesses. -/
def Yields (s : Settings) (done : List Access) (x : Reading α) (accesses : List Access)
    (R : α → Prop) : Prop :=
  ∀ a t, x.run (s.marks done) = (.ok a, t) ↔ R a ∧ t = s.marks (done ++ accesses)

theorem Yields.congr {x : Reading α} {as : List Access} {R R' : α → Prop}
    (h : Yields s done x as R) (hR : ∀ a, R a ↔ R' a) : Yields s done x as R' :=
  fun a t => (h a t).trans (and_congr_left' (hR a))

theorem Yields.bind {x : Reading α} {f : α → Reading β} {as bs : List Access} {R : α → Prop}
    {Q : α → β → Prop} (hx : Yields s done x as R)
    (hf : ∀ a, R a → Yields s (done ++ as) (f a) bs (Q a)) :
    Yields s done (x >>= f) (as ++ bs) fun b => ∃ a, R a ∧ Q a b := by
  intro b t
  have hrun : (x >>= f).run (s.marks done) = (.ok b, t) ↔
      ∃ a u, x.run (s.marks done) = (.ok a, u) ∧ (f a).run u = (.ok b, t) := by
    rw [Reading.run_bind]
    rcases x.run (s.marks done) with ⟨r, u⟩
    cases r with
    | ok a => simp
    | error e => simp
  rw [hrun, ← List.append_assoc]
  constructor
  · rintro ⟨a, u, hfirst, hnext⟩
    obtain ⟨ha, rfl⟩ := (hx a u).mp hfirst
    obtain ⟨hb, rfl⟩ := (hf a ha b t).mp hnext
    exact ⟨⟨a, ha, hb⟩, rfl⟩
  · rintro ⟨⟨a, ha, hb⟩, rfl⟩
    exact ⟨a, _, (hx a _).mpr ⟨ha, rfl⟩, (hf a ha b _).mpr ⟨hb, rfl⟩⟩

theorem Yields.pure (a : α) : Yields s done (Pure.pure a) [] (· = a) := by
  intro b t
  rw [Reading.run_pure, List.append_nil]
  simp [eq_comm]

theorem Yields.map {x : Reading α} {as : List Access} {R : α → Prop} (h : Yields s done x as R)
    (f : α → β) : Yields s done (f <$> x) as fun b => ∃ a, R a ∧ b = f a := by
  rw [← bind_pure_comp, ← List.append_nil as]
  exact h.bind fun a _ => .pure (f a)

theorem Yields.lift (e : Except Fault α) : Yields s done (Profile.lift e) [] (e = .ok ·) := by
  intro a t
  cases e with
  | ok b => simp [Profile.lift, eq_comm]
  | error fault => simp [Profile.lift]

theorem Yields.check (f : Settings → Except Fault Unit) :
    Yields s done (Reading.check f) [] fun _ => f (s.marks done) = .ok () := by
  intro u t
  rw [Reading.run_check, List.append_nil]
  simp [eq_comm]

/-- A reading that goes on only if a test fails. -/
theorem Yields.guarded {c : Prop} [Decidable c] {x : Reading α} {k : Unit → Reading α}
    {as : List Access} {R : α → Prop} {fault : Fault} (h : ¬ c → Yields s done x as R) :
    Yields s done (if c then throw fault >>= k else x) as fun a => ¬ c ∧ R a := by
  by_cases hc : c
  · intro a t
    rw [if_pos hc, Reading.run_bind, Reading.run_throw]
    simp [hc]
  · rw [if_neg hc]
    exact (h hc).congr fun a => by simp [hc]

theorem exists_section_marks {name : String} (h : name ∈ s.names) (done : List Access) :
    ∃ sec, (s.marks done).section? name = some sec := by
  rw [← Option.isSome_iff_exists, isSome_section?_iff, names_marks]
  exact h

/-- An option gives what its text is read as, and what it falls back to without a text. -/
theorem Yields.get {name key : String} (hname : name ∈ s.names)
    (hkey : key ∈ documented.flatMap (·.2)) (kind : Kind α) (fallback : Option α) :
    Yields s done (Reading.option name kind key fallback) [.read name key] fun a =>
      match s.text? name key with
      | some text => kind.read text = .ok a
      | none => fallback = some a := by
  obtain ⟨sec, hsec⟩ := exists_section_marks hname done
  intro a t
  rw [Reading.run_option_of_section hsec, marks_append, Prod.mk.injEq,
    show (s.marks done).marks [.read name key] = (s.marks done).touch name key from rfl,
    eq_comm (a := (s.marks done).touch name key)]
  refine and_congr_left' ?_
  simp only [Section.get, text?_of_section hsec (lower_documented hkey), text?_marks]
  cases s.text? name key with
  | none =>
    cases fallback with
    | none => simp
    | some usual => simp
  | some text =>
    cases hread : kind.read text with
    | ok b => simp [hread]
    | error cause => simp [hread]

/-- An option with a usual value. -/
theorem Yields.option {name key : String} (hname : name ∈ s.names)
    (hkey : key ∈ documented.flatMap (·.2)) (kind : Kind α) (usual : α) :
    Yields s done (Reading.option name kind key (some usual)) [.read name key]
      (Field (s.text? name key) (fun text a => kind.read text = .ok a) usual) := by
  refine (Yields.get hname hkey kind (some usual)).congr fun a => ?_
  cases s.text? name key with
  | none => simp [Field, eq_comm]
  | some text => rfl

/-- An option that has to be there. -/
theorem Yields.required {name key : String} (hname : name ∈ s.names)
    (hkey : key ∈ documented.flatMap (·.2)) (kind : Kind α) :
    Yields s done (Reading.option name kind key none) [.read name key]
      fun a => ∃ text, s.text? name key = some text ∧ kind.read text = .ok a := by
  refine (Yields.get hname hkey kind none).congr fun a => ?_
  cases s.text? name key with
  | none => simp
  | some text => simp

theorem Yields.ifPresent {name : String} {usual : α} {read : Reading α} {as : List Access}
    {R : α → Prop}
    (h : name ∈ s.names → Yields s (done ++ [.fetch name]) read as R) :
    Yields s done (Profile.ifPresent name usual read)
      (.fetch name :: if name ∈ s.names then as else [])
      fun a => if name ∈ s.names then R a else a = usual := by
  intro a t
  have hfetch : (s.marks done).fetch name = s.marks (done ++ [.fetch name]) := by
    rw [marks_append]
    rfl
  rw [Profile.ifPresent, Reading.run_bind, Reading.run_fetch?, hfetch]
  by_cases hname : name ∈ s.names
  · obtain ⟨sec, hsec⟩ := exists_section_marks hname done
    simp only [hsec, if_pos hname]
    rw [h hname a t, List.append_assoc]
    rfl
  · have hnone : (s.marks done).section? name = none := by
      rw [section?_eq_none_iff, names_marks]
      exact hname
    simp [hnone, hname, eq_comm]

end

/-! ## The four readers -/

theorem get_injective {c c' : Constants} (h : ∀ k, c.get k = c'.get k) : c = c' := by
  have hclock := h .clockHz
  have hmove := h .moveCycles
  have hhalt := h .haltCycles
  have hfreq := h .freqLoopMoves
  have houter := h .outerLoopMoves
  cases c
  cases c'
  simp only [Constants.get] at hclock hmove hhalt hfreq houter
  rw [hclock, hmove, hhalt, hfreq, houter]

theorem get_set (c : Constants) (k j : Constant) (n : Int64) :
    (c.set k n).get j = if j = k then n else c.get j := by
  cases k <;> cases j <;> rfl

section

variable {s : Settings} {done : List Access}

/-- The constants of a list are read, and the others stay as they are. -/
theorem yields_constants (hname : "timing" ∈ s.names) {ks : List Constant} (hks : ks.Nodup)
    (c : Constants) :
    Yields s done
      (ks.foldlM (fun c k => do
        return c.set k (← Reading.option "timing" .word k.name (some (c.get k)))) c)
      (ks.map fun k => .read "timing" k.name)
      fun c' => ∀ j, if j ∈ ks
        then Field (s.text? "timing" j.name) MeansWord (c.get j) (c'.get j)
        else c'.get j = c.get j := by
  induction ks generalizing c done with
  | nil =>
    refine (Yields.pure c).congr fun c' => ?_
    simp only [List.not_mem_nil, if_false]
    exact ⟨fun h j => h ▸ rfl, get_injective⟩
  | cons k rest ih =>
    obtain ⟨hk, hrest⟩ := List.nodup_cons.mp hks
    rw [List.foldlM_cons]
    have hkey : k.name ∈ documented.flatMap (·.2) := by cases k <;> decide
    refine Yields.congr (Yields.bind (Yields.bind (.option hname hkey _ _) fun n _ => .pure _)
      fun c' _ => ih hrest c') ?_
    intro c'
    simp only [read_word_iff]
    constructor
    · rintro ⟨_, ⟨n, hn, rfl⟩, hothers⟩ j
      have hj := hothers j
      rw [get_set] at hj
      by_cases hjk : j = k
      · subst hjk
        rw [if_neg hk, if_pos rfl] at hj
        rw [if_pos List.mem_cons_self, hj]
        exact hn
      · rw [if_neg hjk] at hj
        simpa [hjk] using hj
    · intro hall
      refine ⟨_, ⟨c'.get k, by simpa using hall k, rfl⟩, fun j => ?_⟩
      rw [get_set]
      by_cases hjk : j = k
      · subst hjk
        rw [if_neg hk, if_pos rfl]
      · rw [if_neg hjk]
        simpa [hjk] using hall j

theorem yields_readTiming (hname : "timing" ∈ s.names) :
    Yields s done (readTiming {}) (Constant.all.map fun k => .read "timing" k.name)
      (TimingFilled s) := by
  refine (yields_constants hname (by decide) {}).congr fun c => forall_congr' fun k => ?_
  rw [if_pos (by cases k <;> decide)]

theorem yields_readTable (hname : "table" ∈ s.names) :
    Yields s done (readTable {}) (["register_bits", "encoding"].map (.read "table"))
      (TableFilled s) := by
  refine Yields.congr (Yields.bind (.option hname (by decide) _ _) fun bits _ =>
    Yields.bind (.lift _) fun width _ =>
    Yields.bind (.option hname (by decide) _ _) fun name _ =>
    Yields.bind (.lift _) fun encoding _ => .pure _) ?_
  intro o
  constructor
  · rintro ⟨bits, hbits, width, hwidth, name, hword, encoding, hencoding, rfl⟩
    exact ⟨field_width.mp ⟨bits, hbits, hwidth⟩, field_encoding.mp ⟨name, hword, hencoding⟩⟩
  · rintro ⟨hwidth, hencoding⟩
    obtain ⟨bits, hbits, hwidth⟩ := field_width.mpr hwidth
    obtain ⟨name, hword, hencoding⟩ := field_encoding.mpr hencoding
    exact ⟨bits, hbits, _, hwidth, name, hword, _, hencoding, rfl⟩

theorem yields_readOutput (hname : "output" ∈ s.names) :
    Yields s done (readOutput {})
      (["format", "name", "per_line", "summary"].map (.read "output")) (OutputFilled s) := by
  refine Yields.congr (Yields.bind (.option hname (by decide) _ _) fun formatName _ =>
    Yields.bind (.lift _) fun format _ =>
    Yields.bind (.option hname (by decide) _ _) fun name _ =>
    Yields.bind (.lift _) fun _ _ =>
    Yields.bind (.option hname (by decide) _ _) fun perLine _ =>
    Yields.guarded fun _ =>
    Yields.bind (.option hname (by decide) _ _) fun summary _ => .pure _) ?_
  intro l
  constructor
  · rintro ⟨word, hword, format, hformat, name, hname, _, hcheck, perLine, hperLine, hpos,
      summary, hsummary, rfl⟩
    exact ⟨field_format.mp ⟨word, hword, hformat⟩, field_name.mp ⟨hname, hcheck⟩,
      field_perLine.mp ⟨hperLine, hpos⟩, field_summary.mp hsummary⟩
  · rintro ⟨hformat, hname, hperLine, hsummary⟩
    obtain ⟨word, hword, hformat⟩ := field_format.mpr hformat
    obtain ⟨hname, hcheck⟩ := field_name.mpr hname
    obtain ⟨hperLine, hpos⟩ := field_perLine.mpr hperLine
    exact ⟨word, hword, _, hformat, _, hname, (), hcheck, _, hperLine, hpos, _,
      field_summary.mpr hsummary, rfl⟩

theorem yields_readSong (hname : "song" ∈ s.names) :
    Yields s done readSong (["scale", "notes"].map (.read "song")) (SongFilled s) := by
  refine Yields.congr (Yields.bind (.option hname (by decide) _ _) fun scale _ =>
    Yields.guarded fun _ =>
    Yields.bind (.required hname (by decide) _) fun items _ =>
    Yields.bind (.lift _) fun notes _ => .pure _) ?_
  intro song
  constructor
  · rintro ⟨scale, hscale, hpos, items, ⟨text, htext, hitems⟩, notes, hnotes, rfl⟩
    exact ⟨field_scale.mp ⟨hscale, hpos⟩, text, htext,
      (notes_eq_ok_iff "song").mp ⟨items, hitems, hnotes⟩⟩
  · rintro ⟨hscale, text, htext, hnotes⟩
    obtain ⟨hscale, hpos⟩ := field_scale.mpr hscale
    obtain ⟨items, hitems, hnotes⟩ := (notes_eq_ok_iff "song").mpr hnotes
    exact ⟨_, hscale, hpos, items, ⟨text, htext, hitems⟩, _, hnotes, rfl⟩

/-! ## What is left unread -/

/-- The accesses of a reading of a whole profile. -/
def visits (s : Settings) : List Access :=
  documented.flatMap fun (name, options) =>
    .fetch name :: if name ∈ s.names then options.map (.read name) else []

theorem fetch_mem_visits {name : String} :
    Access.fetch name ∈ visits s ↔ ∃ options, (name, options) ∈ documented := by
  simp only [visits, List.mem_flatMap, List.mem_cons, Access.fetch.injEq, Prod.exists]
  constructor
  · rintro ⟨n, options, hmem, rfl | hread⟩
    · exact ⟨options, hmem⟩
    · split at hread
      · simp at hread
      · simp at hread
  · rintro ⟨options, hmem⟩
    exact ⟨name, options, hmem, .inl rfl⟩

theorem read_mem_visits {name option : String} (hname : name ∈ s.names) :
    Access.read name option ∈ visits s ↔
      ∃ options, (name, options) ∈ documented ∧ option ∈ options := by
  simp only [visits, List.mem_flatMap, List.mem_cons, reduceCtorEq, false_or, Prod.exists]
  constructor
  · rintro ⟨n, options, hmem, hread⟩
    split at hread
    · obtain ⟨key, hkey, heq⟩ := List.mem_map.mp hread
      obtain ⟨rfl, rfl⟩ := Access.read.inj heq
      exact ⟨options, hmem, hkey⟩
    · simp at hread
  · rintro ⟨options, hmem, hkey⟩
    refine ⟨name, options, hmem, ?_⟩
    rw [if_pos hname]
    exact List.mem_map.mpr ⟨option, hkey, rfl⟩

theorem documented_unique {name : String} {options options' : List String}
    (h : (name, options) ∈ documented) (h' : (name, options') ∈ documented) :
    options = options' := by
  have hall : ∀ entry ∈ documented, ∀ entry' ∈ documented,
      entry.1 = entry'.1 → entry.2 = entry'.2 := by decide
  exact hall _ h _ h' rfl

theorem forall_sections_marks (accesses : List Access) {P : String → Options → Prop} :
    (∀ sec ∈ (s.marks accesses).sections, P sec.name sec.options) ↔
      ∀ sec ∈ s.sections, P sec.name sec.options := by
  have hskeleton (t : Settings) : (∀ sec ∈ t.sections, P sec.name sec.options) ↔
      ∀ entry ∈ t.skeleton, P entry.1 entry.2 := by
    simp [skeleton]
  rw [hskeleton, skeleton_marks, ← hskeleton]

theorem checkUnusedSections_visits (h : s.Fresh) :
    (s.marks (visits s)).checkUnusedSections = .ok () ↔
      ∀ name ∈ s.names, ∃ options, (name, options) ∈ documented := by
  rw [checkUnusedSections_eq_ok_iff, List.eq_nil_iff_forall_not_mem]
  simp only [mem_unusedSections_marks h, fetch_mem_visits, not_and, not_not]

theorem exists_read_visits {name key : String} (hname : name ∈ s.names) :
    (∃ asked, Access.read name asked ∈ visits s ∧ Text.lower asked = key) ↔
      ∃ known, (name, known) ∈ documented ∧ key ∈ known := by
  have hlower {known : List String} (hknown : (name, known) ∈ documented) {asked : String}
      (hasked : asked ∈ known) : Text.lower asked = asked :=
    lower_documented (List.mem_flatMap.mpr ⟨_, hknown, hasked⟩)
  simp only [read_mem_visits hname]
  constructor
  · rintro ⟨asked, ⟨known, hknown, hasked⟩, hkey⟩
    rw [hlower hknown hasked] at hkey
    exact ⟨known, hknown, hkey ▸ hasked⟩
  · rintro ⟨known, hknown, hkey⟩
    exact ⟨key, ⟨known, hknown, hkey⟩, hlower hknown hkey⟩

theorem checkUnusedOptions_visits (h : s.Fresh) :
    (s.marks (visits s)).checkUnusedOptions = .ok () ↔
      ∀ sec ∈ s.sections, (∃ known, (sec.name, known) ∈ documented) →
        ∀ key ∈ sec.options.keys, ∃ known, (sec.name, known) ∈ documented ∧ key ∈ known := by
  rw [checkUnusedOptions_eq_ok_iff]
  refine Iff.trans ?_ (forall_sections_marks (visits s) (P := fun name options =>
    (∃ known, (name, known) ∈ documented) →
      ∀ key ∈ options.keys, ∃ known, (name, known) ∈ documented ∧ key ∈ known))
  refine forall₂_congr fun sec hsec => ?_
  have hname := name_mem_of_mem_marks hsec
  rw [mem_fetched_marks, h.unfetched, fetch_mem_visits, List.eq_nil_iff_forall_not_mem]
  simp only [List.not_mem_nil, false_or, hname, true_and, mem_unused_marks h hsec,
    ← exists_read_visits hname, not_and]
  refine imp_congr_right fun _ => forall₂_congr fun key _ => ?_
  push Not
  rfl

/-- What a reading of a whole profile leaves unread are the unknown names. -/
theorem checks_iff_known (h : s.Fresh) :
    ((s.marks (visits s)).checkUnusedSections = .ok () ∧
      (s.marks (visits s)).checkUnusedOptions = .ok ()) ↔ Known s := by
  rw [checkUnusedSections_visits h, checkUnusedOptions_visits h, Known]
  constructor
  · rintro ⟨hnames, hkeys⟩ sec hsec
    obtain ⟨options, hmem⟩ := hnames sec.name (List.mem_map.mpr ⟨sec, hsec, rfl⟩)
    refine ⟨options, hmem, fun key hkey => ?_⟩
    obtain ⟨options', hmem', hkey⟩ := hkeys sec hsec ⟨options, hmem⟩ key hkey
    exact documented_unique hmem hmem' ▸ hkey
  · intro hknown
    refine ⟨fun name hname => ?_, fun sec hsec _ key hkey => ?_⟩
    · obtain ⟨sec, hsec, rfl⟩ := List.mem_map.mp hname
      obtain ⟨options, hmem, -⟩ := hknown sec hsec
      exact ⟨options, hmem⟩
    · obtain ⟨options, hmem, hkeys⟩ := hknown sec hsec
      exact ⟨options, hmem, hkeys key hkey⟩

/-! ## Whole profiles -/

section

variable {α : Type} {name key : String} {Means : String → α → Prop} {usual a : α}

/-- Without a section all its fields have their usual values. -/
theorem field_of_absent (h : name ∉ s.names) :
    Field (s.text? name key) Means usual a ↔ a = usual := by
  rw [text?_of_not_mem h]
  rfl

theorem parses_of_absent (h : name ∉ s.names) : Parses (s.text? name key) Means := by
  rw [text?_of_not_mem h]
  rintro t ⟨⟩

end

theorem timing_filled {c : Constants} :
    (if "timing" ∈ s.names then TimingFilled s c else c = ({} : Profile).constants) ↔
      TimingFilled s c := by
  by_cases h : "timing" ∈ s.names
  · rw [if_pos h]
  · simp only [if_neg h, TimingFilled, field_of_absent h]
    exact ⟨fun hc k => hc ▸ rfl, get_injective⟩

theorem table_filled {o : Table.Options} :
    (if "table" ∈ s.names then TableFilled s o else o = ({} : Profile).table) ↔
      TableFilled s o := by
  by_cases h : "table" ∈ s.names
  · rw [if_pos h]
  · rw [if_neg h]
    constructor
    · rintro rfl
      exact ⟨(field_of_absent h).mpr rfl, (field_of_absent h).mpr rfl⟩
    · rintro ⟨hwidth, hencoding⟩
      obtain ⟨width, encoding⟩ := o
      obtain rfl : width = _ := (field_of_absent h).mp hwidth
      obtain rfl : encoding = _ := (field_of_absent h).mp hencoding
      rfl

theorem output_filled {l : Listing.Layout} :
    (if "output" ∈ s.names then OutputFilled s l else l = ({} : Profile).output) ↔
      OutputFilled s l := by
  by_cases h : "output" ∈ s.names
  · rw [if_pos h]
  · rw [if_neg h]
    constructor
    · rintro rfl
      exact ⟨(field_of_absent h).mpr rfl, (field_of_absent h).mpr rfl,
        (field_of_absent h).mpr rfl, (field_of_absent h).mpr rfl⟩
    · rintro ⟨hformat, hname, hperLine, hsummary⟩
      obtain ⟨format, name, perLine, summary⟩ := l
      obtain rfl : format = _ := (field_of_absent h).mp hformat
      obtain rfl : name = _ := (field_of_absent h).mp hname
      obtain rfl : perLine = _ := (field_of_absent h).mp hperLine
      obtain rfl : summary = _ := (field_of_absent h).mp hsummary
      rfl

theorem yields_ofSettings : Yields s [] ofSettings (visits s) fun p =>
    ((s.marks (visits s)).checkUnusedSections = .ok () ∧
      (s.marks (visits s)).checkUnusedOptions = .ok ()) ∧ Filled s p := by
  refine Yields.congr (Yields.bind (.ifPresent yields_readTiming) fun constants _ =>
    Yields.bind (.ifPresent yields_readTable) fun table _ =>
    Yields.bind (.ifPresent yields_readOutput) fun output _ =>
    Yields.bind (.ifPresent fun hname => (yields_readSong hname).map some) fun song _ =>
    Yields.bind (.check _) fun _ _ => Yields.bind (.check _) fun _ _ => .pure _) ?_
  intro p
  simp only [visits, documented, List.flatMap_cons, List.flatMap_nil, List.nil_append,
    List.append_nil, List.append_assoc]
  constructor
  · rintro ⟨constants, htiming, table, htable, output, houtput, song, hsong, _, hsections, _,
      hoptions, rfl⟩
    exact ⟨⟨hsections, hoptions⟩, timing_filled.mp htiming, table_filled.mp htable,
      output_filled.mp houtput, hsong⟩
  · rintro ⟨⟨hsections, hoptions⟩, htiming, htable, houtput, hsong⟩
    exact ⟨_, timing_filled.mpr htiming, _, table_filled.mpr htable, _,
      output_filled.mpr houtput, _, hsong, (), hsections, (), hoptions, rfl⟩

/-- Settings that nobody has read give the profile that they fill, if their names are
known, and no other. -/
theorem run_eq_ok_iff (h : s.Fresh) {p : Profile} :
    (ofSettings.run s).1 = .ok p ↔ Known s ∧ Filled s p := by
  rw [← checks_iff_known h]
  constructor
  · intro hrun
    exact ((yields_ofSettings p (ofSettings.run s).2).mp (Prod.ext hrun rfl)).1
  · intro hfilled
    exact congrArg Prod.fst ((yields_ofSettings p _).mpr ⟨hfilled, rfl⟩)

theorem exists_constants (value : Constant → Int64) : ∃ c : Constants, ∀ k, c.get k = value k :=
  ⟨⟨value .clockHz, value .moveCycles, value .haltCycles, value .freqLoopMoves,
    value .outerLoopMoves⟩, fun k => by cases k <;> rfl⟩

theorem exists_timingFilled (h : ∀ k : Constant, Parses (s.text? "timing" k.name) MeansWord) :
    ∃ c, TimingFilled s c := by
  choose value hvalue using fun k =>
    (exists_field_iff (({} : Profile).constants.get k)).mpr (h k)
  obtain ⟨c, hc⟩ := exists_constants value
  exact ⟨c, fun k => (hc k).symm ▸ hvalue k⟩

theorem exists_songFilled (hscale : Parses (s.text? "song" "scale") MeansScale)
    (hnotes : Parses (s.text? "song" "notes") MeansNotes) {text : String}
    (htext : s.text? "song" "notes" = some text) : ∃ song, SongFilled s song := by
  obtain ⟨scale, hscale⟩ := (exists_field_iff 1).mpr hscale
  obtain ⟨notes, hnotes⟩ := hnotes text htext
  exact ⟨⟨scale, notes⟩, hscale, text, htext, hnotes⟩

theorem SongFilled.parses {song : SongProfile} (h : SongFilled s song) :
    Parses (s.text? "song" "scale") MeansScale ∧ Parses (s.text? "song" "notes") MeansNotes := by
  obtain ⟨hscale, text, htext, hnotes⟩ := h
  refine ⟨(exists_field_iff _).mp ⟨_, hscale⟩, ?_⟩
  rw [htext]
  rintro _ ⟨⟩
  exact ⟨_, hnotes⟩

theorem exists_filled_of_acceptable (h : Acceptable s) : ∃ p, Filled s p := by
  obtain ⟨constants, htiming⟩ := exists_timingFilled h.constants
  obtain ⟨width, hwidth⟩ := (exists_field_iff _).mpr h.width
  obtain ⟨encoding, hencoding⟩ := (exists_field_iff _).mpr h.encoding
  obtain ⟨format, hformat⟩ := (exists_field_iff _).mpr h.format
  obtain ⟨name, hname⟩ := (exists_field_iff _).mpr h.name
  obtain ⟨perLine, hperLine⟩ := (exists_field_iff _).mpr h.perLine
  obtain ⟨summary, hsummary⟩ := (exists_field_iff _).mpr h.summary
  have hsong : ∃ song? : Option SongProfile, if "song" ∈ s.names
      then ∃ song, SongFilled s song ∧ song? = some song else song? = none := by
    by_cases hsection : "song" ∈ s.names
    · obtain ⟨text, htext⟩ := h.song_notes hsection
      obtain ⟨song, hsong⟩ := exists_songFilled h.scale h.notes htext
      exact ⟨some song, by rw [if_pos hsection]; exact ⟨song, hsong, rfl⟩⟩
    · exact ⟨none, by rw [if_neg hsection]⟩
  obtain ⟨song, hsong⟩ := hsong
  exact ⟨⟨constants, ⟨width, encoding⟩, ⟨format, name, perLine, summary⟩, song⟩,
    htiming, ⟨hwidth, hencoding⟩, ⟨hformat, hname, hperLine, hsummary⟩, hsong⟩

theorem acceptable_of_filled {p : Profile} (hknown : Known s) (h : Filled s p) :
    Acceptable s := by
  have hsong : Parses (s.text? "song" "scale") MeansScale ∧
      Parses (s.text? "song" "notes") MeansNotes ∧
      ("song" ∈ s.names → ∃ text, s.text? "song" "notes" = some text) := by
    have hfilled := h.song
    by_cases hsection : "song" ∈ s.names
    · rw [if_pos hsection] at hfilled
      obtain ⟨song, hsong, -⟩ := hfilled
      obtain ⟨text, htext, -⟩ := hsong.notes
      exact ⟨hsong.parses.1, hsong.parses.2, fun _ => ⟨text, htext⟩⟩
    · exact ⟨parses_of_absent hsection, parses_of_absent hsection, fun h => absurd h hsection⟩
  exact {
    known := hknown
    constants := fun k => (exists_field_iff _).mp ⟨_, h.timing k⟩
    width := (exists_field_iff _).mp ⟨_, h.table.width⟩
    encoding := (exists_field_iff _).mp ⟨_, h.table.encoding⟩
    format := (exists_field_iff _).mp ⟨_, h.output.format⟩
    name := (exists_field_iff _).mp ⟨_, h.output.name⟩
    perLine := (exists_field_iff _).mp ⟨_, h.output.perLine⟩
    summary := (exists_field_iff _).mp ⟨_, h.output.summary⟩
    scale := hsong.1
    notes := hsong.2.1
    song_notes := hsong.2.2 }

/-- Settings that nobody has read give a profile exactly when their names are known, all
their texts can be read and a song has notes. Its fields are then what the settings say,
with the usual values where they say nothing, and it has a song if they have a section for
one. -/
theorem profile_iff_acceptable (h : s.Fresh) :
    ((∃ p, (ofSettings.run s).1 = .ok p) ↔ Acceptable s) ∧
    ∀ p, (ofSettings.run s).1 = .ok p →
      Filled s p ∧ (p.song.isSome = true ↔ "song" ∈ s.names) := by
  simp only [run_eq_ok_iff h]
  refine ⟨⟨fun ⟨_, hknown, hfilled⟩ => acceptable_of_filled hknown hfilled, fun haccept => ?_⟩,
    fun p ⟨_, hfilled⟩ => ⟨hfilled, ?_⟩⟩
  · obtain ⟨p, hfilled⟩ := exists_filled_of_acceptable haccept
    exact ⟨p, haccept.known, hfilled⟩
  have hsong := hfilled.song
  by_cases hname : "song" ∈ s.names
  · rw [if_pos hname] at hsong
    obtain ⟨song, -, hsome⟩ := hsong
    simp [hname, hsome]
  · rw [if_neg hname] at hsong
    simp [hname, hsong]

end

/-- A wide register and a song of one note. -/
def wideSong : Settings where
  sections := [{ name := "table", options := [("register_bits", "16")] },
    { name := "song", options := [("notes", "440:250,")] }]

theorem wideSong_loaded :
    ofIni "[table]\nregister_bits = 16\n[song]\nnotes: 440:250,\n" = .ok wideSong := by
  decide +kernel

theorem wideSong_accepted : wideSong.Fresh ∧ Acceptable wideSong ∧
    ∃ p, (ofSettings.run wideSong).1 = .ok p ∧ Filled wideSong p ∧ p.table.width.bits = 16 ∧
      p.song.isSome = true := by
  have hfresh : wideSong.Fresh := fresh_ofIni wideSong_loaded
  have hwidth : (ofSettings.run wideSong).1.toOption.map (·.table.width.bits) = some 16 := by
    decide +kernel
  obtain ⟨p, hp, hbits⟩ := Option.map_eq_some_iff.mp hwidth
  have hrun : (ofSettings.run wideSong).1 = .ok p := by
    cases h : (ofSettings.run wideSong).1 with
    | ok q => simpa [h, Except.toOption] using hp
    | error fault => simp [h, Except.toOption] at hp
  obtain ⟨haccept, hfilled⟩ := profile_iff_acceptable hfresh
  obtain ⟨hfilled, hsong⟩ := hfilled p hrun
  exact ⟨hfresh, haccept.mp ⟨p, hrun⟩, p, hrun, hfilled, hbits, hsong.mpr (by decide)⟩

end Profile

end StepTone
