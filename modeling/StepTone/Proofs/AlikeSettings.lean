/-
StepTone.Proofs.AlikeSettings — settings that no reading can tell apart.

Options are read without the blanks around their texts, and nothing that is read or
reported depends on the order in which a section holds them. So settings that differ only
in such blanks and in that order give the same profile, or the same fault.

* `Section.Alike`, `Alike` — the same options, up to order and blanks.
* `Uniform` — a reading that gives the same on settings that are alike.
* `uniform_ofSettings` — a profile is read uniformly.
-/
import Mathlib.Data.List.Forall2
import StepTone.Proofs.ReadingRules

namespace StepTone.Settings

/-! ## Sections -/

namespace Options

/-- The options without the blanks around their texts. -/
def trimmed (o : Options) : Options :=
  o.map fun (key, text) => (key, Text.trim text)

@[simp] theorem keys_trimmed (o : Options) : o.trimmed.keys = o.keys := by
  simp [keys, trimmed]

/-- Blanks around texts do not matter for finding them. -/
theorem lookup_trimmed (o : Options) (k : String) :
    o.trimmed.lookup k = (o.lookup k).map Text.trim := by
  induction o with
  | nil => rfl
  | cons p rest ih =>
    obtain ⟨key, text⟩ := p
    by_cases hk : k = key
    · simp [trimmed, hk]
    · have hbeq : (k == key) = false := by simp [hk]
      simpa [trimmed, List.lookup_cons, hbeq] using ih

end Options

namespace Section

/-- Sections with the same options, up to their order and the blanks around their texts,
of which the same have been read. -/
structure Alike (a b : Section) : Prop where
  name : a.name = b.name
  touched : a.touched = b.touched
  keys_nodup : a.options.keys.Nodup
  options : a.options.trimmed.Perm b.options.trimmed

variable {a b : Section}

theorem Alike.keys (h : a.Alike b) : a.options.keys.Perm b.options.keys := by
  have hkeys := h.options.map Prod.fst
  rw [← Options.keys_trimmed a.options, ← Options.keys_trimmed b.options]
  exact hkeys

/-- A text is asked for without its blanks, and found in whatever order. -/
theorem Alike.value? (h : a.Alike b) (option : String) : a.value? option = b.value? option := by
  rw [Section.value?, Section.value?, ← Options.lookup_trimmed, ← Options.lookup_trimmed]
  exact Options.lookup_eq_of_perm h.options (by simpa using h.keys_nodup) _

theorem Alike.get {α : Type} (h : a.Alike b) (kind : Kind α) (option : String)
    (fallback : Option α) : a.get kind option fallback = b.get kind option fallback := by
  simp only [Section.get, h.value?, h.name]

/-- Reading an option keeps sections alike: the same one is marked in both. -/
theorem Alike.touch (h : a.Alike b) (option : String) :
    (a.touch option).Alike (b.touch option) := by
  have htouched : (a.touch option).touched = (b.touch option).touched := by
    simp only [Section.touch, Options.isSome_lookup_iff, h.keys.mem_iff, h.touched]
    split
    · rfl
    · exact h.touched
  exact ⟨by simp [h.name], htouched, by simpa using h.keys_nodup, by simpa using h.options⟩

/-- What is left over is reported in a sorted order, whatever the order in the section. -/
theorem Alike.unused (h : a.Alike b) : a.unused = b.unused := by
  rw [Section.unused, Section.unused, h.touched]
  exact sorted_eq_of_perm (h.keys.filter _)

end Section

/-! ## Settings -/

/-- Settings whose sections are alike, in the same order, and of which the same have been
fetched. -/
structure Alike (s t : Settings) : Prop where
  fetched : s.fetched = t.fetched
  sections : List.Forall₂ Section.Alike s.sections t.sections

namespace Alike

variable {s t : Settings}

/-- What cannot tell sections apart cannot tell settings apart. -/
theorem map_sections {β : Type} (h : s.Alike t) {f : Section → β}
    (hf : ∀ a b : Section, a.Alike b → f a = f b) : s.sections.map f = t.sections.map f := by
  rw [← List.forall₂_eq_eq_eq, List.forall₂_map_left_iff, List.forall₂_map_right_iff]
  exact h.sections.imp hf

theorem names (h : s.Alike t) : s.names = t.names :=
  h.map_sections fun _ _ hab => hab.name

/-- A section is in both settings or in none, and then alike. -/
theorem section? (h : s.Alike t) (name : String) :
    (s.section? name = none ∧ t.section? name = none) ∨
      ∃ a b, s.section? name = some a ∧ t.section? name = some b ∧ a.Alike b := by
  have hsections := h.sections
  simp only [Settings.section?]
  generalize s.sections = l at hsections
  generalize t.sections = l' at hsections
  induction hsections with
  | nil => simp
  | @cons a b _ _ hab _ ih =>
    by_cases hname : a.name = name
    · exact .inr ⟨a, b, by simp [hname], by simp [← hab.name, hname], hab⟩
    · simpa [hname, ← hab.name] using ih

/-- Fetching a section keeps settings alike. -/
theorem fetch (h : s.Alike t) (name : String) : (s.fetch name).Alike (t.fetch name) := by
  refine ⟨?_, by simpa only [fetch_sections] using h.sections⟩
  simp only [Settings.fetch, isSome_section?_iff, h.names, h.fetched]
  split
  · rfl
  · exact h.fetched

theorem touch (h : s.Alike t) (name option : String) :
    (s.touch name option).Alike (t.touch name option) := by
  refine ⟨h.fetched, ?_⟩
  simp only [Settings.touch, update, List.forall₂_map_left_iff, List.forall₂_map_right_iff]
  refine h.sections.imp fun a b hab => ?_
  by_cases hname : a.name = name
  · simpa [hname, ← hab.name] using hab.touch option
  · simpa [hname, ← hab.name] using hab

theorem checkUnusedSections (h : s.Alike t) :
    s.checkUnusedSections = t.checkUnusedSections := by
  have hunused : s.unusedSections = t.unusedSections := by
    rw [unusedSections, unusedSections, h.names, h.fetched]
  rw [Settings.checkUnusedSections, Settings.checkUnusedSections, hunused]

theorem checkUnusedOptions (h : s.Alike t) : s.checkUnusedOptions = t.checkUnusedOptions := by
  have hfilter (u : Settings) : u.leftovers =
      (u.sections.map fun sec => (sec.name, sec.unused)).filter
        fun left => u.fetched.contains left.1 && !left.2.isEmpty := by
    rw [leftovers, List.filter_map]
    rfl
  have hmap := h.map_sections (f := fun sec => (sec.name, sec.unused))
    fun a b hab => by rw [hab.name, hab.unused]
  have hleft : s.leftovers = t.leftovers := by
    rw [hfilter, hfilter, hmap, h.fetched]
  rw [Settings.checkUnusedOptions, Settings.checkUnusedOptions, hleft]

end Alike

/-! ## Readings -/

/-- A reading that gives the same on settings that are alike, and leaves them alike. -/
def Uniform {α : Type} (x : Reading α) : Prop :=
  ∀ s t : Settings, s.Alike t → (x.run s).1 = (x.run t).1 ∧ (x.run s).2.Alike (x.run t).2

namespace Uniform

variable {α β : Type}

theorem pure (a : α) : Uniform (Pure.pure a) :=
  fun _ _ h => ⟨rfl, h⟩

theorem throw (fault : Fault) : Uniform (MonadExcept.throw fault : Reading α) :=
  fun _ _ h => ⟨rfl, h⟩

/-- A fault of the first reading ends both, and its value goes on into both. -/
theorem bind {x : Reading α} {f : α → Reading β} (hx : Uniform x) (hf : ∀ a, Uniform (f a)) :
    Uniform (x >>= f) := by
  intro s t h
  obtain ⟨hresult, halike⟩ := hx s t h
  rw [Reading.run_bind, Reading.run_bind]
  rcases hs : x.run s with ⟨r, s'⟩
  rcases ht : x.run t with ⟨r', t'⟩
  rw [hs, ht] at hresult halike
  obtain rfl : r = r' := hresult
  cases r with
  | ok a => exact hf a s' t' halike
  | error fault => exact ⟨rfl, halike⟩

theorem check {f : Settings → Except Fault Unit} (hf : ∀ s t : Settings, s.Alike t → f s = f t) :
    Uniform (Reading.check f) := by
  intro s t h
  rw [Reading.run_check, Reading.run_check]
  exact ⟨hf s t h, h⟩

theorem option (name : String) (kind : Kind α) (asked : String) (fallback : Option α) :
    Uniform (Reading.option name kind asked fallback) := by
  intro s t h
  rcases h.section? name with ⟨hs, ht⟩ | ⟨a, b, hs, ht, hab⟩
  · rw [Reading.run_option_of_none hs, Reading.run_option_of_none ht]
    exact ⟨rfl, h⟩
  · rw [Reading.run_option_of_section hs, Reading.run_option_of_section ht]
    exact ⟨hab.get kind asked fallback, h.touch name asked⟩

/-- A section is read from both settings or from none. -/
theorem ifPresent {read : Reading α} (name : String) (usual : α) (hread : Uniform read) :
    Uniform (Profile.ifPresent name usual read) := by
  intro s t h
  rw [Profile.ifPresent, Reading.run_bind, Reading.run_bind, Reading.run_fetch?,
    Reading.run_fetch?]
  rcases h.section? name with ⟨hs, ht⟩ | ⟨a, b, hs, ht, -⟩
  · simp only [hs, ht]
    exact ⟨rfl, h.fetch name⟩
  · simp only [hs, ht]
    exact hread _ _ (h.fetch name)

end Uniform

/-! ## Profiles -/

/-- So everything that is put together from options is read uniformly. -/
theorem compositional_uniform : Compositional Uniform where
  pure := .pure
  throw := .throw
  bind := .bind
  option := .option
  ifPresent := .ifPresent

/-- Settings that are alike give the same profile, or the same fault. -/
theorem uniform_ofSettings : Uniform Profile.ofSettings := by
  rw [Profile.ofSettings_eq]
  refine compositional_uniform.collect.bind fun p => ?_
  refine (Uniform.check fun _ _ h => h.checkUnusedSections).bind fun _ => ?_
  exact (Uniform.check fun _ _ h => h.checkUnusedOptions).bind fun _ => .pure p

end StepTone.Settings
