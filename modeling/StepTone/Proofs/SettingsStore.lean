/-
StepTone.Proofs.SettingsStore — what settings hold once they are built.

Settings are built from blocks alone, whatever notation the blocks come from. So a fact
about all loaded settings is a fact about no settings at all, and one that a block keeps.

* `lookup_put`, `lookup_merge` — an option after one is set, and after a block is.
* `Settings.held?`, `held?_add`, `names_add` — options and names after a block.
* `Fresh` — settings that nobody has read yet: names stand once, and no trace is left.
* `fresh_ofIni`, `fresh_ofToml` — both loaders give fresh settings.
-/
import StepTone.Proofs.NamedValues
import StepTone.Settings.Ini
import StepTone.Settings.OfToml

namespace StepTone.Settings

/-! ## Options by name -/

namespace Options

/-- The names of the options. -/
def keys (o : Options) : List String :=
  o.map Prod.fst

/-- The options of a block under their names in lower case. -/
def lowered (block : Options) : Options :=
  block.map fun (key, value) => (Text.lower key, value)

@[simp] theorem keys_nil : keys [] = [] := rfl

@[simp] theorem keys_cons (p : String × String) (o : Options) : keys (p :: o) = p.1 :: keys o :=
  rfl

@[simp] theorem keys_append (o o' : Options) : keys (o ++ o') = keys o ++ keys o' :=
  List.map_append

@[simp] theorem lowered_nil : lowered [] = [] := rfl

@[simp] theorem lowered_cons (key value : String) (block : Options) :
    lowered ((key, value) :: block) = (Text.lower key, value) :: lowered block := rfl

theorem isSome_lookup_iff {o : Options} {k : String} : (o.lookup k).isSome ↔ k ∈ o.keys := by
  induction o with
  | nil => simp
  | cons p rest ih =>
    obtain ⟨key, value⟩ := p
    by_cases hk : k = key
    · simp [hk]
    · simp [List.lookup_cons, beq_eq_false_iff_ne.mpr hk, hk, ih]

theorem lookup_eq_some_iff {o : Options} (h : o.keys.Nodup) {k v : String} :
    o.lookup k = some v ↔ (k, v) ∈ o :=
  StepTone.lookup_eq_some_iff h

/-- Where names stand once, the order of the options does not matter. -/
theorem lookup_eq_of_perm {o o' : Options} (h : o.Perm o') (hn : o.keys.Nodup) (k : String) :
    o.lookup k = o'.lookup k := by
  have hn' : o'.keys.Nodup := (h.map Prod.fst).nodup_iff.mp hn
  ext v
  rw [lookup_eq_some_iff hn, lookup_eq_some_iff hn', h.mem_iff]

/-! ### Setting one -/

/-- An option that was set is found with its new text, and no other one is changed. -/
theorem lookup_put (o : Options) (key value k : String) :
    (o.put key value).lookup k = if k = key then some value else o.lookup k := by
  induction o with
  | nil =>
    by_cases hk : k = key
    · simp [put, hk]
    · simp [put, List.lookup_cons, beq_eq_false_iff_ne.mpr hk, hk]
  | cons p rest ih =>
    obtain ⟨a, v⟩ := p
    by_cases ha : a = key
    · subst ha
      by_cases hk : k = a
      · simp [put, hk]
      · simp [put, List.lookup_cons, beq_eq_false_iff_ne.mpr hk, hk]
    · by_cases hk : k = a
      · subst hk
        simp [put, ha]
      · simp [put, ha, List.lookup_cons, beq_eq_false_iff_ne.mpr hk, ih]

theorem put_of_not_mem {o : Options} {key : String} (h : key ∉ o.keys) (value : String) :
    o.put key value = o ++ [(key, value)] := by
  induction o with
  | nil => rfl
  | cons p rest ih =>
    obtain ⟨a, v⟩ := p
    simp only [keys_cons, List.mem_cons, not_or] at h
    simp [put, Ne.symm h.1, ih h.2]

theorem keys_put_of_mem {o : Options} {key : String} (h : key ∈ o.keys) (value : String) :
    (o.put key value).keys = o.keys := by
  induction o with
  | nil => simp at h
  | cons p rest ih =>
    obtain ⟨a, v⟩ := p
    by_cases ha : a = key
    · simp [put, ha]
    · have hrest : key ∈ keys rest := by simpa [Ne.symm ha] using h
      simp [put, ha, ih hrest]

/-- Setting an option adds its name and loses none. -/
theorem mem_keys_put {o : Options} {key value k : String} :
    k ∈ (o.put key value).keys ↔ k = key ∨ k ∈ o.keys := by
  by_cases h : key ∈ o.keys
  · rw [keys_put_of_mem h]
    exact ⟨.inr, fun hk => hk.elim (fun he => he ▸ h) id⟩
  · rw [put_of_not_mem h]
    simp [or_comm]

theorem nodup_put {o : Options} (h : o.keys.Nodup) (key value : String) :
    (o.put key value).keys.Nodup := by
  by_cases hk : key ∈ o.keys
  · rwa [keys_put_of_mem hk]
  · rw [put_of_not_mem hk]
    simpa [List.nodup_append] using ⟨h, fun a ha hak => hk (hak ▸ ha)⟩

/-! ### Setting a block -/

@[simp] theorem merge_nil (o : Options) : o.merge [] = o := rfl

theorem merge_cons (o : Options) (key value : String) (block : Options) :
    o.merge ((key, value) :: block) = (o.put (Text.lower key) value).merge block := rfl

/-- After a block, an option has the last value that the block gives it, and else the one
that it had before. -/
theorem lookup_merge (o block : Options) (k : String) :
    (o.merge block).lookup k = (block.lowered.reverse.lookup k).or (o.lookup k) := by
  induction block generalizing o with
  | nil => rfl
  | cons p rest ih =>
    obtain ⟨key, value⟩ := p
    rw [merge_cons, ih, lookup_put, lowered_cons, List.reverse_cons, List.lookup_append,
      Option.or_assoc]
    by_cases hk : k = Text.lower key
    · simp [hk]
    · simp [List.lookup_cons, beq_eq_false_iff_ne.mpr hk, hk]

theorem nodup_merge {o : Options} (h : o.keys.Nodup) (block : Options) :
    (o.merge block).keys.Nodup := by
  induction block generalizing o with
  | nil => exact h
  | cons p rest ih =>
    obtain ⟨key, value⟩ := p
    exact ih (nodup_put h (Text.lower key) value)

/-- A block of options whose names stand once, and not before, is put at the end. -/
theorem merge_eq_append {o block : Options} (h : (o.keys ++ block.lowered.keys).Nodup) :
    o.merge block = o ++ block.lowered := by
  induction block generalizing o with
  | nil => simp
  | cons p rest ih =>
    obtain ⟨key, value⟩ := p
    rw [lowered_cons, keys_cons] at h
    have hkey : Text.lower key ∉ o.keys := by
      intro hmem
      exact (List.disjoint_of_nodup_append h) hmem List.mem_cons_self
    rw [merge_cons, put_of_not_mem hkey, ih (by simpa using h)]
    simp

end Options

/-! ## Sections by name -/

section

variable {s : Settings} {name : String}

theorem isSome_section?_iff {n : String} : (s.section? n).isSome ↔ n ∈ s.names := by
  simp [section?, names]

theorem section?_eq_none_iff {n : String} : s.section? n = none ↔ n ∉ s.names := by
  rw [← isSome_section?_iff, Option.not_isSome_iff_eq_none]

theorem mem_of_section? {sec : Section} (h : s.section? name = some sec) :
    sec ∈ s.sections ∧ sec.name = name :=
  ⟨List.mem_of_find?_eq_some h, by simpa using List.find?_some h⟩

/-- Where names stand once, the section with the name of a section is that section. -/
theorem section?_of_mem (hn : s.names.Nodup) {sec : Section} (h : sec ∈ s.sections) :
    s.section? sec.name = some sec := by
  obtain ⟨sections, fetched⟩ := s
  simp only [names, section?] at hn h ⊢
  induction sections with
  | nil => simp at h
  | cons first rest ih =>
    obtain ⟨hfirst, hrest⟩ := List.nodup_cons.mp hn
    rcases List.mem_cons.mp h with rfl | h
    · simp
    · have hne : first.name ≠ sec.name := fun he =>
        hfirst (List.mem_map.mpr ⟨sec, h, he.symm⟩)
      rw [List.find?_cons_of_neg (by simpa using hne)]
      exact ih hrest h

variable {f : Section → Section} (hf : ∀ sec, (f sec).name = sec.name)

include hf

theorem names_update : (s.update name f).names = s.names := by
  simp only [names, update, List.map_map]
  refine List.map_congr_left fun sec _ => ?_
  by_cases h : sec.name = name
  · simp [h, hf]
  · simp [h]

/-- A change reaches the section of that name and no other. -/
theorem section?_update (n : String) :
    (s.update name f).section? n = if n = name then (s.section? n).map f else s.section? n := by
  have hname (sec : Section) : (if sec.name = name then f sec else sec).name = sec.name := by
    by_cases h : sec.name = name
    · simp [h, hf]
    · simp [h]
  have hfind : (s.update name f).section? n =
      (s.section? n).map fun sec => if sec.name = name then f sec else sec := by
    simp only [section?, update, List.find?_map, Function.comp_def, hname]
  rw [hfind]
  cases hsec : s.section? n with
  | none => simp
  | some sec =>
    obtain rfl := (mem_of_section? hsec).2
    by_cases h : sec.name = name
    · simp [h]
    · simp [h]

end

section

variable (s : Settings) (name : String) (block : Options)

/-- A block goes into the section of that name, which is made if it is not there. -/
theorem section?_add (n : String) : (s.add name block).section? n =
    if n = name then some (((s.section? name).getD { name }).merge block) else s.section? n := by
  rw [add]
  by_cases hsome : (s.section? name).isSome
  · rw [if_pos hsome, section?_update (f := (·.merge block)) fun _ => rfl]
    obtain ⟨sec, hsec⟩ := Option.isSome_iff_exists.mp hsome
    by_cases hn : n = name
    · simp [hn, hsec]
    · simp [hn]
  · have hnone : s.section? name = none := by simpa using hsome
    rw [if_neg hsome, hnone]
    simp only [section?, List.find?_append] at hnone ⊢
    by_cases hn : n = name
    · simp [hn, hnone, Section.merge]
    · simp [hn, Section.merge, Ne.symm hn]

theorem names_add :
    (s.add name block).names = if name ∈ s.names then s.names else s.names ++ [name] := by
  rw [add]
  by_cases hname : name ∈ s.names
  · rw [if_pos (isSome_section?_iff.mpr hname), if_pos hname,
      names_update (f := (·.merge block)) fun _ => rfl]
  · rw [if_neg (mt isSome_section?_iff.mp hname), if_neg hname]
    simp [names, Section.merge]

/-- The text of an option of a section, as it was loaded. -/
def held? (name key : String) : Option String :=
  (s.section? name).bind (·.options.lookup key)

/-- After a block of a section, an option of that section has the last value that the
block gives it; all else is as before. -/
theorem held?_add (n k : String) : (s.add name block).held? n k =
    if n = name then (block.lowered.reverse.lookup k).or (s.held? n k) else s.held? n k := by
  rw [held?, held?, section?_add]
  by_cases hn : n = name
  · subst hn
    cases hsec : s.section? n with
    | none => simp [Section.merge, Options.lookup_merge]
    | some sec => simp [Section.merge, Options.lookup_merge]
  · simp [hn]

end

/-! ## Settings that nobody has read yet -/

/-- Settings as they are loaded: names of sections, and of options in a section, stand
once, and there is no trace of a reading. -/
structure Fresh (s : Settings) : Prop where
  names_nodup : s.names.Nodup
  keys_nodup : ∀ sec ∈ s.sections, sec.options.keys.Nodup
  unfetched : s.fetched = []
  untouched : ∀ sec ∈ s.sections, sec.touched = []

theorem fresh_empty : Fresh {} where
  names_nodup := List.nodup_nil
  keys_nodup := by simp
  unfetched := rfl
  untouched := by simp

/-- Every section after a block was added is an old one, a new one, or an old one with the
block. -/
theorem mem_sections_add {s : Settings} {name : String} {block : Options} {sec : Section}
    (h : sec ∈ (s.add name block).sections) :
    sec ∈ s.sections ∨ sec = Section.merge { name } block ∨
      ∃ old ∈ s.sections, sec = old.merge block := by
  rw [add] at h
  by_cases hsome : (s.section? name).isSome
  · rw [if_pos hsome] at h
    obtain ⟨old, hold, rfl⟩ := List.mem_map.mp h
    by_cases hname : old.name = name
    · exact .inr (.inr ⟨old, hold, by simp [hname]⟩)
    · exact .inl (by simpa [hname] using hold)
  · rw [if_neg hsome] at h
    rcases List.mem_append.mp h with h | h
    · exact .inl h
    · exact .inr (.inl (List.mem_singleton.mp h))

/-- Adding a block reads nothing. -/
theorem Fresh.add {s : Settings} (h : s.Fresh) (name : String) (block : Options) :
    (s.add name block).Fresh where
  names_nodup := by
    rw [names_add]
    by_cases hname : name ∈ s.names
    · rw [if_pos hname]
      exact h.names_nodup
    · rw [if_neg hname]
      simpa [List.nodup_append] using ⟨h.names_nodup, fun a ha hak => hname (hak ▸ ha)⟩
  keys_nodup := by
    intro sec hsec
    rcases mem_sections_add hsec with hold | rfl | ⟨old, hold, rfl⟩
    · exact h.keys_nodup sec hold
    · exact Options.nodup_merge (o := []) List.nodup_nil block
    · exact Options.nodup_merge (h.keys_nodup old hold) block
  unfetched := by
    rw [Settings.add]
    split
    · exact h.unfetched
    · exact h.unfetched
  untouched := by
    intro sec hsec
    rcases mem_sections_add hsec with hold | rfl | ⟨old, hold, rfl⟩
    · exact h.untouched sec hold
    · rfl
    · exact h.untouched old hold

theorem Draft.fresh_close {d : Draft} (h : d.settings.Fresh) : d.close.Fresh := by
  rw [close]
  cases d.block with
  | none => exact h
  | some block => exact h.add block.1 block.2

theorem Draft.fresh_take {d : Draft} (h : d.settings.Fresh) (line : Line) :
    (d.take line).settings.Fresh := by
  cases line with
  | blank => exact h
  | header name => exact fresh_close h
  | option key value => exact h

theorem fresh_takeLines {d : Draft} {number : Nat} {lines : List (List Char)} {s : Settings}
    (hd : d.settings.Fresh) (h : takeLines d number lines = .ok s) : s.Fresh := by
  fun_induction takeLines d number lines with
  | case1 d number =>
    cases h
    exact Draft.fresh_close hd
  | case2 => cases h
  | case3 => cases h
  | case4 d number raw rest hshort line hline ih => exact ih (Draft.fresh_take hd line) h

/-- Settings from an INI text have not been read by anybody. -/
theorem fresh_ofIni {text : String} {s : Settings} (h : ofIni text = .ok s) : s.Fresh :=
  fresh_takeLines fresh_empty h

theorem fresh_addTables {s s' : Settings} {tables : Toml.Members} (hs : s.Fresh)
    (h : s.addTables tables = .ok s') : s'.Fresh := by
  fun_induction addTables s tables with
  | case1 s =>
    cases h
    exact hs
  | case2 => cases h
  | case3 s name members rest options hoptions ih => exact ih (hs.add _ _) h
  | case4 => cases h

theorem fresh_ofToml {root : Toml.Members} {s : Settings} (h : ofToml root = .ok s) : s.Fresh :=
  fresh_addTables fresh_empty h

end StepTone.Settings
