/-
StepTone.Proofs.TomlValues — the values of a TOML document come back.

A document is kept as texts: every value of a table is written as the text of an option, and
whoever asks for the option reads that text again. What is asked for with the kind of the
value is the value itself, up to blanks around a string; a list of strings comes back item
by item, and a list of pairs of numbers comes back as the notes of a song.

* `Stands` — the value that a document gives an option.
* `held_of_stands` — the text that is kept for it.
* `Gets` — whoever reads the option gets a value.
* `toml_values_survive` — the value that is got is the one that stands there.
-/
import Mathlib
import StepTone.Proofs.ListText
import StepTone.Proofs.NotationAgreement
import StepTone.Proofs.ProfileReading
import StepTone.Proofs.RealReading

namespace StepTone.Settings

open Toml (Value Members)
open Binary64 (isFinite)
open Decimal (Numeric)

/-! ## The value of an option -/

/-- The values of the members with a name, in any case. -/
def valuesAt (key : String) (members : Members) : List Value :=
  members.flatMap fun member => if Text.lower member.1 = key then [member.2] else []

/-- The values that an entry of a document gives an option of a section. -/
def valuesIn (name key : String) : String × Value → List Value
  | (table, .table members) => if Text.lower table = name then valuesAt key members else []
  | _ => []

/-- The value that a document gives an option of a section: of several in different cases, the
last one, the tables taken in ascending order of their names. -/
def standing? (root : Members) (name key : String) : Option Value :=
  ((root.mergeSort fun a b => decide (a.1 ≤ b.1)).flatMap (valuesIn name key)).getLast?

/-- The document gives the option this value; the option is asked for in any case. -/
def Stands (root : Members) (name option : String) (v : Value) : Prop :=
  standing? root name (Text.lower option) = some v

/-- No two names are the same in lower case. -/
def Distinct (members : Members) : Prop :=
  (members.map fun member => Text.lower member.1).Nodup

instance (members : Members) : Decidable (Distinct members) :=
  inferInstanceAs (Decidable (List.Nodup _))

/-- Where names are distinct, only one member can give what depends on a name. -/
theorem flatMap_of_distinct {members : Members} (h : Distinct members) {member : String × Value}
    (hmem : member ∈ members) {f : String × Value → List Value}
    (hf : ∀ other, Text.lower other.1 ≠ Text.lower member.1 → f other = []) :
    members.flatMap f = f member := by
  obtain ⟨before, after, rfl⟩ := List.append_of_mem hmem
  rw [Distinct, List.map_append, List.map_cons, List.nodup_middle, List.nodup_cons,
    List.mem_append, not_or] at h
  obtain ⟨⟨hbefore, hafter⟩, -⟩ := h
  have hnone : ∀ {rest : Members}, Text.lower member.1 ∉ rest.map (fun m => Text.lower m.1) →
      rest.flatMap f = [] := by
    intro rest hrest
    refine List.flatMap_eq_nil_iff.mpr fun other hother => hf other fun heq => hrest ?_
    exact heq ▸ List.mem_map_of_mem hother
  rw [List.flatMap_append, List.flatMap_cons, hnone hbefore, hnone hafter, List.nil_append,
    List.append_nil]

/-- Where names are distinct, every member of a table stands for its option. -/
theorem stands_of_mem {root members : Members} {table key : String} {v : Value}
    (hroot : Distinct root) (hmembers : Distinct members)
    (htable : (table, .table members) ∈ root) (hmem : (key, v) ∈ members) :
    Stands root (Text.lower table) key v := by
  have hsorted := List.mergeSort_perm root fun a b => decide (a.1 ≤ b.1)
  have hdistinct : Distinct (root.mergeSort fun a b => decide (a.1 ≤ b.1)) :=
    (hsorted.map _).nodup_iff.mpr hroot
  have hvalues : valuesAt (Text.lower key) members = [v] := by
    rw [valuesAt, flatMap_of_distinct hmembers hmem fun other hother => if_neg hother, if_pos rfl]
  have hin : ∀ other : String × Value, Text.lower other.1 ≠ Text.lower table →
      valuesIn (Text.lower table) (Text.lower key) other = [] := by
    rintro ⟨name, value⟩ hname
    cases value with
    | table _ => exact if_neg hname
    | _ => rfl
  rw [Stands, standing?, flatMap_of_distinct hdistinct (hsorted.mem_iff.mpr htable) hin, valuesIn,
    if_pos rfl, hvalues]
  rfl

/-- The option has been written as the text of a value. -/
def IsWritten (v : Value) (text : String) : Prop :=
  optionText v = .ok text

theorem rel_or {α β : Type} {R : α → β → Prop} {a a' : Option α} {b b' : Option β}
    (h : Option.Rel R a b) (h' : Option.Rel R a' b') : Option.Rel R (a.or a') (b.or b') := by
  cases h with
  | some hab => exact .some hab
  | none => exact h'

/-- A block of options keeps the text of the last value. -/
theorem rel_lookup {members : Members} {o : Options} (h : List.Forall₂ IsText members o)
    (key : String) :
    Option.Rel IsWritten (valuesAt key members).getLast? (o.lowered.reverse.lookup key) := by
  induction h with
  | nil => exact .none
  | @cons member option members o hmember _ ih =>
    obtain ⟨k, v⟩ := member
    obtain ⟨k', text⟩ := option
    obtain ⟨rfl, htext⟩ := hmember
    rw [Options.lowered_cons, List.reverse_cons, List.lookup_append]
    by_cases hkey : Text.lower k' = key
    · have hvalues : valuesAt key ((k', v) :: members) = [v] ++ valuesAt key members := by
        simp [valuesAt, hkey]
      have hlast : [(Text.lower k', text)].lookup key = some text := by simp [hkey]
      rw [hvalues, List.getLast?_append, hlast]
      exact rel_or ih (.some htext)
    · have hvalues : valuesAt key ((k', v) :: members) = valuesAt key members := by
        simp [valuesAt, hkey]
      have hnone : [(Text.lower k', text)].lookup key = none := by
        simpa [List.lookup_eq_none_iff] using Ne.symm hkey
      rwa [hvalues, hnone, Option.or_none]

/-- Every option of the loaded settings has the text of its value. -/
theorem rel_addTables {s t : Settings} {order : Members} (h : s.addTables order = .ok t)
    (name key : String) {v? : Option Value} (hs : Option.Rel IsWritten v? (s.held? name key)) :
    Option.Rel IsWritten ((order.flatMap (valuesIn name key)).getLast?.or v?)
      (t.held? name key) := by
  -- a later table may set the option again, so the value that stood before is carried along
  induction order generalizing s v? with
  | nil =>
    obtain rfl := Except.ok.inj h
    exact hs
  | cons entry rest ih =>
    obtain ⟨entryName, value⟩ := entry
    cases value with
    | table members =>
      rw [addTables] at h
      cases hoptions : tableOptions entryName members with
      | error fault => simp [hoptions] at h
      | ok o =>
        simp only [hoptions] at h
        rw [List.flatMap_cons, List.getLast?_append, Option.or_assoc]
        refine ih h ?_
        rw [held?_add]
        by_cases hname : name = Text.lower entryName
        · rw [if_pos hname, valuesIn, if_pos hname.symm]
          exact rel_or (rel_lookup (tableOptions_eq_ok_iff.mp hoptions) key) hs
        · rw [if_neg hname, valuesIn, if_neg (Ne.symm hname)]
          exact hs
    | _ => simp [addTables] at h

/-- The text of the value that stands for an option is kept. -/
theorem held_of_stands {root : Members} {s : Settings} (h : ofToml root = .ok s)
    {name option : String} {v : Value} (hv : Stands root name option v) {text : String}
    (htext : optionText v = .ok text) : s.held? name (Text.lower option) = some text := by
  have hrel := rel_addTables h name (Text.lower option) Option.Rel.none
  rw [Option.or_none, ← standing?, hv] at hrel
  generalize s.held? name (Text.lower option) = held at hrel ⊢
  cases hrel with
  | some hwritten => rw [Except.ok.inj (htext.symm.trans hwritten)]

/-! ## Whoever reads an option -/

/-- Whoever reads the option as a kind of value gets this one, whatever was read before and
whatever there is to fall back to. -/
def Gets {α : Type} (s : Settings) (name option : String) (kind : Kind α) (a : α) : Prop :=
  ∀ (done : List Access) (fallback : Option α),
    ((Reading.option name kind option fallback).run (s.marks done)).1 = .ok a

theorem gets_of_held {α : Type} {s : Settings} {name option text : String} {kind : Kind α} {a : α}
    (h : s.held? name (Text.lower option) = some text)
    (hread : kind.read (Text.trim text) = .ok a) : Gets s name option kind a := by
  intro done fallback
  have htext : (s.marks done).text? name (Text.lower option) = some (Text.trim text) := by
    rw [text?_marks, text?, h]
    rfl
  cases hsec : (s.marks done).section? name with
  | none => simp [text?, held?, hsec] at htext
  | some sec =>
    have hvalue : sec.value? option = some (Text.trim text) := by
      rw [← htext, text?, held?, hsec]
      rfl
    rw [Reading.run_option_of_section hsec]
    simp only [Section.get, hvalue, hread]

theorem gets_of_stands {α : Type} {root : Members} {s : Settings} (h : ofToml root = .ok s)
    {name option : String} {v : Value} (hv : Stands root name option v) {text : String}
    (htext : optionText v = .ok text) {kind : Kind α} {a : α}
    (hread : kind.read (Text.trim text) = .ok a) : Gets s name option kind a :=
  gets_of_held (held_of_stands h hv htext) hread

/-! ## Scalars -/

theorem read_word (n : Int64) : Kind.word.read (Text.trim (toString n.toInt)) = .ok n := by
  rw [trim_of_numeric (Decimal.numeric_int n.toInt), Profile.read_word_iff]
  exact Numeral.decimal_int n

theorem read_real {x : Float} (h : isFinite x = true) :
    Kind.real.read (Text.trim (Decimal.plain x)) = .ok x := by
  rw [trim_of_numeric (Decimal.numeric_plain x)]
  exact Profile.mapError_eq_ok_iff.mpr (Numeral.real_plain h)

theorem read_truth (b : Bool) :
    Kind.truth.read (Text.trim (if b then "true" else "false")) = .ok b := by
  rw [Profile.read_truth_iff]
  have htrue : Text.lower (Text.trim "true") ∈ ["1", "true", "yes", "on"] := by decide +kernel
  have hfalse : Text.lower (Text.trim "false") ∈ ["0", "false", "no", "off"] := by decide +kernel
  cases b with
  | true => exact htrue
  | false => exact hfalse

/-! ## Lists -/

theorem optionTexts_strings (ts : List String) : optionTexts (ts.map .string) = .ok ts := by
  induction ts with
  | nil => rfl
  | cons t rest ih => simp [optionTexts, optionText, ih]

theorem optionText_strings (ts : List String) :
    optionText (.array (ts.map .string)) = .ok (", ".intercalate ts) := by
  have hpair : pairText? (ts.map .string) = none := by
    rcases ts with _ | ⟨a, _ | ⟨b, _ | ⟨c, rest⟩⟩⟩ <;> rfl
  rw [optionText, hpair, optionTexts_strings]
  rfl

/-! ## Notes -/

/-- The double that a number of a document stands for; an integer stands for the nearest
one. -/
def number? : Value → Option Float
  | .integer n => some (Float.ofInt n.toInt)
  | .float x => if isFinite x then some x else none
  | _ => none

/-- An array of two numbers is a note. -/
def IsNote (item : Value) (n : Song.Note Float) : Prop :=
  ∃ a b, item = .array [a, b] ∧ number? a = some n.frequency ∧ number? b = some n.durationMs

/-- A number is written as a numeral that is read as its double. -/
theorem numberText?_of_number? {v : Value} {x : Float} (h : number? v = some x) :
    ∃ text, numberText? v = some text ∧ Numeric text.toList ∧ Numeral.real text = .ok x ∧
      isFinite x = true := by
  cases v with
  | integer n =>
    obtain rfl := Option.some.inj h
    exact ⟨_, rfl, Decimal.numeric_int n.toInt, Numeral.real_int n, Numeral.isFinite_ofInt n⟩
  | float y =>
    obtain ⟨hfinite, hx⟩ := Option.ite_none_right_eq_some.mp h
    obtain rfl := Option.some.inj hx
    exact ⟨_, rfl, Decimal.numeric_plain y, Numeral.real_plain hfinite, hfinite⟩
  | _ => exact absurd h (Option.some_ne_none _).symm

/-- An array of two numbers is written as an item that is read as the note. -/
theorem optionText_note {item : Value} {n : Song.Note Float} (h : IsNote item n) :
    ∃ text, optionText item = .ok text ∧ IsItem text ∧ Profile.MeansNote text n := by
  obtain ⟨a, b, rfl, ha, hb⟩ := h
  obtain ⟨before, hbefore, hnumeric, hreal, hfinite⟩ := numberText?_of_number? ha
  obtain ⟨after, hafter, hnumeric', hreal', hfinite'⟩ := numberText?_of_number? hb
  refine ⟨before ++ ":" ++ after, ?_, isItem_pair hnumeric hnumeric', before.toList, after.toList,
    by simp, hnumeric.not_mem rfl, ?_, ?_, hfinite, hfinite'⟩
  · have hpair : pairText? [a, b] = some (before ++ ":" ++ after) := by
      simp [pairText?, hbefore, hafter]
    rw [optionText, hpair]
  · rw [String.ofList_toList, trim_of_numeric hnumeric, hreal]
  · rw [String.ofList_toList, trim_of_numeric hnumeric', hreal']

theorem optionTexts_notes {items : List Value} {notes : List (Song.Note Float)}
    (h : List.Forall₂ IsNote items notes) :
    ∃ texts, optionTexts items = .ok texts ∧ (∀ text ∈ texts, IsItem text) ∧
      List.Forall₂ Profile.MeansNote texts notes := by
  induction h with
  | nil => exact ⟨[], rfl, by simp, .nil⟩
  | @cons item n items notes hitem _ ih =>
    obtain ⟨text, htext, hshape, hmeans⟩ := optionText_note hitem
    obtain ⟨texts, htexts, hshapes, hall⟩ := ih
    refine ⟨text :: texts, ?_, List.forall_mem_cons.mpr ⟨hshape, hshapes⟩, .cons hmeans hall⟩
    rw [optionTexts, htext]
    simp only [htexts]

/-- A list of notes is no pair of numbers, not even if it has two of them. -/
theorem pairText?_of_notes {items : List Value} {notes : List (Song.Note Float)}
    (h : List.Forall₂ IsNote items notes) : pairText? items = none := by
  rcases h with _ | ⟨⟨a, b, rfl, -⟩, _ | ⟨-, _ | ⟨-, -⟩⟩⟩ <;> rfl

/-- A list of notes is written as a text that means them. -/
theorem optionText_notes {items : List Value} {notes : List (Song.Note Float)}
    (h : List.Forall₂ IsNote items notes) :
    ∃ text, optionText (.array items) = .ok text ∧ Profile.MeansNotes (Text.trim text) notes := by
  obtain ⟨texts, htexts, hshapes, hall⟩ := optionTexts_notes h
  refine ⟨", ".intercalate texts, ?_, ?_⟩
  · rw [optionText, pairText?_of_notes h, htexts]
    rfl
  · rw [Profile.MeansNotes, ← itemsOf_eq, itemsOf_trim_intercalate hshapes]
    exact hall

/-- Settings that fill a song give it, whatever was read before. -/
theorem readSong_of_filled {s : Settings} {song : SongProfile} (h : Profile.SongFilled s song)
    (done : List Access) : (Profile.readSong.run (s.marks done)).1 = .ok song := by
  have hname : "song" ∈ s.names := by
    by_contra hnot
    obtain ⟨text, htext, -⟩ := h.notes
    rw [text?_of_not_mem hnot] at htext
    exact Option.some_ne_none _ htext.symm
  rw [(Profile.yields_readSong hname song _).mpr ⟨h, rfl⟩]

/-! ## The values of a document -/

/-- The values of a loaded document come back through the texts that they are kept as: an
integer, a finite double and a truth value as they are, a string without the blanks around
it, a list of items as the same list, and a list of pairs of numbers as the notes of a
song, in their order. Where no two names are the same in lower case, this is so for every
member of every table. -/
theorem toml_values_survive {root : Members} {s : Settings} (h : ofToml root = .ok s)
    (name option : String) :
    (∀ table members key v, Distinct root → Distinct members → (table, .table members) ∈ root →
      (key, v) ∈ members → Stands root (Text.lower table) key v) ∧
    (∀ n, Stands root name option (.integer n) → Gets s name option .word n) ∧
    (∀ x, Stands root name option (.float x) → isFinite x = true → Gets s name option .real x) ∧
    (∀ b, Stands root name option (.boolean b) → Gets s name option .truth b) ∧
    (∀ t, Stands root name option (.string t) → Gets s name option .text (Text.trim t)) ∧
    (∀ items : List String, Stands root name option (.array (items.map .string)) →
      (∀ item ∈ items, IsItem item) → Gets s name option (.list ",") items) ∧
    (∀ items notes scale, Stands root "song" "notes" (.array items) →
      List.Forall₂ IsNote items notes →
      Profile.Field (s.text? "song" "scale") Profile.MeansScale 1 scale →
      ∀ done, (Profile.readSong.run (s.marks done)).1 = .ok ⟨scale, notes⟩) := by
  refine ⟨fun table members key v hroot hmembers => stands_of_mem hroot hmembers, fun n hv => ?_,
    fun x hv hx => ?_, fun b hv => ?_, fun t hv => ?_, fun items hv hitems => ?_,
    fun items notes scale hv hnotes hscale done => ?_⟩
  · exact gets_of_stands h hv rfl (read_word n)
  · exact gets_of_stands h hv rfl (read_real hx)
  · exact gets_of_stands h hv rfl (read_truth b)
  · exact gets_of_stands h hv rfl rfl
  · exact gets_of_stands h hv (optionText_strings items) (read_list hitems)
  · obtain ⟨text, htext, hmeans⟩ := optionText_notes hnotes
    have hlower : Text.lower "notes" = "notes" := Profile.lower_documented (by decide)
    have hkept := held_of_stands h hv htext
    rw [hlower] at hkept
    have hfilled : Profile.SongFilled s ⟨scale, notes⟩ :=
      ⟨hscale, Text.trim text, by rw [text?, hkept]; rfl, hmeans⟩
    exact readSong_of_filled hfilled done

/-- A table with a value of every kind, and a song of just two notes; the names are not in
lower case. -/
def mixed : Members :=
  [("Least", .integer Int64.minValue), ("Tenth", .float 0.1), ("Loud", .boolean true),
    ("Title", .string " two words "), ("Parts", .array (["verse one", "coda"].map .string)),
    ("Notes", .array [.array [.integer 440, .float 0.1], .array [.float 0.1, .integer (-3)]])]

/-- All its values come back. -/
theorem mixed_survives : ∃ s, ofToml [("Song", .table mixed)] = .ok s ∧
    Gets s "song" "Least" .word Int64.minValue ∧ Gets s "song" "Tenth" .real 0.1 ∧
    Gets s "song" "Loud" .truth true ∧ Gets s "song" "Title" .text "two words" ∧
    Gets s "song" "Parts" (.list ",") ["verse one", "coda"] ∧
    (Profile.readSong.run s).1 =
      .ok ⟨1, [⟨Float.ofInt 440, 0.1⟩, ⟨0.1, Float.ofInt (-3)⟩]⟩ := by
  obtain ⟨s, hload, hscale⟩ : ∃ s, ofToml [("Song", .table mixed)] = .ok s ∧
      s.text? "song" "scale" = none := by
    refine ⟨_, by rw [ofToml, List.mergeSort_singleton]; rfl, ?_⟩
    decide +kernel
  have hsong : Text.lower "Song" = "song" := by decide +kernel
  have hstands : ∀ {key v}, (key, v) ∈ mixed → Stands [("Song", .table mixed)] "song" key v := by
    intro key v hmem
    exact hsong ▸ (toml_values_survive hload "song" key).1 "Song" mixed key v (by decide +kernel)
      (by decide +kernel) List.mem_cons_self hmem
  have htenth : isFinite 0.1 = true := by decide +kernel
  have hnumber : number? (.float 0.1) = some 0.1 := by rw [number?, if_pos htenth]
  have hitems : ∀ item ∈ ["verse one", "coda"], IsItem item := by
    refine List.forall_mem_cons.mpr ⟨?_, List.forall_mem_singleton.mpr ?_⟩
    · exact ⟨by decide, by decide, by decide⟩
    · exact ⟨by decide, by decide, by decide⟩
  have htrim : Text.trim " two words " = "two words" := by decide
  have hnotes : Stands [("Song", .table mixed)] "song" "notes" (.array
      [.array [.integer 440, .float 0.1], .array [.float 0.1, .integer (-3)]]) := by
    have hlower : Text.lower "notes" = Text.lower "Notes" := by decide +kernel
    rw [Stands, hlower]
    exact hstands (by simp [mixed])
  refine ⟨s, hload, ?_, ?_, ?_, ?_, ?_, ?_⟩
  · exact (toml_values_survive hload _ _).2.1 _ (hstands (by simp [mixed]))
  · exact (toml_values_survive hload _ _).2.2.1 _ (hstands (by simp [mixed])) htenth
  · exact (toml_values_survive hload _ _).2.2.2.1 _ (hstands (by simp [mixed]))
  · exact htrim ▸ (toml_values_survive hload _ _).2.2.2.2.1 _ (hstands (by simp [mixed]))
  · exact (toml_values_survive hload _ _).2.2.2.2.2.1 _ (hstands (by simp [mixed])) hitems
  · refine (toml_values_survive hload "" "").2.2.2.2.2.2 _ _ 1 hnotes ?_ ?_ []
    · exact .cons ⟨_, _, rfl, rfl, hnumber⟩ (.cons ⟨_, _, rfl, hnumber, rfl⟩ .nil)
    · rw [hscale]
      rfl

end StepTone.Settings
