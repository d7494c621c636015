/-
StepTone.Proofs.ProfileMeaning — what a profile says, from the texts of its options.

Each field of a profile is told by the text of one option, on its own and without a word
on how options are read; the functions that read and check such a text are then shown to
agree with that.

* `documented` — the sections of a profile and their options.
* `Field`, `MeansWord`, `MeansWidth` … — the value that the text of an option stands for.
* `Acceptable`, `Filled` — settings that make a profile, and the profile that they make.
* `field_width`, `field_format` … — a field as it is read and checked.
-/
import Mathlib
import StepTone.Profile
import StepTone.Proofs.DoubleArithmetic
import StepTone.Proofs.SettingsStore
import StepTone.Proofs.TextShape

namespace StepTone

namespace Settings

/-- The text of an option of a section, without blanks around it. -/
def text? (s : Settings) (name key : String) : Option String :=
  (s.held? name key).map Text.trim

/-- A section that is not there has no texts. -/
theorem text?_of_not_mem {s : Settings} {name : String} (h : name ∉ s.names) (key : String) :
    s.text? name key = none := by
  rw [text?, held?, section?_eq_none_iff.mpr h]
  rfl

end Settings

namespace Profile

open Firmware (Constants Constant)
open Settings

/-! ## What a profile is made from -/

/-- The sections of a profile and their options. -/
def documented : List (String × List String) :=
  [("timing", ["clock_hz", "move_cycles", "halt_cycles", "freq_loop_moves", "outer_loop_moves"]),
   ("table", ["register_bits", "encoding"]),
   ("output", ["format", "name", "per_line", "summary"]),
   ("song", ["scale", "notes"])]

/-- The documented options are spelled the way they are looked up. -/
theorem lower_documented {key : String} (h : key ∈ documented.flatMap (·.2)) :
    Text.lower key = key := by
  have hall : (documented.flatMap (·.2)).all (fun key => key.toList.all fun c =>
      c.toNat < 0x41 || 0x5a < c.toNat && c.toNat < 0xc0) = true := by
    decide
  refine Text.lower_eq_self fun c hc => ?_
  simpa using List.all_eq_true.mp (List.all_eq_true.mp hall key h) c hc

section

variable {α : Type}

/-- A field has the value that the text of its option stands for, and its usual value if
there is no such option. -/
def Field (text : Option String) (Means : String → α → Prop) (usual a : α) : Prop :=
  match text with
  | some t => Means t a
  | none => a = usual

/-- The text of the option stands for a value, if there is such an option. -/
def Parses (text : Option String) (Means : String → α → Prop) : Prop :=
  ∀ t, text = some t → ∃ a, Means t a

end

def MeansWord (text : String) (n : Int64) : Prop :=
  Numeral.decimal text = .ok n

def MeansWidth (text : String) (w : Table.Width) : Prop :=
  MeansWord text w.bits ∧ (w.bits = 8 ∨ w.bits = 16)

/-- No text at all stands for the direct encoding. -/
def MeansEncoding (text : String) : Table.Encoding → Prop
  | .direct => Text.lower (Text.trim text) = "direct" ∨ Text.lower (Text.trim text) = ""
  | .inverted => Text.lower (Text.trim text) = "inverted"

def MeansFormat (text : String) (f : Listing.Format) : Prop :=
  f.name = Text.lower (Text.trim text)

def MeansName (text name : String) : Prop :=
  name = text ∧ Listing.checkName text = .ok ()

def MeansPerLine (text : String) (n : Int64) : Prop :=
  MeansWord text n ∧ 0 < n

def MeansTruth (text : String) : Bool → Prop
  | true => Text.lower text ∈ ["1", "true", "yes", "on"]
  | false => Text.lower text ∈ ["0", "false", "no", "off"]

def MeansScale (text : String) (x : Float) : Prop :=
  Numeral.real text = .ok x ∧ Binary64.isFinite x = true ∧ 0 < x

/-- A note is a frequency and a duration, both finite, on the two sides of the first
colon. -/
def MeansNote (item : String) (n : Song.Note Float) : Prop :=
  ∃ before after, item.toList = before ++ ':' :: after ∧ ':' ∉ before ∧
    Numeral.real (Text.trim (String.ofList before)) = .ok n.frequency ∧
    Numeral.real (Text.trim (String.ofList after)) = .ok n.durationMs ∧
    Binary64.isFinite n.frequency = true ∧ Binary64.isFinite n.durationMs = true

/-- Notes stand between commas; what is empty there is no note. -/
def MeansNotes (text : String) (notes : List (Song.Note Float)) : Prop :=
  List.Forall₂ MeansNote (((Text.split "," text).map Text.trim).filter (· ≠ "")) notes

/-- Every section and every option of the settings is one of a profile. -/
def Known (s : Settings) : Prop :=
  ∀ sec ∈ s.sections, ∃ options, (sec.name, options) ∈ documented ∧
    ∀ key ∈ sec.options.keys, key ∈ options

/-- Settings that make a profile: their names are known, all their texts can be read, and
a song has notes. -/
structure Acceptable (s : Settings) : Prop where
  known : Known s
  constants : ∀ k : Constant, Parses (s.text? "timing" k.name) MeansWord
  width : Parses (s.text? "table" "register_bits") MeansWidth
  encoding : Parses (s.text? "table" "encoding") MeansEncoding
  format : Parses (s.text? "output" "format") MeansFormat
  name : Parses (s.text? "output" "name") MeansName
  perLine : Parses (s.text? "output" "per_line") MeansPerLine
  summary : Parses (s.text? "output" "summary") MeansTruth
  scale : Parses (s.text? "song" "scale") MeansScale
  notes : Parses (s.text? "song" "notes") MeansNotes
  song_notes : "song" ∈ s.names → ∃ text, s.text? "song" "notes" = some text

/-- The constants that settings make. -/
def TimingFilled (s : Settings) (c : Constants) : Prop :=
  ∀ k : Constant, Field (s.text? "timing" k.name) MeansWord (({} : Profile).constants.get k)
    (c.get k)

/-- The register that settings make. -/
structure TableFilled (s : Settings) (o : Table.Options) : Prop where
  width : Field (s.text? "table" "register_bits") MeansWidth ({} : Profile).table.width o.width
  encoding : Field (s.text? "table" "encoding") MeansEncoding ({} : Profile).table.encoding
    o.encoding

/-- The layout that settings make. -/
structure OutputFilled (s : Settings) (l : Listing.Layout) : Prop where
  format : Field (s.text? "output" "format") MeansFormat ({} : Profile).output.format l.format
  name : Field (s.text? "output" "name") MeansName ({} : Profile).output.name l.name
  perLine : Field (s.text? "output" "per_line") MeansPerLine ({} : Profile).output.perLine
    l.perLine
  summary : Field (s.text? "output" "summary") MeansTruth ({} : Profile).output.summary l.summary

/-- The song that settings with a section for it make. -/
structure SongFilled (s : Settings) (song : SongProfile) : Prop where
  scale : Field (s.text? "song" "scale") MeansScale 1 song.scale
  notes : ∃ text, s.text? "song" "notes" = some text ∧ MeansNotes text song.notes

/-- The profile that settings make: each field is what its option says, or the usual one
without that option, and there is a song where there is a section for it. -/
structure Filled (s : Settings) (p : Profile) : Prop where
  timing : TimingFilled s p.constants
  table : TableFilled s p.table
  output : OutputFilled s p.output
  song : if "song" ∈ s.names then ∃ song, SongFilled s song ∧ p.song = some song
    else p.song = none

/-! ## Texts and the values they stand for -/

theorem mapError_eq_ok_iff {ε ε' α : Type} {e : Except ε α} {f : ε → ε'} {a : α} :
    e.mapError f = .ok a ↔ e = .ok a := by
  cases e with
  | ok b => simp [Except.mapError]
  | error err => simp [Except.mapError]

theorem bind_eq_ok_iff {ε α β : Type} {e : Except ε α} {f : α → Except ε β} {b : β} :
    (e >>= f) = .ok b ↔ ∃ a, e = .ok a ∧ f a = .ok b := by
  cases e with
  | ok a => simp [bind, Except.bind]
  | error err => simp [bind, Except.bind]

theorem mapM_eq_ok_iff {ε α β : Type} {f : α → Except ε β} {l : List α} {bs : List β} :
    l.mapM f = .ok bs ↔ List.Forall₂ (fun a b => f a = .ok b) l bs := by
  induction l generalizing bs with
  | nil => simp [pure, Except.pure, eq_comm]
  | cons a rest ih =>
    simp only [List.mapM_cons, bind_eq_ok_iff, ih, List.forall₂_cons_left_iff, pure, Except.pure,
      Except.ok.injEq]
    constructor
    · rintro ⟨b, hb, more, hmore, rfl⟩
      exact ⟨b, more, hb, hmore, rfl⟩
    · rintro ⟨b, more, hb, hmore, rfl⟩
      exact ⟨b, hb, more, hmore, rfl⟩

/-- A field that is made from a value which its option may give. -/
theorem exists_field {α β : Type} {text : Option String} {Means : String → α → Prop}
    {Means' : String → β → Prop} {usual : α} {usual' b : β} {Q : α → Prop}
    (hsome : ∀ t, (∃ a, Means t a ∧ Q a) ↔ Means' t b) (hnone : Q usual ↔ b = usual') :
    (∃ a, Field text Means usual a ∧ Q a) ↔ Field text Means' usual' b := by
  cases text with
  | none => simpa [Field] using hnone
  | some t => exact hsome t

/-- A field has a value exactly if its text, should there be one, stands for something. -/
theorem exists_field_iff {α : Type} {text : Option String} {Means : String → α → Prop}
    (usual : α) : (∃ a, Field text Means usual a) ↔ Parses text Means := by
  cases text with
  | none => simp [Field, Parses]
  | some t => simp [Field, Parses]

theorem read_count_iff {text : String} {n : Int64} :
    Kind.count.read text = .ok n ↔ MeansWord text n :=
  mapError_eq_ok_iff

theorem read_word_iff {text : String} {n : Int64} :
    Kind.word.read text = .ok n ↔ MeansWord text n :=
  mapError_eq_ok_iff

theorem read_text_iff {text t : String} : Kind.text.read text = .ok t ↔ text = t := by
  simp [Kind.text]

/-- A truth value is spelled in one of a few ways, in any case. -/
theorem read_truth_iff {text : String} {b : Bool} :
    Kind.truth.read text = .ok b ↔ MeansTruth text b := by
  simp only [Kind.truth, List.contains_iff_mem]
  by_cases htrue : Text.lower text ∈ ["1", "true", "yes", "on"]
  · -- no word stands for both
    have hfalse : Text.lower text ∉ ["0", "false", "no", "off"] := by
      simp only [List.mem_cons, List.not_mem_nil, or_false] at htrue
      rcases htrue with h | h | h | h
      · rw [h]; decide
      · rw [h]; decide
      · rw [h]; decide
      · rw [h]; decide
    rw [if_pos htrue]
    cases b with
    | true => simpa [MeansTruth] using htrue
    | false => simpa [MeansTruth] using hfalse
  · rw [if_neg htrue]
    by_cases hfalse : Text.lower text ∈ ["0", "false", "no", "off"]
    · rw [if_pos hfalse]
      cases b with
      | true => simpa [MeansTruth] using htrue
      | false => simpa [MeansTruth] using hfalse
    · rw [if_neg hfalse]
      cases b with
      | true => simpa [MeansTruth] using htrue
      | false => simpa [MeansTruth] using hfalse

theorem ofBits_eq_ok_iff {n : Int64} {w : Table.Width} :
    Table.Width.ofBits n = .ok w ↔ w.bits = n ∧ (w.bits = 8 ∨ w.bits = 16) := by
  rw [Table.Width.ofBits]
  have hbuilt : (Table.Width.mk n).isBuilt = true ↔ n = 8 ∨ n = 16 := by
    simp [Table.Width.isBuilt, Table.Width.eight, Table.Width.sixteen]
  obtain ⟨bits⟩ := w
  by_cases h : n = 8 ∨ n = 16
  · rw [if_pos (hbuilt.mpr h)]
    simp only [Except.ok.injEq, Table.Width.mk.injEq]
    exact ⟨fun he => ⟨he.symm, he ▸ h⟩, fun he => he.1.symm⟩
  · rw [if_neg (mt hbuilt.mp h)]
    simp only [reduceCtorEq, false_iff]
    rintro ⟨rfl, hbits⟩
    exact h hbits

theorem ofName_encoding_iff {text : String} {e : Table.Encoding} :
    Table.Encoding.ofName text = .ok e ↔ MeansEncoding text e := by
  simp only [Table.Encoding.ofName]
  by_cases hdirect : Text.lower (Text.trim text) = "direct" ∨ Text.lower (Text.trim text) = ""
  · have hinverted : Text.lower (Text.trim text) ≠ "inverted" := by
      rcases hdirect with h | h
      · rw [h]; decide
      · rw [h]; decide
    rw [if_pos hdirect]
    cases e with
    | direct => simpa [MeansEncoding] using hdirect
    | inverted => simpa [MeansEncoding] using hinverted
  · rw [if_neg hdirect]
    by_cases hinverted : Text.lower (Text.trim text) = "inverted"
    · rw [if_pos hinverted]
      cases e with
      | direct => simpa [MeansEncoding] using hdirect
      | inverted => simpa [MeansEncoding] using hinverted
    · rw [if_neg hinverted]
      cases e with
      | direct => simpa [MeansEncoding] using hdirect
      | inverted => simpa [MeansEncoding] using hinverted

theorem mem_formats (f : Listing.Format) : f ∈ Listing.Format.all := by
  cases f <;> decide

/-- A format goes by its name in any case and with blanks around it. -/
theorem ofName_format_iff {text : String} {f : Listing.Format} :
    Listing.Format.ofName text = .ok f ↔ MeansFormat text f := by
  rw [Listing.Format.ofName, MeansFormat, Listing.Format.ofExactName?]
  have hinj : ∀ f ∈ Listing.Format.all, ∀ g ∈ Listing.Format.all, f.name = g.name → f = g := by
    decide
  cases hfind : Listing.Format.all.find? (·.name = Text.lower (Text.trim text)) with
  | none =>
    have hne := List.find?_eq_none.mp hfind f (mem_formats f)
    simpa using hne
  | some g =>
    have hname : g.name = Text.lower (Text.trim text) := by simpa using List.find?_some hfind
    simp only [Except.ok.injEq]
    exact ⟨fun h => h ▸ hname,
      fun h => hinj g (mem_formats g) f (mem_formats f) (hname.trans h.symm)⟩

theorem denotes_zero : Binary64.Denotes (0 : Float) 0 := by
  have h := Binary64.denotes_ofNat 0
  rwa [Nat.cast_zero, Binary64.rounded_zero] at h

theorem denotes_unit : Binary64.Denotes (1 : Float) 1 := by
  have h := Binary64.denotes_ofNat 1
  rwa [Binary64.rounded_natCast (by norm_num), Nat.cast_one] at h

/-- For a finite number it is the same to be above zero and not to be at most zero. -/
theorem pos_iff_not_le {x : Float} (h : Binary64.isFinite x = true) : ¬ x ≤ 0 ↔ 0 < x := by
  have hx := (Binary64.isFinite_iff.mp h).1
  rw [Binary64.le_iff, Binary64.lt_iff, denotes_zero.toRat_eq]
  simp [hx, denotes_zero.isNumber]

/-- A note is accepted exactly if its text stands for one. -/
theorem note_eq_ok_iff {sectionName item : String} {n : Song.Note Float} :
    note sectionName item = .ok n ↔ MeansNote item n := by
  -- a cut at the first colon is one of the shape that a note is told by
  have hcut : ∀ before after, Text.cutAt? (fun c => decide (c = ':')) item.toList =
      some (before, after) ↔ item.toList = before ++ ':' :: after ∧ ':' ∉ before := by
    intro before after
    rw [Text.cutAt?_eq_some_iff]
    constructor
    · rintro ⟨c, hc, hitem, hbefore⟩
      obtain rfl : c = ':' := by simpa using hc
      exact ⟨hitem, fun hmem => by simpa using hbefore _ hmem⟩
    · rintro ⟨hitem, hcolon⟩
      exact ⟨':', by simp, hitem, fun d hd => by simpa using ne_of_mem_of_not_mem hd hcolon⟩
  have hmeans : MeansNote item n ↔ ∃ before after,
      Text.cutAt? (fun c => decide (c = ':')) item.toList = some (before, after) ∧
      Numeral.real (String.ofList (Text.trimChars before)) = .ok n.frequency ∧
      Numeral.real (String.ofList (Text.trimChars after)) = .ok n.durationMs ∧
      Binary64.isFinite n.frequency = true ∧ Binary64.isFinite n.durationMs = true := by
    simp only [MeansNote, hcut, and_assoc, Text.trim_ofList]
  rw [hmeans]
  cases h : Text.cutAt? (fun c => decide (c = ':')) item.toList with
  | none => simp [note, h]
  | some cut =>
    obtain ⟨before, after⟩ := cut
    simp only [note, h, Kind.real, bind_eq_ok_iff, mapError_eq_ok_iff, Option.some.injEq,
      Prod.mk.injEq]
    constructor
    · rintro ⟨f, hf, d, hd, hnote⟩
      split at hnote
      case isTrue hfinite =>
        obtain rfl := Except.ok.inj hnote
        exact ⟨before, after, ⟨rfl, rfl⟩, hf, hd, by simpa using hfinite⟩
      case isFalse hfinite => cases hnote
    · rintro ⟨_, _, ⟨rfl, rfl⟩, hf, hd, hfinite⟩
      refine ⟨n.frequency, hf, n.durationMs, hd, ?_⟩
      rw [if_pos (by simpa using hfinite)]
      rfl

/-- A melody is a list of notes, each of which has to be accepted. -/
theorem notes_eq_ok_iff (sectionName : String) {text : String} {ns : List (Song.Note Float)} :
    (∃ items, (Kind.list ",").read text = .ok items ∧ notes sectionName items = .ok ns) ↔
      MeansNotes text ns := by
  simp [Kind.list, notes, mapM_eq_ok_iff, note_eq_ok_iff, MeansNotes]

/-! ## Fields of a profile -/

section

variable {text : Option String}

/-- Every encoding is read back from its name. -/
theorem ofName_encoding_name (e : Table.Encoding) : Table.Encoding.ofName e.name = .ok e := by
  cases e with
  | direct => rfl
  | inverted => rfl

/-- Every format is read back from its name. -/
theorem ofName_format_name (f : Listing.Format) : Listing.Format.ofName f.name = .ok f := by
  have hlower : ∀ f ∈ Listing.Format.all, f.name = Text.lower (Text.trim f.name) := by decide
  exact ofName_format_iff.mpr (hlower f (mem_formats f))

/-- The usual number of bits passes the check that a given one has to pass. -/
theorem field_width {w : Table.Width} :
    (∃ bits, Field text (fun t n => Kind.count.read t = .ok n)
      ({} : Table.Options).width.bits bits ∧ Table.Width.ofBits bits = .ok w) ↔
    Field text MeansWidth ({} : Table.Options).width w := by
  refine exists_field (fun t => ?_) ?_
  · simp only [read_count_iff, ofBits_eq_ok_iff, MeansWidth]
    constructor
    · rintro ⟨_, hword, rfl, hbits⟩
      exact ⟨hword, hbits⟩
    · rintro ⟨hword, hbits⟩
      exact ⟨_, hword, rfl, hbits⟩
  · have husual : Table.Width.ofBits ({} : Table.Options).width.bits =
        .ok ({} : Table.Options).width := rfl
    rw [husual, Except.ok.injEq, eq_comm]

theorem field_encoding {e : Table.Encoding} :
    (∃ name, Field text (fun t n => Kind.text.read t = .ok n)
      ({} : Table.Options).encoding.name name ∧ Table.Encoding.ofName name = .ok e) ↔
    Field text MeansEncoding ({} : Table.Options).encoding e := by
  refine exists_field (fun t => ?_) ?_
  · simp [read_text_iff, ofName_encoding_iff]
  · rw [ofName_encoding_name, Except.ok.injEq, eq_comm]

/-- Whatever the fault of an unknown name is turned into, the format is the same. -/
theorem field_format {f : Listing.Format} {flaw : Fault → Fault} :
    (∃ name, Field text (fun t n => Kind.text.read t = .ok n)
      ({} : Listing.Layout).format.name name ∧
      (Listing.Format.ofName name).mapError flaw = .ok f) ↔
    Field text MeansFormat ({} : Listing.Layout).format f := by
  refine exists_field (fun t => ?_) ?_
  · simp [read_text_iff, mapError_eq_ok_iff, ofName_format_iff]
  · rw [mapError_eq_ok_iff, ofName_format_name, Except.ok.injEq, eq_comm]

theorem field_name {name : String} :
    Field text (fun t n => Kind.text.read t = .ok n) ({} : Listing.Layout).name name ∧
      Listing.checkName name = .ok () ↔
    Field text MeansName ({} : Listing.Layout).name name := by
  cases text with
  | none =>
    simp only [Field, and_iff_left_iff_imp]
    rintro rfl
    rfl
  | some t =>
    simp only [Field, read_text_iff, MeansName]
    constructor
    · rintro ⟨rfl, hname⟩
      exact ⟨rfl, hname⟩
    · rintro ⟨rfl, hname⟩
      exact ⟨rfl, hname⟩

theorem field_perLine {n : Int64} :
    Field text (fun t n => Kind.count.read t = .ok n) ({} : Listing.Layout).perLine n ∧ ¬ n ≤ 0 ↔
    Field text MeansPerLine ({} : Listing.Layout).perLine n := by
  rw [Int64.not_le]
  cases text with
  | none =>
    simp only [Field, and_iff_left_iff_imp]
    rintro rfl
    decide
  | some t => simp only [Field, read_count_iff, MeansPerLine]

theorem field_summary {b : Bool} :
    Field text (fun t b => Kind.truth.read t = .ok b) ({} : Listing.Layout).summary b ↔
    Field text MeansTruth ({} : Listing.Layout).summary b := by
  simp only [read_truth_iff]

/-- The check of the scale leaves the positive finite numbers. -/
theorem field_scale {x : Float} :
    Field text (fun t x => Kind.real.read t = .ok x) 1 x ∧
      ¬ (!Binary64.isFinite x || decide (x ≤ 0)) = true ↔
    Field text MeansScale 1 x := by
  have hcheck : ¬ (!Binary64.isFinite x || decide (x ≤ 0)) = true ↔
      Binary64.isFinite x = true ∧ 0 < x := by
    by_cases hfinite : Binary64.isFinite x = true
    · simp [hfinite, pos_iff_not_le hfinite]
    · simp [hfinite]
  rw [hcheck]
  cases text with
  | none =>
    simp only [Field, and_iff_left_iff_imp]
    rintro rfl
    exact ⟨by decide, denotes_zero.lt denotes_unit one_pos⟩
  | some t => simp only [Field, Kind.real, mapError_eq_ok_iff, MeansScale]

end

end Profile

end StepTone
