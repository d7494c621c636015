/-
StepTone.Profile — everything that one run of the generator needs.

A profile is made from settings: what they leave out keeps its usual value, and a
section or option that no part of the profile asks for is a fault. TOML files are read
with a decoder that is given; what it says of a text that is no document is kept as the
cause of the fault.

* `Profile`, `SongProfile` — constants, register, layout, and a song if there is one.
* `Profile.ofSettings` — reads the settings and keeps their traces.
* `Profile.load` — from a file, in the notation that its name ends in.
-/
import StepTone.Listing.Render
import StepTone.Settings.Ini
import StepTone.Settings.OfToml

namespace StepTone

open Firmware (Constants Constant)
open Settings (Reading Kind)

/-- A song as a profile gives it. -/
structure SongProfile where
  scale : Float
  notes : List (Song.Note Float)

/-- What one run needs. -/
structure Profile where
  constants : Constants := {}
  table : Table.Options := {}
  output : Listing.Layout := {}
  /-- The song, if the settings have a section for it. -/
  song : Option SongProfile := none

namespace Profile

/-! ## Notes -/

/-- A frequency and a duration with a colon between them. -/
def note (sectionName item : String) : Except Fault (Song.Note Float) :=
  let mistyped (kind : String) (cause : Option Fault) : Fault :=
    .mistyped sectionName "notes" item kind cause
  let number (chars : List Char) : Except Fault Float :=
    (Kind.real.read (String.ofList (Text.trimChars chars))).mapError
      (mistyped "frequency:duration_ms")
  match Text.cutAt? (· = ':') item.toList with
  | none => .error (mistyped "frequency:duration_ms" none)
  | some (before, after) => do
    let frequency ← number before
    let durationMs ← number after
    if Binary64.isFinite frequency && Binary64.isFinite durationMs then
      return { frequency, durationMs }
    else
      throw (mistyped "finite frequency:duration_ms" none)

/-- A list of notes; the first one that cannot be read is reported. -/
def notes (sectionName : String) (items : List String) : Except Fault (List (Song.Note Float)) :=
  items.mapM (note sectionName)

/-! ## Sections -/

/-- A value that may be a fault, inside a reading. -/
def lift {α : Type} : Except Fault α → Reading α
  | .ok a => return a
  | .error fault => throw fault

/-- The constants; each option has the name of its constant. -/
def readTiming (c : Constants) : Reading Constants :=
  Constant.all.foldlM (fun c k => do
    return c.set k (← Reading.option "timing" .word k.name (some (c.get k)))) c

/-- Width and encoding of the register. -/
def readTable (o : Table.Options) : Reading Table.Options := do
  let bits ← Reading.option "table" .count "register_bits" (some o.width.bits)
  let width ← lift (Table.Width.ofBits bits)
  let encoding ← Reading.option "table" .text "encoding" (some o.encoding.name)
  return { width, encoding := ← lift (Table.Encoding.ofName encoding) }

/-- The fault of a number of values in a row that is not positive. -/
def badPerLine (perLine : Int64) : Fault :=
  .invalid "output" "per_line" ("must be positive, got " ++ toString perLine.toInt)

/-- The layout of the listing. -/
def readOutput (l : Listing.Layout) : Reading Listing.Layout := do
  let formatName ← Reading.option "output" .text "format" (some l.format.name)
  let format ← lift ((Listing.Format.ofName formatName).mapError fun fault =>
    .invalid "output" "format" fault.text)
  let name ← Reading.option "output" .text "name" (some l.name)
  lift (Listing.checkName name)
  let perLine ← Reading.option "output" .count "per_line" (some l.perLine)
  if perLine ≤ 0 then
    throw (badPerLine perLine)
  let summary ← Reading.option "output" .truth "summary" (some l.summary)
  return { format, name, perLine, summary }

/-- The song. -/
def readSong : Reading SongProfile := do
  let scale ← Reading.option "song" .real "scale" (some 1)
  if !Binary64.isFinite scale || scale ≤ 0 then
    throw (.invalid "song" "scale" ("must be a positive number, got " ++ Decimal.general scale))
  let items ← Reading.option "song" (.list ",") "notes" none
  return { scale, notes := ← lift (notes "song" items) }

/-- Reads a section if there is one, and keeps the usual value otherwise. -/
def ifPresent {α : Type} (name : String) (usual : α) (read : Reading α) : Reading α := do
  match ← Reading.fetch? name with
  | some _ => read
  | none => return usual

/-- The profile of settings. -/
def ofSettings : Reading Profile := do
  let usual : Profile := {}
  let constants ← ifPresent "timing" usual.constants (readTiming usual.constants)
  let table ← ifPresent "table" usual.table (readTable usual.table)
  let output ← ifPresent "output" usual.output (readOutput usual.output)
  let song ← ifPresent "song" none (some <$> readSong)
  Reading.check Settings.checkUnusedSections
  Reading.check Settings.checkUnusedOptions
  return { constants, table, output, song }

/-! ## Files -/

/-- The end of a path from the last point of its last part on. -/
def extension (path : String) : String :=
  let file := path.toList.reverse.takeWhile (· ≠ '/')
  if file.contains '.' then String.ofList ('.' :: (file.takeWhile (· ≠ '.')).reverse) else ""

/-- The path names a TOML file, in any case. -/
def isToml (path : String) : Bool :=
  Text.lower (extension path) = ".toml"

/-- The settings of a TOML text, without a word on where it came from. -/
def tomlSettings (decode : Toml.Decoder) (text : String) : Except Fault Settings := do
  Settings.ofToml (← (decode text).mapError .plain)

/-- The settings of a TOML text that stands on its own. -/
def settingsOfTomlText (decode : Toml.Decoder) (text : String) : Except Fault Settings := do
  Settings.ofToml (← (decode text).mapError fun reason =>
    .coding { code := .configFile, message := "invalid TOML" } (.plain reason))

/-- The settings of an INI text. -/
def settingsOfIniText (text : String) : Except Fault Settings :=
  (Settings.ofIni text).mapError (·.toFault)

/-- The settings of a file; `contents` is its text or why it cannot be read. -/
def settingsOfFile (decode : Toml.Decoder) (path : String) (contents : Except Fault String) :
    Except Fault Settings :=
  (contents.bind (if isToml path then tomlSettings decode else settingsOfIniText)).mapError
    fun cause => .unreadable path (some cause)

/-- The profile in a file. -/
def load (decode : Toml.Decoder) (path : String) (contents : Except Fault String) :
    Except Fault Profile := do
  let settings ← settingsOfFile decode path contents
  (ofSettings.run settings).1

end Profile

end StepTone
