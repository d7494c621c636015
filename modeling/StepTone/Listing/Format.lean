/-
StepTone.Listing.Format — the six notations of a listing.
-/
import StepTone.Fault
import StepTone.Text.Blank
import StepTone.Text.Letter

namespace StepTone.Listing

/-- The notation that a table is listed in. -/
inductive Format where
  /-- Hexadecimal bytes, separated by commas. -/
  | bytes
  /-- Assembler directives that write to the firmware's memory. -/
  | gpram
  /-- A C array. -/
  | c
  /-- A Go array. -/
  | go
  /-- Comma-separated values with a header line. -/
  | csv
  /-- A JSON document. -/
  | json
deriving DecidableEq, Repr

namespace Format

/-- The name of a format. -/
def name : Format → String
  | .bytes => "bytes"
  | .gpram => "gpram"
  | .c => "c"
  | .go => "go"
  | .csv => "csv"
  | .json => "json"

/-- All formats, in the order they are listed to the user. -/
def all : List Format :=
  [.bytes, .gpram, .c, .go, .csv, .json]

/-- The names of all formats. -/
def names : List String :=
  all.map name

/-- The format with exactly the given name. -/
def ofExactName? (name : String) : Option Format :=
  all.find? (·.name = name)

/-- The format with the given name, whatever its case and the blanks around it. -/
def ofName (name : String) : Except Fault Format :=
  match ofExactName? (Text.lower (Text.trim name)) with
  | some f => .ok f
  | none => .error (.unknownFormat name names)

end Format

end StepTone.Listing
