/-
StepTone.Listing.Render — a table, and a song if there is one, in each format.

Every format starts with two summary lines on request. A sixteen-bit register has
literals of four digits, any other one of two; in assembler its low byte is written
first.
-/
import StepTone.JsonValue
import StepTone.Song
import StepTone.Listing.Format
import StepTone.Listing.Rows
import StepTone.Listing.Symbol

namespace StepTone.Listing

open Firmware (Bounds)
open Song (Sequence Step)

/-- How a table is listed. -/
structure Layout where
  format : Format := .bytes
  /-- The name of the array. -/
  name : String := "delay_table"
  /-- Values in a row. -/
  perLine : Int64 := 16
  /-- The bounds are shown first. -/
  summary : Bool := true
deriving DecidableEq, Repr

/-! ## Parts that formats share -/

/-- The bounds in words. -/
def summaryLines (b : Bounds Float) : List String :=
  ["T min: " ++ Decimal.fixed 3 (b.tMin * 1000) ++ " ms, T max: "
      ++ Decimal.fixed 3 (b.tMax * 1000) ++ " ms",
   "F min: " ++ Decimal.fixed 2 b.fMin ++ " Hz, F max: " ++ Decimal.fixed 2 b.fMax ++ " Hz"]

/-- The bounds in words, each line behind a comment sign. -/
def summaryText (l : Layout) (b : Bounds Float) (comment : String) : String :=
  if l.summary then String.join ((summaryLines b).map fun line => comment ++ line ++ "\n") else ""

/-- The register is the wide one. -/
def isWide (t : Table Float) : Bool :=
  t.options.width = .sixteen

/-- The register values as literals. -/
def valueLiterals (t : Table Float) : List String :=
  t.values.map fun v => hexLiteral (if isWide t then 4 else 2) v.toNat

/-- The song block as literals. -/
def songLiterals (s : Sequence Float) : List String :=
  s.bytes.map fun b => hexLiteral 2 b.toNat

/-- Items in the rows of a layout. -/
def layoutRows (l : Layout) (indent : String) (trailing : Bool) (items : List String) : String :=
  rows indent l.perLine.toInt.toNat trailing items

/-- The part of a listing that shows the song, empty without one. -/
def songPart (s : Option (Sequence Float)) (f : Sequence Float → String) : String :=
  match s with
  | some s => f s
  | none => ""

/-- The length of a song block as a number. -/
def songLength (s : Sequence Float) : String :=
  toString s.length.toNat

/-! ## Bytes -/

def renderBytes (l : Layout) (t : Table Float) (s : Option (Sequence Float)) : String :=
  summaryText l t.bounds "" ++ layoutRows l "" false (valueLiterals t)
    ++ songPart s fun s =>
      "\nSong (" ++ songLength s ++ " bytes):\n" ++ layoutRows l "" false (songLiterals s)

/-! ## Assembler -/

/-- A directive that writes one value and moves on. -/
def writeDirective (literal : String) : String :=
  "write " ++ literal ++ " gpram-inc-addr;"

/-- The directives for a register value. -/
def valueDirectives (wide : Bool) (v : UInt16) : List String :=
  if wide then
    [writeDirective (hexLiteral 2 (v.toNat % 256)), writeDirective (hexLiteral 2 (v.toNat / 256))]
  else [writeDirective (hexLiteral 2 v.toNat)]

/-- The directives for a step, with a comment. -/
def stepDirectives (step : Step Float) : String :=
  writeDirective (hexLiteral 2 step.repeats.toNat) ++ writeDirective (hexInteger 2 step.index)
    ++ "# Duration=" ++ Decimal.fixed 4 step.seconds ++ ", Freq=" ++ Decimal.fixed 2 step.scaled

def renderGpram (l : Layout) (t : Table Float) (s : Option (Sequence Float)) : String :=
  summaryText l t.bounds "# "
    ++ String.join ((t.values.flatMap (valueDirectives (isWide t))).map (· ++ "\n"))
    ++ songPart s fun s =>
      "# Song\n" ++ String.join (s.steps.map fun step => stepDirectives step ++ "\n")
        ++ "write " ++ hexLiteral 2 s.length.toNat ++ " stack-push;\n"

/-! ## Arrays -/

def renderC (l : Layout) (t : Table Float) (s : Option (Sequence Float)) : String :=
  let kind := if isWide t then "uint16_t" else "uint8_t"
  summaryText l t.bounds "// "
    ++ "static const " ++ kind ++ " " ++ l.name ++ "[" ++ toString t.entries.size ++ "] = \x7b\n"
    ++ layoutRows l "    " true (valueLiterals t) ++ "\x7d;\n"
    ++ songPart s fun s =>
      "\nstatic const uint8_t " ++ l.name ++ "_song[" ++ songLength s ++ "] = \x7b\n"
        ++ layoutRows l "    " true (songLiterals s) ++ "\x7d;\n"
        ++ "static const uint8_t " ++ l.name ++ "_song_len = " ++ songLength s ++ ";\n"

def renderGo (l : Layout) (t : Table Float) (s : Option (Sequence Float)) : String :=
  let kind := if isWide t then "uint16" else "uint8"
  let name := camelCase l.name
  summaryText l t.bounds "// "
    ++ "var " ++ name ++ " = [" ++ toString t.entries.size ++ "]" ++ kind ++ "\x7b\n"
    ++ layoutRows l "\t" true (valueLiterals t) ++ "\x7d\n"
    ++ songPart s fun s =>
      "\nvar " ++ name ++ "Song = [" ++ songLength s ++ "]uint8\x7b\n"
        ++ layoutRows l "\t" true (songLiterals s) ++ "\x7d\n"

/-! ## Comma-separated values -/

/-- A line of values. None of them holds a comma, a quote or a line end. -/
def csvLine (values : List String) : String :=
  ",".intercalate values ++ "\n"

/-- A truth value as a word. -/
def truth (b : Bool) : String :=
  if b then "true" else "false"

def renderCsv (l : Layout) (t : Table Float) (s : Option (Sequence Float)) : String :=
  summaryText l t.bounds "# "
    ++ csvLine ["index", "frequency_hz", "exact_delay", "delay", "value", "clamped"]
    ++ String.join (t.entries.toList.map fun e =>
      csvLine [toString e.index, Decimal.fixed 4 e.frequency, Decimal.fixed 4 e.exact,
        toString e.delay.toNat, toString (t.encode e.delay).toNat, truth e.clamped])
    ++ songPart s fun s =>
      "\n" ++ csvLine ["note", "frequency_hz", "duration_ms", "index", "repeats"]
        ++ String.join (s.steps.zipIdx.map fun (step, i) =>
          csvLine [toString i, Decimal.plain step.scaled, Decimal.plain step.note.durationMs,
            toString step.index, toString step.repeats.toNat])

/-! ## JSON -/

/-- A row of the table as an object; the mark of a clamped row is left out
elsewhere. -/
def entryJson (t : Table Float) (e : Table.Entry Float) : JsonValue :=
  .obj ([("index", .int e.index), ("frequency_hz", .real e.frequency),
      ("delay", .int e.delay.toNat), ("value", .int (t.encode e.delay).toNat)]
    ++ if e.clamped then [("clamped", .bool true)] else [])

/-- A step of the song as an object. -/
def stepJson (step : Step Float) : JsonValue :=
  .obj [("frequency_hz", .real step.scaled), ("duration_ms", .real step.note.durationMs),
    ("index", .int step.index), ("repeats", .int step.repeats.toNat)]

/-- The listing as a document. Summary and song are left out when there is
nothing to show. -/
def documentJson (l : Layout) (t : Table Float) (s : Option (Sequence Float)) : JsonValue :=
  let b := t.bounds
  let summary := if l.summary then [("summary", .arr ((summaryLines b).map .str))] else []
  let steps := match s with
    | some s => s.steps
    | none => []
  let song := if steps.isEmpty then [] else [("song", .arr (steps.map stepJson))]
  .obj (summary
    ++ [("bounds", .obj [("t_min_ms", .real (b.tMin * 1000)), ("t_max_ms", .real (b.tMax * 1000)),
          ("f_min_hz", .real b.fMin), ("f_max_hz", .real b.fMax)]),
        ("register_bits", .int t.options.width.bits.toInt),
        ("encoding", .str t.options.encoding.name),
        ("entries", .arr (t.entries.toList.map (entryJson t)))]
    ++ song)

/-- Only this format can fail: JSON has no infinite and no undefined number. -/
def renderJson (l : Layout) (t : Table Float) (s : Option (Sequence Float)) :
    Except Fault String :=
  let document := documentJson l t s
  match document.firstUndefined? with
  | some x => .error (.unwritten "json" (some (.plain (JsonValue.undefinedText x))))
  | none => .ok (document.indented 0 ++ "\n")

/-! ## All formats -/

/-- The listing in the format of the layout. -/
def render (l : Layout) (t : Table Float) (s : Option (Sequence Float)) : Except Fault String :=
  match l.format with
  | .bytes => .ok (renderBytes l t s)
  | .gpram => .ok (renderGpram l t s)
  | .c => .ok (renderC l t s)
  | .go => .ok (renderGo l t s)
  | .csv => .ok (renderCsv l t s)
  | .json => renderJson l t s

end StepTone.Listing
