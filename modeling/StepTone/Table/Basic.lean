/-
StepTone.Table.Basic — the delay table.

A table has 256 rows. Row 0 is the lowest frequency and the longest delay, row 255
the highest frequency. Each row holds the sampled frequency, the exact number of
halts for it and the whole number of halts that the register gets.

* `Entry`, `Table` — a row, and 256 of them with what they were made from.
* `Table.values` — what the registers hold, after encoding.
* `Table.actualFrequency` — the frequency that a row really gives.
* `Table.nearestIndex` — the row whose frequency is nearest on a logarithmic scale.
-/
import StepTone.Table.Register
import StepTone.Firmware.Bounds

namespace StepTone

open Firmware (Constants Bounds)
open Arithmetic (ofInt)

namespace Table

/-- The number of rows. -/
abbrev size : Nat := 256

/-- A row of the table. -/
structure Entry (F : Type) where
  /-- The position of the row. -/
  index : Nat
  /-- The sampled frequency in Hz. -/
  frequency : F
  /-- The number of halts for that frequency, neither rounded nor clamped. -/
  exact : F
  /-- The whole number of halts that the register gets. -/
  delay : UInt16
  /-- The rounded number of halts did not fit the register. -/
  clamped : Bool

end Table

/-- A delay table. -/
structure Table (F : Type) where
  constants : Constants
  bounds : Bounds F
  options : Table.Options
  entries : Vector (Table.Entry F) Table.size

namespace Table

variable {F : Type} [Arithmetic F]

/-! ## Rows and columns -/

/-- The row at a position, if the table has one there. -/
def row? (t : Table F) (i : Int) : Option (Entry F) :=
  match i with
  | .ofNat n => t.entries[n]?
  | .negSucc _ => none

/-- The row at a position. -/
def entry (t : Table F) (i : Int64) : Except Fault (Entry F) :=
  match t.row? i.toInt with
  | some e => .ok e
  | none => .error (.outsideTable i)

/-- The delays in the order of the rows. -/
def delays (t : Table F) : List UInt16 :=
  t.entries.toList.map (·.delay)

/-- The sampled frequencies in the order of the rows. -/
def frequencies (t : Table F) : List F :=
  t.entries.toList.map (·.frequency)

/-- The register value for a delay. -/
def encode (t : Table F) (delay : UInt16) : UInt16 :=
  t.options.encoding.encode t.options.width delay

/-- The register values in the order of the rows. -/
def values (t : Table F) : List UInt16 :=
  t.entries.toList.map fun e => t.encode e.delay

/-- The frequency that the firmware gives for a row. -/
def Entry.actualFrequency (c : Constants) (e : Entry F) : F :=
  c.frequencyForDelay (ofInt e.delay.toNat)

/-- The frequency that the firmware gives for the row at a position. -/
def actualFrequency (t : Table F) (i : Int64) : Except Fault F :=
  (t.entry i).map fun e => e.actualFrequency t.constants

/-- The frequency that the firmware gives for a row of the table. -/
def actualAt (t : Table F) (i : Fin size) : F :=
  (t.entries.get i).actualFrequency t.constants

/-! ## Looking up a frequency -/

/-- An integer moved into the positions of the table. -/
def toPosition (n : Int) : Fin size :=
  if n < 0 then ⟨0, by decide⟩
  else if h : n.toNat < size then ⟨n.toNat, h⟩
  else ⟨255, by decide⟩

/-- The row whose sampled frequency is nearest to `freq` on a logarithmic scale;
beyond the bounds the first or the last row. -/
def nearestIndex (scale : LogScale F) (t : Table F) (freq : F) : Fin size :=
  if ¬ t.bounds.fMin < freq then ⟨0, by decide⟩
  else if t.bounds.fMax ≤ freq then ⟨255, by decide⟩
  else
    let part := scale.log (freq / t.bounds.fMin) / scale.log t.bounds.ratio
    toPosition (Arithmetic.round (part * ofInt 255))

end Table

end StepTone
