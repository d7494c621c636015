/-
StepTone.Chart — two line charts of a table.

The first shows the sampled frequencies and those that the firmware can play, the
second the halts of each row, and what is stored for them when that differs.

* `Series`, `Diagram`, `Page` — lines over the rows of a table.
* `Page.ofTable` — the charts of a table.
* `render` — their text, as whoever draws pages makes it.
-/
import StepTone.Fault
import StepTone.Table.Basic

namespace StepTone.Chart

/-- A named line: a number for each row. -/
structure Series where
  name : String
  points : List Float

/-- Lines over a common axis of rows. -/
structure Diagram where
  title : String
  subtitle : String
  /-- What the rows are called. -/
  xName : String := "index"
  /-- The rows. -/
  rows : List String
  /-- What the numbers count. -/
  yName : String
  series : List Series
  width : String := "960px"
  height : String := "420px"

/-- Charts below each other. -/
structure Page where
  title : String
  charts : List Diagram

/-- The rows of a table. -/
def rowNames : List String :=
  (List.range 256).map toString

/-- A natural number as a point. -/
def point (n : Nat) : Float :=
  Float.ofInt n

/-- The sampled frequencies and those that the stored delays give. -/
def frequencies (t : Table Float) : Diagram where
  title := "Frequency"
  subtitle := Decimal.fixed 2 t.bounds.fMin ++ " Hz .. " ++ Decimal.fixed 2 t.bounds.fMax
    ++ " Hz, logarithmic"
  rows := rowNames
  yName := "Hz"
  series :=
    [{ name := "sampled", points := t.frequencies },
     { name := "firmware", points := t.entries.toList.map (·.actualFrequency t.constants) }]

/-- The halts of every row, and the register values if they are not the halts. -/
def delays (t : Table Float) : Diagram where
  title := "Delay"
  subtitle := toString t.options.width.bits.toInt ++ "-bit register, " ++ t.options.encoding.name
    ++ " encoding"
  rows := rowNames
  yName := "halts"
  series :=
    { name := "delay", points := t.delays.map fun d => point d.toNat }
      :: match t.options.encoding with
        | .direct => []
        | .inverted => [{ name := "stored", points := t.values.map fun v => point v.toNat }]

/-- The charts of a table. -/
def Page.ofTable (t : Table Float) : Page where
  title := "Delay table"
  charts := [frequencies t, delays t]

/-- The text of the charts of a table. Pages are drawn by `draw`, which may fail; its failure
is the cause of the fault. -/
def render {m : Type → Type} [Monad m] (draw : Page → m (Except Fault String))
    (t : Table Float) : m (Except Fault String) := do
  return (← draw (.ofTable t)).mapError fun cause => .unwritten "chart" (some cause)

end StepTone.Chart
