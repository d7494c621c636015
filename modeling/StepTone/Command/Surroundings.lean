/-
StepTone.Command.Surroundings — what the command finds around it.

The command reads and writes files, prints, reports, and has pages drawn and documents read,
all through operations that it is given. The same command so runs in the operating system
and on a `World`, which is a value.

* `Surroundings` — the operations.
* `World`, `World.surroundings` — files, output and reports as a value.
-/
import StepTone.Arithmetic
import StepTone.Chart
import StepTone.FileTree
import StepTone.Journal.Logger
import StepTone.Toml.Value

namespace StepTone.Command

open Journal (Stamp)

/-- What the command finds around it. -/
structure Surroundings (m : Type → Type) where
  /-- The contents of a file. -/
  read : String → m (Except Fault String)
  /-- Writes a file, and says what went wrong if anything did. -/
  save : String → String → m (Option Fault)
  /-- Writes to the standard output, and says what went wrong if anything did; a part of
  the text may have been written then. -/
  print : String → m (Option Fault)
  /-- Writes to the standard error output. -/
  report : String → m Unit
  /-- When and where it is asked. -/
  stamp : m Stamp
  /-- The text of a page of charts, or what went wrong. -/
  draw : Chart.Page → m (Except Fault String)
  /-- Reads TOML documents. -/
  decode : Toml.Decoder
  /-- The value of a variable of the environment, empty if it is not set. -/
  lookup : String → String
  /-- The standard error output is a terminal. -/
  terminal : Bool := false
  /-- The exponential and the logarithm. -/
  scale : LogScale Float

/-- Files and outputs as a value. -/
structure World where
  tree : FileTree String := {}
  output : String := ""
  reports : String := ""

namespace World

/-- An output that is jammed: how many characters of a text it still takes, and what it then
fails with. -/
structure Jam where
  room : Nat := 0
  reason : String

/-- What a world leaves open. -/
structure Setting where
  lookup : String → String := fun _ => ""
  /-- What is wrong with the standard output, if anything is. -/
  jam : Option Jam := none
  stamp : Stamp := ⟨"", "", ""⟩
  terminal : Bool := false
  draw : Chart.Page → Except Fault String
  decode : Toml.Decoder
  scale : LogScale Float

/-- The surroundings that a world makes. -/
def surroundings (c : Setting) : Surroundings (StateM World) where
  read path := fun w => (w.tree.read path, w)
  save path text := fun w =>
    match w.tree.write path text with
    | .ok tree => (none, { w with tree })
    | .error fault => (some fault, w)
  print text := fun w =>
    match c.jam with
    | none => (none, { w with output := w.output ++ text })
    | some jam =>
      let taken := String.ofList (text.toList.take jam.room)
      (some (.plain jam.reason), { w with output := w.output ++ taken })
  report text := fun w => ((), { w with reports := w.reports ++ text })
  stamp := pure c.stamp
  draw page := pure (c.draw page)
  decode := c.decode
  lookup := c.lookup
  terminal := c.terminal
  scale := c.scale

end World

end StepTone.Command
