/-
StepTone.Firmware.Bounds — the range of periods and frequencies.

The shortest period is the bare frequency loop, the longest one adds 256 halts;
their inverses are the highest and the lowest frequency. `Constants.bounds`
refuses constants that are not positive, cycle counts that do not fit a word, and
ranges whose frequencies do not spread.
-/
import StepTone.Fault
import StepTone.Firmware.Constants

namespace StepTone.Firmware

/-- Limits of period and frequency. -/
structure Bounds (F : Type) where
  /-- Seconds of the bare loop. -/
  tMin : F
  /-- Seconds of the loop with all halts. -/
  tMax : F
  /-- The lowest frequency in Hz. -/
  fMin : F
  /-- The highest frequency in Hz. -/
  fMax : F

/-- Why constants have no bounds. -/
inductive BoundsFault (F : Type) where
  | nonPositive (constant : Constant) (value : Int64)
  | cycleOverflow (c : Constants)
  | degenerate (fMin fMax : F)

/-- The fault as it is reported. -/
def BoundsFault.toFault : BoundsFault Float → Fault
  | .nonPositive k value => .nonPositive k.name value
  | .cycleOverflow c => .cycleOverflow c.freqLoopMoves c.moveCycles c.haltCycles
  | .degenerate fMin fMax => .degenerate fMin fMax

variable {F : Type} [Arithmetic F]

open Arithmetic (ofInt)

/-- The highest frequency as a multiple of the lowest. -/
def Bounds.ratio (b : Bounds F) : F :=
  b.fMax / b.fMin

namespace Constants

/-- The constants that a table depends on are positive. -/
def validate (c : Constants) : Except (BoundsFault F) Unit :=
  match c.firstNonPositive with
  | some k => .error (.nonPositive k (c.get k))
  | none => .ok ()

/-- The cycles of the longest period do not fit a word. The two quotients test
this without computing it. -/
def overflows (c : Constants) : Bool :=
  Int64.maxValue / c.moveCycles < c.freqLoopMoves
    || (Int64.maxValue - c.loopCycles) / 256 < c.haltCycles

/-- Limits of period and frequency, before they are looked at. -/
def limits (c : Constants) : Bounds F :=
  let tMin : F := c.cyclesToSeconds (c.periodCycles (ofInt 0))
  let tMax : F := c.cyclesToSeconds (c.periodCycles (ofInt haltSteps))
  { tMin, tMax, fMin := ofInt 1 / tMax, fMax := ofInt 1 / tMin }

/-- Limits of period and frequency of constants that have a range. -/
def bounds (c : Constants) : Except (BoundsFault F) (Bounds F) := do
  c.validate
  if c.overflows then
    throw (.cycleOverflow c)
  let b : Bounds F := c.limits
  if ofInt 1 < b.ratio then
    return b
  else
    throw (.degenerate b.fMin b.fMax)

end Constants

end StepTone.Firmware
