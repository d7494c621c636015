/-
StepTone.Firmware.Constants — the clock and the cycle costs of the firmware.

One pass of the frequency loop is a number of moves; after it the firmware halts
a number of times. With the costs of a move and of a halt this gives the period of
the tone:

  period in cycles = moves of the loop · cycles per move + halts · cycles per halt

The constants are words of sixty-four bits and their products wrap. The formulas
with a fractional number of halts are read over any `Arithmetic`.
-/
import StepTone.Arithmetic

namespace StepTone.Firmware

/-- The number of halts that spans the delay range, and the number of rows of a
table. -/
def haltSteps : Nat := 256

/-- The constants of the firmware. -/
structure Constants where
  /-- Clock cycles in a second. -/
  clockHz : Int64 := 125000
  /-- Cycles of a move. -/
  moveCycles : Int64 := 24
  /-- Cycles of a halt. -/
  haltCycles : Int64 := 8
  /-- Moves in one pass of the frequency loop. -/
  freqLoopMoves : Int64 := 22
  /-- Moves in the bookkeeping between two notes. -/
  outerLoopMoves : Int64 := 27
deriving DecidableEq, Repr

/-- The constants by name. -/
inductive Constant where
  | clockHz
  | moveCycles
  | haltCycles
  | freqLoopMoves
  | outerLoopMoves
deriving DecidableEq, Repr

namespace Constant

/-- The name of the option that sets the constant. -/
def name : Constant → String
  | .clockHz => "clock_hz"
  | .moveCycles => "move_cycles"
  | .haltCycles => "halt_cycles"
  | .freqLoopMoves => "freq_loop_moves"
  | .outerLoopMoves => "outer_loop_moves"

/-- The constants that a table depends on, in the order they are checked. -/
def ofTable : List Constant :=
  [.clockHz, .moveCycles, .haltCycles, .freqLoopMoves]

/-- All constants. -/
def all : List Constant :=
  ofTable ++ [.outerLoopMoves]

end Constant

namespace Constants

/-- The value of a constant. -/
def get (c : Constants) : Constant → Int64
  | .clockHz => c.clockHz
  | .moveCycles => c.moveCycles
  | .haltCycles => c.haltCycles
  | .freqLoopMoves => c.freqLoopMoves
  | .outerLoopMoves => c.outerLoopMoves

/-- The constants with one of them changed. -/
def set (c : Constants) (k : Constant) (value : Int64) : Constants :=
  match k with
  | .clockHz => { c with clockHz := value }
  | .moveCycles => { c with moveCycles := value }
  | .haltCycles => { c with haltCycles := value }
  | .freqLoopMoves => { c with freqLoopMoves := value }
  | .outerLoopMoves => { c with outerLoopMoves := value }

/-- The first constant of a table that is not positive. -/
def firstNonPositive (c : Constants) : Option Constant :=
  Constant.ofTable.find? fun k => c.get k ≤ 0

/-- Cycles of one pass of the frequency loop without halts. -/
def loopCycles (c : Constants) : Int64 :=
  c.freqLoopMoves * c.moveCycles

variable {F : Type} [Arithmetic F]

open Arithmetic (ofWord)

/-- Cycles of one period with a number of halts, which may be fractional. -/
def periodCycles (c : Constants) (delay : F) : F :=
  ofWord c.loopCycles + delay * ofWord c.haltCycles

/-- Cycles as seconds. -/
def cyclesToSeconds (c : Constants) (cycles : F) : F :=
  cycles / ofWord c.clockHz

/-- Seconds as cycles. -/
def secondsToCycles (c : Constants) (seconds : F) : F :=
  seconds * ofWord c.clockHz

/-- The frequency that a number of halts gives. -/
def frequencyForDelay (c : Constants) (delay : F) : F :=
  ofWord c.clockHz / c.periodCycles delay

/-- The number of halts that gives a frequency: fractional, and negative above
the rate of the bare loop. -/
def delayForFrequency (c : Constants) (freq : F) : F :=
  (ofWord c.clockHz / freq - ofWord c.loopCycles) / ofWord c.haltCycles

/-- Seconds of the bookkeeping between two notes. -/
def outerLoopSeconds (c : Constants) : F :=
  c.cyclesToSeconds (ofWord (c.outerLoopMoves * c.moveCycles))

end Constants

end StepTone.Firmware
