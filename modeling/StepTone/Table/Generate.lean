/-
StepTone.Table.Generate — making a table from the constants.

The frequencies of the rows form a ladder between the bounds,

  f_i = f_min · (f_max / f_min)^(i / 255),

so that neighbouring low frequencies lie closer together than high ones. Each
frequency becomes a whole number of halts, rounded and then clamped to what the
register holds. A ladder that does not rise at every row is refused.
-/
import StepTone.Table.Basic

namespace StepTone.Table

open Firmware (Constants Bounds BoundsFault)
open Arithmetic (ofInt)

/-- Why a table cannot be made. -/
inductive GenerateFault (F : Type) where
  | width (bits : Int64)
  | bounds (fault : BoundsFault F)
  | narrow (fMin fMax : F) (row : Fin size)

/-- The fault as it is reported. -/
def GenerateFault.toFault : GenerateFault Float → Fault
  | .width bits => Width.unbuilt bits
  | .bounds fault => fault.toFault
  | .narrow fMin fMax row => .narrow fMin fMax (Int64.ofNat row.val)

variable {F : Type} [Arithmetic F]

/-! ## The ladder of frequencies -/

/-- The sampled frequencies. Both ends are the bounds themselves. -/
def ladder (scale : LogScale F) (b : Bounds F) : Vector F size :=
  let logMin := scale.log b.fMin
  let logSpan := scale.log b.fMax - logMin
  Vector.ofFn fun i =>
    if i.val = 0 then b.fMin
    else if i.val = 255 then b.fMax
    else scale.exp (logMin + logSpan * ofInt i.val / ofInt 255)

/-- The first row whose frequency is not above the one before it. -/
def firstStall (ladder : Vector F size) : Option (Fin size) :=
  ((List.finRange 255).find? fun i => ¬ ladder.get i.castSucc < ladder.get i.succ).map Fin.succ

/-! ## One row -/

/-- A rounded number of halts moved into the range of the register. -/
def clamp (w : Width) (halts : Int) : UInt16 :=
  if halts < 0 then 0
  else if (w.max.toNat : Int) < halts then w.max
  else UInt16.ofNat halts.toNat

/-- A rounded number of halts does not fit the register. -/
def outgrows (w : Width) (halts : Int) : Bool :=
  halts < 0 || (w.max.toNat : Int) < halts

/-- The row for a frequency. -/
def Entry.sample (c : Constants) (w : Width) (index : Nat) (frequency : F) : Entry F :=
  let exact := c.delayForFrequency frequency
  let halts := Arithmetic.round exact
  { index, frequency, exact, delay := clamp w halts, clamped := outgrows w halts }

/-! ## The whole table -/

/-- Width zero asks for the usual width. -/
def Options.withDefault (o : Options) : Options :=
  if o.width.bits = 0 then { o with width := .eight } else o

/-- The table for the constants. -/
def generate (scale : LogScale F) (c : Constants) (o : Options) :
    Except (GenerateFault F) (Table F) := do
  let options := o.withDefault
  if !options.width.isBuilt then
    throw (.width options.width.bits)
  let bounds ← (c.bounds : Except (BoundsFault F) (Bounds F)).mapError .bounds
  let ladder := ladder scale bounds
  match firstStall ladder with
  | some row => throw (.narrow bounds.fMin bounds.fMax row)
  | none =>
    return {
      constants := c, bounds, options,
      entries := Vector.ofFn fun i => .sample c options.width i.val (ladder.get i) }

end StepTone.Table
