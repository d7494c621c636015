/-
StepTone.Table.Check — the laws of a table.

Every delay fits the register, frequencies rise from row to row, delays never do.
`Table.check` reports the first row at which the rows up to it break a law; at one
row the register comes first, then the frequency, then the delay.
-/
import StepTone.Table.Basic

namespace StepTone.Table

variable {F : Type} [Arithmetic F]

/-- A law that a row breaks. -/
inductive Breach where
  /-- The delay does not fit the register. -/
  | register (row : Fin size) (delay limit : UInt16)
  /-- The frequency is not above the one before. -/
  | frequency (row : Fin size)
  /-- The delay is above the one before. -/
  | delay (row : Fin size)
deriving DecidableEq

/-- The breach as it is reported. -/
def Breach.toFault (b : Breach) : Fault :=
  .coded { code := .tableRange, message := match b with
    | .register row got limit =>
      "entry " ++ toString row.val ++ " delay " ++ toString got.toNat
        ++ " exceeds register max " ++ toString limit.toNat
    | .frequency row => "frequency not increasing at entry " ++ toString row.val
    | .delay row => "delay increases at entry " ++ toString row.val }

/-- The law that a row breaks on its own. -/
def rangeBreach? (t : Table F) (i : Fin size) : Option Breach :=
  let e := t.entries.get i
  if t.options.width.max < e.delay then some (.register i e.delay t.options.width.max) else none

/-- The law that a row breaks together with the row before it. -/
def orderBreach? (t : Table F) (i : Fin 255) : Option Breach :=
  let before := t.entries.get i.castSucc
  let e := t.entries.get i.succ
  if ¬ before.frequency < e.frequency then some (.frequency i.succ)
  else if before.delay < e.delay then some (.delay i.succ)
  else none

/-- The law that the rows up to one break at it. -/
def breachAt? (t : Table F) (i : Fin size) : Option Breach :=
  match t.rangeBreach? i with
  | some b => some b
  | none =>
    if h : i.val = 0 then none
    else t.orderBreach? ⟨i.val - 1, by have := i.isLt; simp only [size] at this; omega⟩

/-- The first breach of the table. -/
def firstBreach? (t : Table F) : Option Breach :=
  (List.finRange size).findSome? t.breachAt?

/-- The table keeps the laws. -/
def check (t : Table F) : Except Fault Unit :=
  match t.firstBreach? with
  | some b => .error b.toFault
  | none => .ok ()

end StepTone.Table
