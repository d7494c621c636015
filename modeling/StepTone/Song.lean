/-
StepTone.Song — a melody as the firmware plays it.

A note is a frequency and a duration; a note of frequency zero is a rest. A
compiled note says which row of the table sets its pitch and for how many periods
it is held, so that a song is a block of byte pairs.

* `Note`, `Step`, `Sequence` — a note, a compiled note, a compiled song.
* `compile` — a melody against a table, or the reason why not.
* `Sequence.bytes`, `Sequence.length` — the song block.

Compiling goes note by note: what becomes of a note does not depend on the others,
and the first note that cannot be played is reported.
-/
import StepTone.Table.Basic

namespace StepTone.Song

open Arithmetic (ofInt isMagnitude atLeastZero isZero)

/-- The largest number of notes of a song: its length in bytes fits one byte. -/
def maxNotes : Nat := 127

/-- A note of a melody. -/
structure Note (F : Type) where
  /-- Frequency in Hz, before scaling. -/
  frequency : F
  /-- Duration in milliseconds. -/
  durationMs : F

/-- A compiled note. -/
structure Step (F : Type) where
  note : Note F
  /-- The frequency asked for, after scaling. -/
  scaled : F
  /-- The row of the table. -/
  index : Int
  /-- The frequency that the firmware gives, zero for a rest. -/
  actual : F
  /-- Seconds to hold the note, the bookkeeping taken out. -/
  seconds : F
  /-- Periods to hold the note. -/
  repeats : UInt8

/-- A compiled song. -/
structure Sequence (F : Type) where
  steps : List (Step F)
  scale : F

namespace Sequence

variable {F : Type}

/-- The song block: for each note its repeats and its row. -/
def bytes (s : Sequence F) : List UInt8 :=
  s.steps.flatMap fun step => [step.repeats, UInt8.ofInt step.index]

/-- The length of the song block, which the firmware keeps in a byte. -/
def length (s : Sequence F) : UInt8 :=
  UInt8.ofNat (2 * s.steps.length)

end Sequence

/-! ## Faults -/

/-- Why a note cannot be played. -/
inductive NoteFault (F : Type) where
  /-- Frequency or duration is negative or no number. -/
  | noMagnitude (note : Note F)
  /-- The scaled frequency lies outside the bounds. -/
  | outside (scaled fMin fMax : F)
  /-- The note is held for more periods than a byte counts. -/
  | tooLong (periods : F)
  /-- The table does not have the row of the note. -/
  | row (fault : Fault)

/-- Why a melody cannot be compiled. -/
inductive CompileFault (F : Type) where
  | empty
  | tooManyNotes (count : Nat)
  | scale (scale : F)
  | outerLoop (moves : Int64)
  | note (position : Nat) (fault : NoteFault F)

/-- A number of periods rounded down, as a text. -/
def wholePeriods (periods : Float) : String :=
  if Binary64.isFinite periods then toString (Binary64.floor periods)
  else Decimal.general periods

/-- What is wrong with a note, in words. -/
def NoteFault.text : NoteFault Float → String
  | .noMagnitude n =>
    "frequency " ++ Decimal.general n.frequency ++ " and duration "
      ++ Decimal.general n.durationMs ++ " ms must be finite and not negative"
  | .outside scaled fMin fMax =>
    Decimal.fixed 2 scaled ++ " Hz outside " ++ Decimal.fixed 2 fMin ++ ".."
      ++ Decimal.fixed 2 fMax ++ " Hz"
  | .tooLong periods => "holding " ++ wholePeriods periods ++ " periods, at most 255 fit"
  | .row fault => fault.text

/-- The fault as it is reported. -/
def CompileFault.toFault : CompileFault Float → Fault
  | .empty => .song "song has no notes"
  | .tooManyNotes count =>
    .song ("song has " ++ toString count ++ " notes, at most " ++ toString maxNotes ++ " fit")
  | .scale x => .invalid "song" "scale" ("must be above 0, got " ++ Decimal.general x)
  | .outerLoop moves => .nonPositive Firmware.Constant.outerLoopMoves.name moves
  | .note _ (.row fault) => fault
  | .note position fault =>
    (Fault.song ("note " ++ toString position ++ ": " ++ fault.text)).mapLabel
      (·.withContext "note" (.int (Int64.ofNat position)))

/-! ## Compiling -/

variable {F : Type} [Arithmetic F]

/-- The note is silent. -/
def Note.isRest (n : Note F) : Bool :=
  isZero n.frequency

/-- Seconds to hold a note, the bookkeeping after it taken out. -/
def holdSeconds (t : Table F) (n : Note F) : F :=
  atLeastZero (n.durationMs / ofInt 1000 - t.constants.outerLoopSeconds)

/-- The step of a note whose row and frequencies are known. A rest stands on row 0
and is counted in the periods of that row. -/
def hold (n : Note F) (scaled actual : F) (row : Fin Table.size) (seconds rate : F) :
    Except (NoteFault F) (Step F) :=
  let periods := seconds * rate
  if periods < ofInt 256 then
    .ok { note := n, scaled, index := row.val, actual, seconds,
          repeats := UInt8.ofInt (Arithmetic.floor periods) }
  else .error (.tooLong periods)

/-- The frequency that the firmware gives for the row of a note. -/
def rateAt (t : Table F) (i : Int64) : Except (NoteFault F) F :=
  (t.actualFrequency i).mapError .row

/-- A note against a table. -/
def compileNote (ls : LogScale F) (t : Table F) (scale : F) (n : Note F) :
    Except (NoteFault F) (Step F) :=
  if !isMagnitude n.frequency || !isMagnitude n.durationMs then
    .error (.noMagnitude n)
  else
    let scaled := n.frequency * scale
    let seconds := holdSeconds t n
    if n.isRest then do
      let rate ← rateAt t 0
      hold n scaled (ofInt 0) 0 seconds rate
    else if t.bounds.fMin ≤ scaled ∧ scaled ≤ t.bounds.fMax then do
      let row := t.nearestIndex ls scaled
      let actual ← rateAt t (Int64.ofNat row.val)
      hold n scaled actual row seconds actual
    else
      .error (.outside scaled t.bounds.fMin t.bounds.fMax)

/-- The notes from a position on, each against the table. -/
def compileFrom (ls : LogScale F) (t : Table F) (scale : F) (position : Nat) :
    List (Note F) → Except (CompileFault F) (List (Step F))
  | [] => .ok []
  | n :: rest =>
    match compileNote ls t scale n with
    | .error fault => .error (.note position fault)
    | .ok step =>
      match compileFrom ls t scale (position + 1) rest with
      | .error fault => .error fault
      | .ok steps => .ok (step :: steps)

/-- A melody against a table; every frequency is multiplied by `scale` first. -/
def compile (ls : LogScale F) (t : Table F) (scale : F) (notes : List (Note F)) :
    Except (CompileFault F) (Sequence F) :=
  if notes.isEmpty then .error .empty
  else if maxNotes < notes.length then .error (.tooManyNotes notes.length)
  else if ¬ ofInt 0 < scale then .error (.scale scale)
  else if t.constants.outerLoopMoves ≤ 0 then .error (.outerLoop t.constants.outerLoopMoves)
  else
    match compileFrom ls t scale 0 notes with
    | .error fault => .error fault
    | .ok steps => .ok { steps, scale }

end StepTone.Song
