/-
StepTone.Numeral.Integer — reading integers of sixty-four bits.

* `decimal` — an optional sign and decimal digits.
* `anyBase` — also `0x`, `0o`, `0b` and a leading zero for octal, with
  underscores between digits.

Digits are taken from the left. A magnitude that outgrows sixty-four bits is
reported as soon as it does, before any later character is looked at; whether
the magnitude fits a signed integer is decided once all digits are read.
-/
import StepTone.Numeral.Basic

namespace StepTone.Numeral

/-- The magnitude of a run of digits after `acc`. Underscores are skipped when
`grouping` is set. -/
def magnitudeFrom (base : Nat) (grouping : Bool) (acc : Nat) : List Char → Except Flaw Nat
  | [] => .ok acc
  | c :: rest =>
    if grouping && c = '_' then magnitudeFrom base grouping acc rest
    else
      match digitIn? base c with
      | none => .error .malformed
      | some d =>
        let next := acc * base + d
        if Nat.pow 2 64 ≤ next then .error .outOfRange
        else magnitudeFrom base grouping next rest

/-- A magnitude with its sign, if that fits sixty-four bits. -/
def withSign (negative : Bool) (magnitude : Nat) : Except Flaw Int64 :=
  if negative then
    if magnitude ≤ Nat.pow 2 63 then .ok (Int64.ofInt (-(magnitude : Int))) else .error .outOfRange
  else
    if magnitude < Nat.pow 2 63 then .ok (Int64.ofInt magnitude) else .error .outOfRange

/-- A decimal integer. -/
def decimal (text : String) : Except Flaw Int64 :=
  let (negative, digits) := splitSign text.toList
  if digits.isEmpty then .error .malformed
  else (magnitudeFrom 10 false 0 digits).bind (withSign negative)

/-- The base that the front of an unsigned numeral announces, and the digits
after the mark. -/
def baseOf : List Char → Nat × List Char
  | '0' :: mark :: c :: rest =>
    if mark.toLower = 'b' then (2, c :: rest)
    else if mark.toLower = 'o' then (8, c :: rest)
    else if mark.toLower = 'x' then (16, c :: rest)
    else (8, mark :: c :: rest)
  | '0' :: rest => (8, rest)
  | digits => (10, digits)

/-- An integer whose base is announced by its front. -/
def anyBase (text : String) : Except Flaw Int64 :=
  let (negative, unsigned) := splitSign text.toList
  if unsigned.isEmpty then .error .malformed
  else
    let (base, digits) := baseOf unsigned
    match magnitudeFrom base true 0 digits with
    | .error flaw => .error flaw
    | .ok magnitude =>
      if grouped unsigned then withSign negative magnitude else .error .malformed

end StepTone.Numeral
