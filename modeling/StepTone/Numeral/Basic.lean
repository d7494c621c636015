/-
StepTone.Numeral.Basic — what numerals have in common.

* `Flaw` — why a text is not read as a number.
* `digit?` — the value of a digit in a base up to thirty-six.
* `grouped` — underscores stand only between digits, or between the sign of a
  base and a digit.
-/
namespace StepTone.Numeral

/-- Why a text is not read as a number: it is no numeral, or its value does not
fit. -/
inductive Flaw where
  | malformed
  | outOfRange
deriving DecidableEq, Repr

/-- The words for a flaw. -/
def Flaw.text : Flaw → String
  | .malformed => "invalid syntax"
  | .outOfRange => "value out of range"

/-- The value of a digit: `0` to `9`, then letters of either case from ten on. -/
def digit? (c : Char) : Option Nat :=
  if '0' ≤ c ∧ c ≤ '9' then some (c.toNat - '0'.toNat)
  else if 'a' ≤ c ∧ c ≤ 'z' then some (c.toNat - 'a'.toNat + 10)
  else if 'A' ≤ c ∧ c ≤ 'Z' then some (c.toNat - 'A'.toNat + 10)
  else none

/-- The value of a digit of the given base. -/
def digitIn? (base : Nat) (c : Char) : Option Nat :=
  (digit? c).filter (· < base)

/-- A sign taken off the front: whether it was a minus, and the rest. -/
def splitSign : List Char → Bool × List Char
  | '-' :: rest => (true, rest)
  | '+' :: rest => (false, rest)
  | text => (false, text)

/-! ## Underscores between digits -/

/-- What stood last before a character of a numeral. -/
inductive Last where
  | start
  | digit
  | underscore
  | other
deriving DecidableEq

/-- Underscores of a numeral body are each preceded and followed by a digit of
the base. `last` is what stood before the body. -/
def groupedFrom (base : Nat) (last : Last) : List Char → Bool
  | [] => last ≠ .underscore
  | c :: rest =>
    if (digitIn? base c).isSome then groupedFrom base .digit rest
    else if c = '_' then last = .digit && groupedFrom base .underscore rest
    else last ≠ .underscore && groupedFrom base .other rest

/-- Underscores of an unsigned numeral stand between digits; the marks `0b`,
`0o` and `0x` count as a digit. -/
def grouped : List Char → Bool
  | '0' :: mark :: rest =>
    if mark.toLower = 'x' then groupedFrom 16 .digit rest
    else if mark.toLower = 'b' ∨ mark.toLower = 'o' then groupedFrom 10 .digit rest
    else groupedFrom 10 .start ('0' :: mark :: rest)
  | text => groupedFrom 10 .start text

end StepTone.Numeral
