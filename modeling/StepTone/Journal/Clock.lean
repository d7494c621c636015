/-
StepTone.Journal.Clock — the time of a call from a count of nanoseconds.

Time is counted from the start of the year 1970 and shown as universal time.
-/
import StepTone.Decimal.Notation
import StepTone.Journal.Logger

namespace StepTone.Journal

/-- A date of the common calendar. -/
structure Date where
  year : Nat
  month : Nat
  day : Nat
deriving DecidableEq, Repr

/-- The date a number of days after the start of 1970. Years are counted from March,
so that the leap day comes last, in cycles of four hundred years. -/
def Date.ofDays (days : Nat) : Date :=
  let shifted := days + 719468
  let cycle := shifted / 146097
  let inCycle := shifted % 146097
  let yearOfCycle := (inCycle - inCycle / 1460 + inCycle / 36524 - inCycle / 146096) / 365
  let dayOfYear := inCycle - (365 * yearOfCycle + yearOfCycle / 4 - yearOfCycle / 100)
  let part := (5 * dayOfYear + 2) / 153
  let month := if part < 10 then part + 3 else part - 9
  { year := cycle * 400 + yearOfCycle + (if month ≤ 2 then 1 else 0)
    month
    day := dayOfYear - (153 * part + 2) / 5 + 1 }

/-- A number with zeros in front up to a width. -/
def digits (width n : Nat) : String :=
  String.ofList (Decimal.padded width n)

/-- The time of day in whole seconds. -/
def timeOfDay (seconds : Nat) : String :=
  digits 2 (seconds / 3600 % 24) ++ ":" ++ digits 2 (seconds / 60 % 60) ++ ":"
    ++ digits 2 (seconds % 60)

/-- The part of a second, without zeros at its end. -/
def fraction (nanoseconds : Nat) : String :=
  let shown := ((Decimal.padded 9 nanoseconds).reverse.dropWhile (· = '0')).reverse
  if shown.isEmpty then "" else String.ofList ('.' :: shown)

/-- The stamp of a call. -/
def Stamp.ofNanoseconds (nanoseconds : Nat) (place : String) : Stamp :=
  let seconds := nanoseconds / 1000000000
  let date := Date.ofDays (seconds / 86400)
  { clock := timeOfDay seconds ++ "." ++ digits 3 (nanoseconds / 1000000 % 1000)
    instant := digits 4 date.year ++ "-" ++ digits 2 date.month ++ "-" ++ digits 2 date.day
      ++ "T" ++ timeOfDay seconds ++ fraction (nanoseconds % 1000000000) ++ "Z"
    place }

end StepTone.Journal
