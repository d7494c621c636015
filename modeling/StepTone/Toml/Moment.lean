/-
StepTone.Toml.Moment — dates and times.

A moment is written as a date, a time of day, or both with `T`, `t` or a blank
between them; a date and time may end in `Z` or in an offset from it. Fields have
their full number of digits, and the date has to exist.

* `Moment.ofChars?` — reads one.
* `Moment.display` — date, time, offset and the name of the zone.
-/
import StepTone.Decimal.Notation

namespace StepTone.Toml

/-- Where on earth a moment is meant. -/
inductive Zone where
  /-- An offset in minutes. -/
  | offset (minutes : Int)
  /-- A date and time without an offset. -/
  | localDatetime
  /-- A date. -/
  | localDate
  /-- A time of day. -/
  | localTime
deriving DecidableEq, Repr

/-- A date and a time of day. A bare date is at midnight, a bare time on the first
day of the year zero. -/
structure Moment where
  year : Nat := 0
  month : Nat := 1
  day : Nat := 1
  hour : Nat := 0
  minute : Nat := 0
  second : Nat := 0
  nanosecond : Nat := 0
  zone : Zone
deriving DecidableEq, Repr

namespace Moment

/-! ## Reading -/

/-- The value of a run of decimal digits. -/
def number? (digits : List Char) : Option Nat :=
  if digits.all Char.isDigit then
    some (digits.foldl (fun n c => 10 * n + (c.toNat - '0'.toNat)) 0)
  else none

/-- A leap year of the Gregorian calendar. -/
def isLeap (year : Nat) : Bool :=
  year % 4 = 0 && (year % 100 ≠ 0 || year % 400 = 0)

/-- The number of days of a month. -/
def daysIn (year month : Nat) : Nat :=
  if month = 2 then if isLeap year then 29 else 28
  else if month = 4 ∨ month = 6 ∨ month = 9 ∨ month = 11 then 30
  else 31

/-- A date at the front: its moment and the rest. -/
def date? : List Char → Option (Moment × List Char)
  | y₁ :: y₂ :: y₃ :: y₄ :: '-' :: m₁ :: m₂ :: '-' :: d₁ :: d₂ :: rest => do
    let year ← number? [y₁, y₂, y₃, y₄]
    let month ← number? [m₁, m₂]
    let day ← number? [d₁, d₂]
    guard (1 ≤ month ∧ month ≤ 12 ∧ 1 ≤ day ∧ day ≤ daysIn year month)
    return ({ year, month, day, zone := .localDate }, rest)
  | _ => none

/-- Billionths of a second from the digits after the point; later digits do not
count. -/
def nanoseconds? (digits : List Char) : Option Nat :=
  number? ((digits ++ List.replicate 9 '0').take 9)

/-- The digits after a decimal point, if a digit follows it. -/
def fractionDigits : List Char → List Char × List Char
  | '.' :: c :: rest =>
    if c.isDigit then (c :: rest.takeWhile Char.isDigit, rest.dropWhile Char.isDigit)
    else ([], '.' :: c :: rest)
  | rest => ([], rest)

/-- A time of day at the front, put into a moment. -/
def time? (m : Moment) : List Char → Option (Moment × List Char)
  | h₁ :: h₂ :: ':' :: m₁ :: m₂ :: ':' :: s₁ :: s₂ :: rest => do
    let hour ← number? [h₁, h₂]
    let minute ← number? [m₁, m₂]
    let second ← number? [s₁, s₂]
    guard (hour < 24 ∧ minute < 60 ∧ second < 60)
    let (digits, rest) := fractionDigits rest
    let nanosecond ← nanoseconds? digits
    return ({ m with hour, minute, second, nanosecond }, rest)
  | _ => none

/-- The offset at the end of a date and time. -/
def zone? : List Char → Option Zone
  | [] => some .localDatetime
  | ['Z'] => some (.offset 0)
  | [sign, h₁, h₂, ':', m₁, m₂] => do
    let hours ← number? [h₁, h₂]
    let minutes ← number? [m₁, m₂]
    guard (hours ≤ 24 ∧ minutes ≤ 60)
    let total : Int := hours * 60 + minutes
    if sign = '+' then return .offset total
    else if sign = '-' then return .offset (-total)
    else none
  | _ => none

/-- Capital letters and `T` for a blank between date and time. -/
def normalized (c : Char) : Char :=
  if c = 'z' then 'Z' else if c = 't' ∨ c = ' ' then 'T' else c

/-- Reads a moment. -/
def ofChars? (text : List Char) : Option Moment :=
  let text := text.map normalized
  match date? text with
  | some (m, []) => some m
  | some (m, 'T' :: rest) => do
    let (m, rest) ← time? m rest
    return { m with zone := ← zone? rest }
  | some _ => none
  | none =>
    match time? { zone := .localTime } text with
    | some (m, []) => some m
    | _ => none

/-! ## Writing -/

/-- A number of minutes as sign, hours and minutes. -/
def offsetText (minutes : Int) : String :=
  let sign := if minutes < 0 then '-' else '+'
  String.ofList (sign :: (Decimal.padded 2 (minutes.natAbs / 60)
    ++ Decimal.padded 2 (minutes.natAbs % 60)))

/-- Offset and name of the zone. -/
def zoneText : Zone → String
  | .offset 0 => "+0000 UTC"
  | .offset minutes => offsetText minutes ++ " " ++ offsetText minutes
  | .localDatetime => "+0000 datetime-local"
  | .localDate => "+0000 date-local"
  | .localTime => "+0000 time-local"

/-- The fraction of a second without zeros at its end, after a point. -/
def fractionText (nanosecond : Nat) : List Char :=
  if nanosecond = 0 then []
  else '.' :: ((Decimal.padded 9 nanosecond).reverse.dropWhile (· = '0')).reverse

/-- A moment as it appears in a message. -/
def display (m : Moment) : String :=
  String.ofList (Decimal.padded 4 m.year ++ '-' :: Decimal.padded 2 m.month
      ++ '-' :: Decimal.padded 2 m.day ++ ' ' :: Decimal.padded 2 m.hour
      ++ ':' :: Decimal.padded 2 m.minute ++ ':' :: Decimal.padded 2 m.second
      ++ fractionText m.nanosecond)
    ++ " " ++ zoneText m.zone

end Moment

end StepTone.Toml
