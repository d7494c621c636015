/-
StepTone.Decimal.Notation — how doubles are written.

One set of digits (`Decimal.Digits`) can be laid out positionally or with an
exponent. Every notation in use is one of these:

* `general` — shortest digits, an exponent outside `10^-4 … 10^6`.
* `plain` — shortest digits, never an exponent.
* `interchange` — shortest digits, an exponent only outside `10^-6 … 10^21`.
* `fixed` — a given number of places.
* `scientific` — one digit, a given number of places and an exponent.
* `rounded` — a given number of significant digits.

The undefined double is `NaN`, the infinities are `+Inf` and `-Inf`, and a
negative zero keeps its sign.
-/
import StepTone.Decimal.Digits

namespace StepTone.Decimal

open Binary64 (Value value)

/-! ## Laying out digits -/

/-- Digits whose first one counts `10^leading`, without an exponent. -/
def positional (digits : List Char) : Int → List Char
  | .ofNat k =>
    if digits.length ≤ k + 1 then digits ++ List.replicate (k + 1 - digits.length) '0'
    else digits.take (k + 1) ++ '.' :: digits.drop (k + 1)
  | .negSucc k => '0' :: '.' :: (List.replicate k '0' ++ digits)

/-- A natural number, with zeros in front up to a width. -/
def padded (width n : Nat) : List Char :=
  let digits := Nat.toDigits 10 n
  List.replicate (width - digits.length) '0' ++ digits

/-- Digits whose first one counts `10^leading`, with an exponent that has a
sign and at least `width` digits. -/
def exponential (width : Nat) (digits : List Char) (leading : Int) : List Char :=
  let mantissa := match digits with
    | [] => ['0']
    | [d] => [d]
    | d :: rest => d :: '.' :: rest
  let sign := if leading < 0 then '-' else '+'
  mantissa ++ 'e' :: sign :: padded width leading.natAbs

/-- A count of units of `10^-places`, written with a point. -/
def pointed (places count : Nat) : List Char :=
  if places = 0 then Nat.toDigits 10 count
  else
    let digits := padded (places + 1) count
    let whole := digits.length - places
    digits.take whole ++ '.' :: digits.drop whole

/-- Writes a double whose finite magnitudes are written by `body`. -/
def write (body : Nat → Int → List Char) (x : Float) : String :=
  match value x with
  | .nan => "NaN"
  | .infinite negative => if negative then "-Inf" else "+Inf"
  | .finite negative m q =>
    String.ofList (if negative then '-' :: body m q else body m q)

/-! ## The notations -/

/-- Shortest digits; positional when the leading digit counts `10^-4` to `10^5`. -/
def general (x : Float) : String :=
  write (fun m q =>
    let d := shortest m q
    if -4 ≤ d.leading ∧ d.leading < 6 then positional d.chars d.leading
    else exponential 2 d.chars d.leading) x

/-- Shortest digits, always positional. -/
def plain (x : Float) : String :=
  write (fun m q =>
    let d := shortest m q
    positional d.chars d.leading) x

/-- Shortest digits, as numbers are written in JSON: positional when the leading
digit counts `10^-6` to `10^20`, and a negative exponent is not padded. -/
def interchange (x : Float) : String :=
  write (fun m q =>
    let d := shortest m q
    if -6 ≤ d.leading ∧ d.leading < 21 then positional d.chars d.leading
    else exponential (if d.leading < 0 then 1 else 2) d.chars d.leading) x

/-- A given number of places. -/
def fixed (places : Nat) (x : Float) : String :=
  write (fun m q => pointed places (toPlaces places m q)) x

/-- Digits of `m · 2^q` for one digit before the point and `places` after it. -/
def mantissa (places : Nat) (m : Nat) (q : Int) : List Char × Int :=
  if m = 0 then (List.replicate (places + 1) '0', 0)
  else
    let d := significant (places + 1) m q
    (d.chars.take (places + 1), d.leading)

/-- One digit before the point, a given number of places after it, and an
exponent. -/
def scientific (places : Nat) (x : Float) : String :=
  write (fun m q =>
    let (digits, leading) := mantissa places m q
    exponential 2 digits leading) x

/-- At most `n` significant digits without zeros at the end; positional as long
as the digits, or the `n` asked for, reach the point. -/
def rounded (n : Nat) (x : Float) : String :=
  write (fun m q =>
    let n := max n 1
    let d := (significant n m q).trim
    let digits := d.chars
    let reach : Int := if n > digits.length ∧ d.leading + 1 ≤ digits.length then digits.length else n
    if -4 ≤ d.leading ∧ d.leading < reach then positional digits d.leading
    else exponential 2 digits d.leading) x

end StepTone.Decimal
