/-
StepTone.Decimal.Digits — the decimal digits of a number `m · 2^q`.

* `Digits` — a decimal `coefficient · 10^exponent`.
* `shortest` — the fewest digits that still determine the double.
* `significant`, `toPlaces` — a given number of digits, or of places, rounded
  half to even on the exact value.

All three work on exact naturals, so no intermediate rounding can occur.
-/
import StepTone.Binary64

namespace StepTone.Decimal

open Binary64 (roundHalfEven)

/-- The decimal number `coefficient · 10^exponent`. -/
structure Digits where
  coefficient : Nat
  exponent : Int
deriving DecidableEq, Repr

namespace Digits

/-- The digits of the coefficient, most significant first. -/
def chars (d : Digits) : List Char :=
  Nat.toDigits 10 d.coefficient

/-- The power of ten that the leading digit counts. -/
def leading (d : Digits) : Int :=
  d.exponent + d.chars.length - 1

/-- The same number without zeros at the end of its coefficient. -/
def trim (d : Digits) : Digits :=
  if h : d.coefficient ≠ 0 ∧ d.coefficient % 10 = 0 then
    trim ⟨d.coefficient / 10, d.exponent + 1⟩
  else d
termination_by d.coefficient
decreasing_by omega

end Digits

/-- `base ^ k` as a numerator and a denominator. -/
def power (base : Nat) : Int → Nat × Nat
  | .ofNat k => (Nat.pow base k, 1)
  | .negSucc k => (1, Nat.pow base (k + 1))

/-- `m · 2^q` as a numerator and a denominator. -/
def fraction (m : Nat) (q : Int) : Nat × Nat :=
  let (a, b) := power 2 q
  (m * a, b)

/-- The power of ten that the leading digit of the positive number `num / den`
counts. The two bit lengths fix it up to one step in each direction. -/
def leadingExponent (num den : Nat) : Int :=
  let binary : Int := (num.log2 : Int) - den.log2
  let guess := binary * 30103 / 100000
  let reaches (k : Int) : Bool :=
    let (a, b) := power 10 k
    a * den ≤ num * b
  if reaches (guess + 1) then guess + 1
  else if reaches guess then guess
  else guess - 1

/-! ## The shortest digits -/

/-- The reals that round to the double `m · 2^q`, in quarters of its last
place: from `4m - 2` (or `4m - 1` at a power of two, where the doubles below lie
closer) to `4m + 2`, the ends included when `m` is even. -/
structure Interval where
  lower : Nat
  upper : Nat
  closed : Bool

/-- The rounding interval of `m · 2^q`. -/
def Interval.around (m : Nat) (q : Int) : Interval where
  lower := if m = Nat.pow 2 52 ∧ -1074 < q then 4 * m - 1 else 4 * m - 2
  upper := 4 * m + 2
  closed := m % 2 = 0

/-- The decimal with `n` digits that is nearest to `m · 2^q` among the two
neighbours of that length, if one of them lies in the rounding interval; of two
equally near ones the even one. -/
def withDigits? (m : Nat) (q : Int) (n : Nat) : Option Digits :=
  let (a, b) := power 2 (q - 2)
  let exponent := leadingExponent (4 * m * a) b + 1 - n
  let (c, d) := power 10 exponent
  let interval := Interval.around m q
  let low := interval.lower * a * d
  let high := interval.upper * a * d
  let inside (g : Nat) : Bool :=
    let point := g * c * b
    if interval.closed then low ≤ point && point ≤ high else low < point && point < high
  let value := 4 * m * a * d
  let g := value / (b * c)
  match inside g, inside (g + 1) with
  | true, true =>
    let middle := (2 * g + 1) * c * b
    if 2 * value < middle ∨ (2 * value = middle ∧ g % 2 = 0) then some ⟨g, exponent⟩
    else some ⟨g + 1, exponent⟩
  | true, false => some ⟨g, exponent⟩
  | false, true => some ⟨g + 1, exponent⟩
  | false, false => none

/-- The fewest digits that determine `m · 2^q`, and among those the nearest
decimal. Seventeen digits determine every double. -/
def shortest (m : Nat) (q : Int) : Digits :=
  if m = 0 then ⟨0, 0⟩
  else
    match (List.range 17).findSome? fun n => withDigits? m q (n + 1) with
    | some d => d.trim
    | none => ⟨0, 0⟩

/-! ## A given number of digits -/

/-- `m · 2^q` rounded to `n` significant digits. -/
def significant (n : Nat) (m : Nat) (q : Int) : Digits :=
  if m = 0 then ⟨0, 0⟩
  else
    let (num, den) := fraction m q
    let exponent := leadingExponent num den + 1 - n
    let (c, d) := power 10 exponent
    ⟨roundHalfEven (num * d) (den * c), exponent⟩

/-- `m · 2^q` rounded to a count of units of `10^-places`. -/
def toPlaces (places : Nat) (m : Nat) (q : Int) : Nat :=
  let (num, den) := fraction m q
  roundHalfEven (num * Nat.pow 10 places) den

end StepTone.Decimal
