/-
StepTone.Numeral.Real — reading doubles.

A real numeral is one of

* a decimal with an optional point and an optional exponent (`.5`, `5.`, `1e-3`);
* `0x`, a hexadecimal with an optional point, and an exponent of two after `p`;
* `inf` or `infinity` in any case, with an optional sign, or `nan` without one.

Underscores may stand between digits. The value is the nearest double; one that
is too large is out of range, one that is too small is zero.
-/
import StepTone.Numeral.Basic
import StepTone.Decimal.Digits

namespace StepTone.Numeral

/-! ## Words -/

/-- The infinities and the undefined double, by their words. -/
def word? (text : List Char) : Option Float :=
  let lower := text.map Char.toLower
  if lower = "nan".toList then some (0.0 / 0.0)
  else
    let (negative, name) := splitSign lower
    if name = "inf".toList ∨ name = "infinity".toList then
      some (if negative then -1.0 / 0.0 else 1.0 / 0.0)
    else none

/-! ## Digits with a point -/

/-- Digits read so far: their value, how many stood after the point, whether
there was a point, a digit, an underscore. -/
structure Mantissa where
  digits : Nat := 0
  places : Nat := 0
  point : Bool := false
  any : Bool := false
  underscore : Bool := false

/-- Reads digits, one point and underscores as far as they go. -/
def mantissaFrom (base : Nat) (m : Mantissa) : List Char → Mantissa × List Char
  | [] => (m, [])
  | c :: rest =>
    match digitIn? base c with
    | some d =>
      let places := if m.point then m.places + 1 else m.places
      mantissaFrom base { m with digits := m.digits * base + d, places, any := true } rest
    | none =>
      if c = '_' then mantissaFrom base { m with underscore := true } rest
      else if c = '.' ∧ m.point = false then mantissaFrom base { m with point := true } rest
      else (m, c :: rest)

/-- The digits of an exponent; the value stays put once it passes ten thousand,
which is beyond every double. -/
def exponentFrom (acc : Nat) (underscore : Bool) : List Char → Nat × Bool × List Char
  | [] => (acc, underscore, [])
  | c :: rest =>
    match digitIn? 10 c with
    | some d => exponentFrom (if acc < 10000 then acc * 10 + d else acc) underscore rest
    | none =>
      if c = '_' then exponentFrom acc true rest else (acc, underscore, c :: rest)

/-- The exponent after its letter, `none` when no digit follows. -/
def exponent? (text : List Char) : Option (Int × Bool × List Char) :=
  let (negative, digits) := splitSign text
  match digits with
  | [] => none
  | c :: _ =>
    if (digitIn? 10 c).isNone then none
    else
      let (e, underscore, rest) := exponentFrom 0 false digits
      some (if negative then -(e : Int) else e, underscore, rest)

/-! ## Values -/

/-- The double nearest to `digits · 10^exponent`. Far from the doubles nothing is
multiplied out. -/
def scaledByTen (negative : Bool) (digits : Nat) (exponent : Int) : Float :=
  let leading : Int := exponent + (Nat.toDigits 10 digits).length
  if digits = 0 ∨ leading < -330 then Binary64.nearest negative 0 1
  else if 310 < leading then Binary64.nearest negative (Nat.pow 2 1024) 1
  else
    let (num, den) := Decimal.power 10 exponent
    Binary64.nearest negative (digits * num) den

/-- The double nearest to `digits · 2^exponent`, likewise. -/
def scaledByTwo (negative : Bool) (digits : Nat) (exponent : Int) : Float :=
  let leading : Int := exponent + digits.log2
  if digits = 0 ∨ leading < -1100 then Binary64.nearest negative 0 1
  else if 1100 < leading then Binary64.nearest negative (Nat.pow 2 1024) 1
  else
    let (num, den) := Decimal.power 2 exponent
    Binary64.nearest negative (digits * num) den

/-- A double whose magnitude is not too large. -/
def inRange (x : Float) : Except Flaw Float :=
  if Binary64.isFinite x then .ok x else .error .outOfRange

/-- An unsigned decimal numeral. -/
def decimalReal (negative : Bool) (text : List Char) : Except Flaw Float :=
  let (m, rest) := mantissaFrom 10 {} text
  if m.any = false then .error .malformed
  else
    match rest with
    | [] =>
      if m.underscore && !grouped text then .error .malformed
      else inRange (scaledByTen negative m.digits (-(m.places : Int)))
    | c :: tail =>
      if c.toLower ≠ 'e' then .error .malformed
      else
        match exponent? tail with
        | some (e, underscore, []) =>
          if (m.underscore || underscore) && !grouped text then .error .malformed
          else inRange (scaledByTen negative m.digits (e - m.places))
        | _ => .error .malformed

/-- An unsigned hexadecimal numeral after its mark; `text` is the whole of it. -/
def hexadecimalReal (negative : Bool) (text body : List Char) : Except Flaw Float :=
  let (m, rest) := mantissaFrom 16 {} body
  if m.any = false then .error .malformed
  else
    match rest with
    | [] => .error .malformed
    | c :: tail =>
      if c.toLower ≠ 'p' then .error .malformed
      else
        match exponent? tail with
        | some (e, underscore, []) =>
          if (m.underscore || underscore) && !grouped text then .error .malformed
          else inRange (scaledByTwo negative m.digits (e - 4 * m.places))
        | _ => .error .malformed

/-- A real numeral. -/
def real (text : String) : Except Flaw Float :=
  match word? text.toList with
  | some x => .ok x
  | none =>
    let (negative, unsigned) := splitSign text.toList
    match unsigned with
    | '0' :: mark :: c :: rest =>
      if mark.toLower = 'x' then hexadecimalReal negative unsigned (c :: rest)
      else decimalReal negative unsigned
    | _ => decimalReal negative unsigned

end StepTone.Numeral
