/-
StepTone.Binary64 — doubles read as exact numbers.

The numbers of this library are IEEE 754 doubles. Everything that asks for the
exact value of one (rounding to an integer, writing it in decimal) goes through
`Binary64.value`, which takes the bits apart; everything that makes one from an
exact quotient (reading a decimal) goes through `Binary64.nearest`.

* `Value` — what a double stands for: no number, an infinity, or `±m · 2^q`.
* `roundHalfAway`, `floor` — the two roundings to an integer.
* `nearest` — the double nearest to a quotient of naturals, ties to even.
-/
namespace StepTone.Binary64

/-! ## The exact value of a double -/

/-- What a double stands for. A finite one is `m · 2^q`, negated when
`negative` is set; zero keeps its sign. -/
inductive Value where
  | nan
  | infinite (negative : Bool)
  | finite (negative : Bool) (m : Nat) (q : Int)
deriving DecidableEq, Repr

/-- The value of a bit pattern: a sign bit, eleven bits of exponent and
fifty-two bits of fraction. -/
def valueOfBits (bits : Nat) : Value :=
  let negative := decide (bits / Nat.pow 2 63 % 2 = 1)
  let biased : Nat := bits / Nat.pow 2 52 % Nat.pow 2 11
  let fraction : Nat := bits % Nat.pow 2 52
  if biased = 2047 then
    if fraction = 0 then .infinite negative else .nan
  else if biased = 0 then
    .finite negative fraction (-1074)
  else
    .finite negative (fraction + Nat.pow 2 52) ((biased : Int) - 1075)

/-- The exact value of a double. -/
def value (x : Float) : Value :=
  valueOfBits x.toBits.toNat

/-- The double is a number, neither infinite nor undefined. -/
def isFinite (x : Float) : Bool :=
  match value x with
  | .finite .. => true
  | _ => false

/-! ## Rounding to an integer -/

/-- An integer beyond every finite double; it stands for an infinity where an
integer is asked for. -/
def beyond : Int := (Nat.pow 2 1024 : Nat)

/-- The sign put in front of a magnitude. -/
def signed (negative : Bool) (n : Nat) : Int :=
  if negative then -(n : Int) else n

/-- The integer nearest to the double; a half goes away from zero. An infinity
lands beyond every finite double, and the undefined double counts as zero. -/
def roundHalfAway (x : Float) : Int :=
  match value x with
  | .nan => 0
  | .infinite negative => if negative then -beyond else beyond
  | .finite negative m (.ofNat q) => signed negative (m * Nat.pow 2 q)
  | .finite negative m (.negSucc q) => signed negative ((m + Nat.pow 2 q) / Nat.pow 2 (q + 1))

/-- The largest integer that is not above the double, with the same reading of
infinities and of the undefined double as `roundHalfAway`. -/
def floor (x : Float) : Int :=
  match value x with
  | .nan => 0
  | .infinite negative => if negative then -beyond else beyond
  | .finite negative m (.ofNat q) => signed negative (m * Nat.pow 2 q)
  | .finite negative m (.negSucc q) => signed negative m / (Nat.pow 2 (q + 1) : Nat)

/-! ## The double nearest to a quotient -/

/-- `num / den` rounded to a natural number; a half goes to the even neighbour. -/
def roundHalfEven (num den : Nat) : Nat :=
  let floor := num / den
  let rest := num % den
  if 2 * rest < den ∨ (2 * rest = den ∧ floor % 2 = 0) then floor else floor + 1

/-- `num / den` as a fraction of the unit `2 ^ q`. -/
def inUnits (num den : Nat) : Int → Nat × Nat
  | .ofNat q => (num, den * Nat.pow 2 q)
  | .negSucc q => (num * Nat.pow 2 (q + 1), den)

/-- The exponent of the last bit of a double near `num / den`: fifty-three bits
are kept, fewer near zero. -/
def lastPlace (num den : Nat) : Int :=
  let guess := (num.log2 : Int) - den.log2 - 52
  let (n, d) := inUnits num den guess
  max (-1074) (if n / d < Nat.pow 2 52 then guess - 1 else guess)

/-- The double nearest to `num / den`, negated when `negative` is set; a tie
goes to the even neighbour, and what is too large becomes an infinity. -/
def nearest (negative : Bool) (num den : Nat) : Float :=
  let sign := if negative then Nat.pow 2 63 else 0
  let magnitude :=
    if num = 0 then 0
    else
      let q := lastPlace num den
      let (n, d) := inUnits num den q
      let m := roundHalfEven n d
      if m < Nat.pow 2 52 then m
      else min ((q + 1074).toNat * Nat.pow 2 52 + m) (2047 * Nat.pow 2 52)
  Float.ofBits (UInt64.ofNat (sign + magnitude))

end StepTone.Binary64
