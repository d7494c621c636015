/-
StepTone.Arithmetic — the number type that the formulas are read over.

The formulas for periods, frequencies and delays use the four operations, two
comparisons, integers as numbers and two roundings. `Arithmetic` collects these,
so that one definition of a formula serves for doubles, which is how it runs, and
for exact rationals, which is how its error can be discussed.

* `Arithmetic` — the operations, with instances for `Float` and `Rat`.
* `LogScale` — an exponential and a logarithm; they are supplied from outside,
  and no formula relies on what they return.
-/
import StepTone.Binary64

namespace StepTone

/-- The operations that the formulas of this library are written in. -/
class Arithmetic (F : Type) extends Add F, Sub F, Mul F, Div F, LT F, LE F where
  /-- An integer as a number, rounded to the nearest one if need be. -/
  ofInt : Int → F
  /-- The nearest integer; a half goes away from zero. -/
  round : F → Int
  /-- The largest integer that is not above the number. -/
  floor : F → Int
  /-- The value is a number, neither infinite nor undefined. -/
  isFinite : F → Bool
  decidableLT : DecidableLT F
  decidableLE : DecidableLE F

namespace Arithmetic

variable {F : Type} [Arithmetic F]

instance : DecidableLT F := decidableLT

instance : DecidableLE F := decidableLE

/-- A word of sixty-four bits as a number. -/
def ofWord (n : Int64) : F :=
  ofInt n.toInt

/-- The number, or zero where it is not above zero. -/
def atLeastZero (x : F) : F :=
  if x ≤ ofInt 0 then ofInt 0 else x

/-- The number is finite and not negative. -/
def isMagnitude (x : F) : Bool :=
  isFinite x && decide (ofInt 0 ≤ x)

/-- The number is zero, whatever its sign. -/
def isZero (x : F) : Bool :=
  decide (x ≤ ofInt 0) && decide (ofInt 0 ≤ x)

end Arithmetic

instance : Arithmetic Float where
  ofInt := Float.ofInt
  round := Binary64.roundHalfAway
  floor := Binary64.floor
  isFinite := Binary64.isFinite
  decidableLT := inferInstance
  decidableLE := inferInstance

instance : Arithmetic Rat where
  ofInt n := n
  round x := if x < 0 then -(-x + 1 / 2).floor else (x + 1 / 2).floor
  floor := Rat.floor
  isFinite _ := true
  decidableLT := inferInstance
  decidableLE := inferInstance

/-- An exponential and a logarithm for a number type. -/
structure LogScale (F : Type) where
  exp : F → F
  log : F → F

end StepTone
