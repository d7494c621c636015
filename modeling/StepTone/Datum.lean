/-
StepTone.Datum — small values that messages and log fields carry.

`Datum.display` writes a value the way it appears inside a sentence: texts as
they are, numbers in general notation, lists between brackets.
-/
import StepTone.Decimal.Notation

namespace StepTone

/-- A value that a message or a log field carries. -/
inductive Datum where
  | nothing
  | flag (b : Bool)
  | int (n : Int64)
  | real (x : Float)
  | text (s : String)
  | list (items : List Datum)

namespace Datum

mutual

/-- A value inside a sentence. -/
def display : Datum → String
  | .nothing => "<nil>"
  | .flag b => if b then "true" else "false"
  | .int n => toString n.toInt
  | .real x => Decimal.general x
  | .text s => s
  | .list items => "[" ++ " ".intercalate (displayAll items) ++ "]"

/-- The values of a list, each as `display` writes it. -/
def displayAll : List Datum → List String
  | [] => []
  | d :: rest => d.display :: displayAll rest

end

end Datum

end StepTone
