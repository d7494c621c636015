/-
StepTone.Journal.Fields — named values that a record carries.

Fields are a value: adding one gives new fields and leaves the old ones as they are.
A name has one value, the last one given, and records show names in ascending order.

* `set`, `merge`, `withError` — the ways to add fields.
* `sorted` — the fields as a record shows them.
-/
import StepTone.Datum
import StepTone.JsonValue

namespace StepTone.Journal

/-- Named values, each name once. -/
structure Fields where
  bindings : List (String × Datum) := []

namespace Fields

/-- The fields with a value under a name; an earlier value is dropped. -/
def set (f : Fields) (key : String) (value : Datum) : Fields :=
  ⟨f.bindings.filter (·.1 ≠ key) ++ [(key, value)]⟩

/-- The fields with all those of another value added. -/
def merge (f g : Fields) : Fields :=
  g.bindings.foldl (fun f (key, value) => f.set key value) f

/-- The fields of a list of names and values. -/
def ofList (bindings : List (String × Datum)) : Fields :=
  bindings.foldl (fun f (key, value) => f.set key value) {}

/-- The fields with the text of an error. -/
def withError (f : Fields) (text : String) : Fields :=
  f.set "error" (.text text)

/-- The value under a name. -/
def get? (f : Fields) (key : String) : Option Datum :=
  f.bindings.lookup key

/-- The fields in ascending order of their names. -/
def sorted (f : Fields) : List (String × Datum) :=
  f.bindings.mergeSort fun a b => decide (a.1 ≤ b.1)

/-- There are no fields. -/
def isEmpty (f : Fields) : Bool :=
  f.bindings.isEmpty

end Fields

mutual

/-- A value as JSON. -/
def jsonOf : Datum → JsonValue
  | .nothing => .null
  | .flag b => .bool b
  | .int n => .int n.toInt
  | .real x => .real x
  | .text s => .str s
  | .list items => .arr (jsonOfAll items)

/-- The values of a list as JSON. -/
def jsonOfAll : List Datum → List JsonValue
  | [] => []
  | d :: rest => jsonOf d :: jsonOfAll rest

end

end StepTone.Journal
