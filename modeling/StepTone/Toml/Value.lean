/-
StepTone.Toml.Value — TOML documents.

* `Value` — a value; a table is a list of members in the order they were set.
* `Decoder` — a reader of documents.
* `Value.display` — a value inside a sentence, the members of tables by ascending key.
* `Value.kindName` — what a value that is no scalar and no array is called.
-/
import StepTone.Toml.Moment

namespace StepTone.Toml

/-- A TOML value. -/
inductive Value where
  | string (s : String)
  | integer (n : Int64)
  | float (x : Float)
  | boolean (b : Bool)
  | moment (m : Moment)
  | array (items : List Value)
  | table (members : List (String × Value))
  /-- An array that `[[name]]` headers built. -/
  | tables (items : List (List (String × Value)))

/-- The members of a table. -/
abbrev Members := List (String × Value)

/-- A reader of documents: the members of the root table of a text, or a word on why it has
none. -/
abbrev Decoder := String → Except String Members

namespace Value

/-- Texts made from members, in ascending order of the keys. -/
def byKey (members : List (String × String)) : List String :=
  (members.mergeSort fun a b => decide (a.1 ≤ b.1)).map fun (k, v) => k ++ ":" ++ v

mutual

/-- A value inside a sentence. -/
def display : Value → String
  | .string s => s
  | .integer n => toString n.toInt
  | .float x => Decimal.general x
  | .boolean b => if b then "true" else "false"
  | .moment m => m.display
  | .array items => "[" ++ " ".intercalate (displayItems items) ++ "]"
  | .table members => "map[" ++ " ".intercalate (byKey (displayMembers members)) ++ "]"
  | .tables items => "[" ++ " ".intercalate (displayTables items) ++ "]"

/-- The items of an array. -/
def displayItems : List Value → List String
  | [] => []
  | v :: rest => v.display :: displayItems rest

/-- The members of a table. -/
def displayMembers : List (String × Value) → List (String × String)
  | [] => []
  | (k, v) :: rest => (k, v.display) :: displayMembers rest

/-- The tables of an array of tables. -/
def displayTables : List (List (String × Value)) → List String
  | [] => []
  | members :: rest =>
    ("map[" ++ " ".intercalate (byKey (displayMembers members)) ++ "]") :: displayTables rest

end

/-- What kind of value it is, where an option cannot have it. -/
def kindName : Value → String
  | .moment _ => "time.Time"
  | .tables _ => "[]map[string]interface \x7b\x7d"
  | _ => "map[string]interface \x7b\x7d"

end Value

end StepTone.Toml
