/-
StepTone.Settings.OfToml — settings from a TOML document.

Each table of the root becomes a section and its members become options, so that one
set of kinds and checks serves both notations. An array is written as a list, and an
array of two numbers as the pair `a:b`, which is how a note is written.

* `optionText` — a value as the text of an option.
* `ofToml` — the settings of a document.
-/
import StepTone.Settings.Basic
import StepTone.Toml.Value

namespace StepTone.Settings

open Toml (Value Members)

/-- A number as the text of an option. -/
def numberText? : Value → Option String
  | .integer n => some (toString n.toInt)
  | .float x => some (Decimal.plain x)
  | _ => none

/-- Two numbers as a pair. -/
def pairText? : List Value → Option String
  | [a, b] => do return (← numberText? a) ++ ":" ++ (← numberText? b)
  | _ => none

mutual

/-- A value as the text of an option, or the part of it that an option cannot
have. -/
def optionText : Value → Except Value String
  | .string s => .ok s
  | .integer n => .ok (toString n.toInt)
  | .float x => .ok (Decimal.plain x)
  | .boolean b => .ok (if b then "true" else "false")
  | .array items =>
    match pairText? items with
    | some pair => .ok pair
    | none => (optionTexts items).map fun texts => ", ".intercalate texts
  | v => .error v

/-- The items of an array as texts. -/
def optionTexts : List Value → Except Value (List String)
  | [] => .ok []
  | v :: rest =>
    match optionText v with
    | .error bad => .error bad
    | .ok text =>
      match optionTexts rest with
      | .error bad => .error bad
      | .ok texts => .ok (text :: texts)

end

/-- The fault of an option whose value holds something that an option cannot
have. -/
def unsupported (table key : String) (value bad : Value) : Fault :=
  .mistyped table key value.display "scalar or list"
    (some (.plain ("unsupported TOML type " ++ bad.kindName)))

/-- The members of a table as options. -/
def tableOptions (table : String) : Members → Except Fault Options
  | [] => .ok []
  | (key, value) :: rest =>
    match optionText value with
    | .error bad => .error (unsupported table key value bad)
    | .ok text => (tableOptions table rest).map ((key, text) :: ·)

/-- The settings with tables of the root as sections. -/
def addTables (s : Settings) : Members → Except Fault Settings
  | [] => .ok s
  | (name, .table members) :: rest =>
    match tableOptions name members with
    | .error fault => .error fault
    | .ok options => (s.add (Text.lower name) options).addTables rest
  | (name, _) :: _ =>
    .error (.coded { code := .configSection,
                     message := "top-level key '" ++ name ++ "' must be a table" })

/-- The settings of a document; tables are taken in ascending order of their names. -/
def ofToml (root : Members) : Except Fault Settings :=
  ({} : Settings).addTables (root.mergeSort fun a b => decide (a.1 ≤ b.1))

end StepTone.Settings
