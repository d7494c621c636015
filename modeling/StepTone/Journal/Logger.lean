/-
StepTone.Journal.Logger — records and the lines they are written as.

A logger is a value: its settings at the moment of a call decide whether there is a
line, where it goes and what it looks like. When and where the call was made is told
from outside, so that a line is a function of what it is made from. Messages and values
are texts of Unicode characters; bytes that spell none are outside of the model.

* `Stamp` — when and where a call was made.
* `Record` — what a call says; `Record.ofTemplate` fills values into its message.
* `Logger` — the settings; `line?` is the line that a call writes.
* `Logger.configure` — settings from the environment.
-/
import StepTone.Journal.Fields
import StepTone.Journal.Level
import StepTone.Message.Fill

namespace StepTone.Journal

/-- When and where a call was made. -/
structure Stamp where
  /-- The time of day. -/
  clock : String
  /-- The date and the time of day. -/
  instant : String
  /-- The place of the call. -/
  place : String

/-- What lines are written to. -/
structure Sink where
  name : String
  terminal : Bool := false
deriving DecidableEq, Repr

/-- The notation of a line. -/
inductive Layout where
  | text
  | json
deriving DecidableEq, Repr

/-- The settings that a line is written with. -/
structure Logger where
  /-- The part of the program that speaks; no part when it is empty. -/
  component : String
  sink : Sink
  /-- The least level that is written. -/
  level : Level := .info
  layout : Layout := .text
  colour : Bool := false
  /-- The place of a call is shown. -/
  caller : Bool := false
deriving DecidableEq, Repr

/-- What a call says. -/
structure Record where
  level : Level
  message : String
  fields : Fields := {}

/-- A call with a message that has places for values. -/
def Record.ofTemplate (level : Level) (template : String) (values : List Datum) : Record :=
  { level, message := Message.fill template values }

namespace Logger

/-! ## Lines -/

/-- The name of a level, brought to five characters. -/
def levelTag (l : Level) : String :=
  l.name ++ String.ofList (List.replicate (5 - l.name.length) ' ')

/-- The fields at the end of a text line. -/
def fieldsText (f : Fields) : String :=
  if f.isEmpty then ""
  else " \x7b" ++ ", ".intercalate (f.sorted.map fun (key, value) => key ++ "=" ++ value.display)
    ++ "\x7d"

/-- The place of the call, if it is shown. -/
def place (l : Logger) (stamp : Stamp) : String :=
  if l.caller then stamp.place else ""

/-- A text line. -/
def textLine (l : Logger) (stamp : Stamp) (r : Record) : String :=
  let tag := levelTag r.level
  stamp.clock ++ " ["
    ++ (if l.colour then r.level.colour ++ tag ++ Level.colourEnd else tag) ++ "] "
    ++ (if l.component = "" then "" else l.component ++ ": ")
    ++ r.message
    ++ (if l.place stamp = "" then "" else " (" ++ l.place stamp ++ ")")
    ++ fieldsText r.fields ++ "\n"

/-- A member of an object that is left out when its text is empty. -/
def nonempty (key text : String) : List (String × JsonValue) :=
  if text = "" then [] else [(key, .str text)]

/-- A record as a JSON document. -/
def document (l : Logger) (stamp : Stamp) (r : Record) : JsonValue :=
  .obj ([("timestamp", .str stamp.instant), ("level", .str r.level.name)]
    ++ nonempty "logger" l.component
    ++ [("message", .str r.message)]
    ++ nonempty "caller" (l.place stamp)
    ++ if r.fields.isEmpty then []
      else [("fields", .obj (r.fields.sorted.map fun (key, value) => (key, jsonOf value)))])

/-- A JSON line. A field that JSON has no number for gives a line that says so. -/
def jsonLine (l : Logger) (stamp : Stamp) (r : Record) : String :=
  let document := l.document stamp r
  match document.firstUndefined? with
  | some x =>
    "\x7b\"level\":\"ERROR\",\"message\":\"failed to marshal log entry: "
      ++ JsonValue.undefinedText x ++ "\"\x7d\n"
  | none => document.compact ++ "\n"

/-- The line that a record is written as. -/
def line (l : Logger) (stamp : Stamp) (r : Record) : String :=
  match l.layout with
  | .text => l.textLine stamp r
  | .json => l.jsonLine stamp r

/-- The record is grave enough to be written. -/
def writes (l : Logger) (r : Record) : Bool :=
  l.level.rank ≤ r.level.rank

/-- The line of a call, if there is one. -/
def line? (l : Logger) (stamp : Stamp) (r : Record) : Option String :=
  if l.writes r then some (l.line stamp r) else none

/-! ## Settings -/

/-- The logger with another sink; colour stays only on a terminal. -/
def redirect (l : Logger) (sink : Sink) : Logger :=
  { l with sink, colour := l.colour && sink.terminal }

/-- A logger of the same settings for another part of the program. -/
def forComponent (l : Logger) (component : String) : Logger :=
  { l with component }

/-- The logger with the settings that the environment asks for; a variable that is
not set is empty. -/
def configure (l : Logger) (lookup : String → String) : Logger :=
  let level := lookup "DELAYTABLE_LOG_LEVEL"
  let layout := Text.lower (lookup "DELAYTABLE_LOG_FORMAT")
  { l with
    level := if level = "" then l.level else .ofName level
    layout := if layout = "json" then .json else if layout = "text" then .text else l.layout
    caller := l.caller || lookup "DELAYTABLE_LOG_CALLER" != ""
    colour := l.colour && lookup "NO_COLOR" == "" }

end Logger

end StepTone.Journal
