/-
StepTone.Journal.Family — loggers that descend from one, and what they write.

Every logger of a family has a name and settings of its own. A logger derived from
another starts with the settings the other one has at that moment; from then on
neither follows the other.

* `Change` — a setting of one logger.
* `Action` — what can be done with a family.
* `Entry` — a call in the making; it names its logger and holds none of its settings.
* `Family.step`, `Family.run` — the family after actions, and the lines written.
-/
import StepTone.Journal.Logger

namespace StepTone.Journal

/-- A change of the settings of one logger. -/
inductive Change where
  | level (level : Level)
  | layout (layout : Layout)
  | colour (on : Bool)
  | caller (on : Bool)
  | sink (sink : Sink)
  | environment (lookup : String → String)

/-- The logger after a change. -/
def Change.apply (l : Logger) : Change → Logger
  | .level least => { l with level := least }
  | .layout form => { l with layout := form }
  | .colour on => { l with colour := on }
  | .caller on => { l with caller := on }
  | .sink target => l.redirect target
  | .environment lookup => l.configure lookup

/-- What can be done with a family, by the name of a logger. -/
inductive Action where
  | derive (parent child component : String)
  | change (logger : String) (change : Change)
  | log (logger : String) (stamp : Stamp) (record : Record)

/-- A call in the making: the logger that will write it, and the fields it carries. -/
structure Entry where
  logger : String
  fields : Fields := {}

namespace Entry

/-- The entry with one field more. -/
def withField (e : Entry) (key : String) (value : Datum) : Entry :=
  { e with fields := e.fields.set key value }

/-- The entry with more fields. -/
def withFields (e : Entry) (fields : Fields) : Entry :=
  { e with fields := e.fields.merge fields }

/-- The entry with the text of an error. -/
def withError (e : Entry) (text : String) : Entry :=
  { e with fields := e.fields.withError text }

/-- The call that an entry ends in. -/
def log (e : Entry) (stamp : Stamp) (level : Level) (message : String) : Action :=
  .log e.logger stamp { level, message, fields := e.fields }

end Entry

/-- A line and the name of the sink that it went to. -/
structure Written where
  sink : String
  line : String
deriving DecidableEq, Repr

/-- Loggers by name. -/
structure Family where
  members : List (String × Logger)

namespace Family

/-- The family of one logger. -/
def ofLogger (name : String) (l : Logger) : Family :=
  ⟨[(name, l)]⟩

/-- The logger with a name. -/
def get? (f : Family) (name : String) : Option Logger :=
  f.members.lookup name

/-- The family with a logger under a name; an earlier one is replaced. -/
def set (f : Family) (name : String) (l : Logger) : Family :=
  ⟨(name, l) :: f.members.filter (·.1 ≠ name)⟩

/-- The family after an action, and what was written. An action on a logger that is
not in the family does nothing. -/
def step (f : Family) : Action → Family × List Written
  | .derive parent child component =>
    match f.get? parent with
    | some l => (f.set child (l.forComponent component), [])
    | none => (f, [])
  | .change name c =>
    match f.get? name with
    | some l => (f.set name (c.apply l), [])
    | none => (f, [])
  | .log name stamp record =>
    match f.get? name with
    | some l => (f, (l.line? stamp record).toList.map fun line => ⟨l.sink.name, line⟩)
    | none => (f, [])

/-- The family after a list of actions, and what was written, in order. -/
def run (f : Family) : List Action → Family × List Written
  | [] => (f, [])
  | a :: rest =>
    let (f, written) := f.step a
    let (f, more) := f.run rest
    (f, written ++ more)

end Family

end StepTone.Journal
