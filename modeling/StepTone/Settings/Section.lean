/-
StepTone.Settings.Section — a section of options that remembers what was read.

Option names are kept in lower case and asked for in any case. Reading an option
that is there marks it, whether or not its text is of the kind asked for; asking
for one that is not there marks nothing.

* `Options.put`, `Options.merge` — options with one of them set, and with a block of them.
* `Section.get` — the value of an option, of a kind, with an optional fallback.
* `Section.touch` — the section after an option was read.
* `Section.unused` — the options that were never read.
-/
import StepTone.Settings.Kind

namespace StepTone.Settings

/-- Texts in ascending order, by code points. -/
def sorted (texts : List String) : List String :=
  texts.mergeSort fun a b => decide (a ≤ b)

/-- A list of texts inside a sentence. -/
def bracketed (texts : List String) : String :=
  "[" ++ " ".intercalate texts ++ "]"

/-- Texts by name. -/
abbrev Options := List (String × String)

/-- The options with one of them set; an earlier value is replaced where it stands. -/
def Options.put (key value : String) : Options → Options
  | [] => [(key, value)]
  | (k, v) :: rest =>
    if k = key then (key, value) :: rest else (k, v) :: Options.put key value rest

/-- The options with those of a block put in, each under its name in lower case. -/
def Options.merge (options block : Options) : Options :=
  block.foldl (fun options (key, value) => options.put (Text.lower key) value) options

/-- A section: its name, its options, and the names of those that were read. -/
structure Section where
  name : String
  options : Options := []
  touched : List String := []
deriving DecidableEq, Repr

namespace Section

/-- The text of an option without blanks around it. -/
def value? (s : Section) (option : String) : Option String :=
  (s.options.lookup (Text.lower option)).map Text.trim

/-- The section after an option was read. -/
def touch (s : Section) (option : String) : Section :=
  let key := Text.lower option
  if (s.options.lookup key).isSome ∧ ¬ s.touched.contains key then
    { s with touched := s.touched ++ [key] }
  else s

/-- The section with a block of options put in. -/
def merge (s : Section) (block : Options) : Section :=
  { s with options := s.options.merge block }

/-- The value of an option; the fallback when it is absent, and a fault when there
is no fallback either. -/
def get {α : Type} (s : Section) (kind : Kind α) (option : String) (fallback : Option α) :
    Except Fault α :=
  match s.value? option with
  | some text =>
    match kind.read text with
    | .ok a => .ok a
    | .error cause => .error (.mistyped s.name option text kind.name cause)
  | none =>
    match fallback with
    | some a => .ok a
    | none => .error (.noOption s.name option)

/-- The options that were never read, in ascending order. -/
def unused (s : Section) : List String :=
  sorted ((s.options.map (·.1)).filter fun key => !s.touched.contains key)

end Section

end StepTone.Settings
