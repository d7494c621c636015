/-
StepTone.Settings.Basic — sections in order, and which of them were fetched.

Settings are a value. An operation that leaves a trace (fetching a section, reading
an option) gives the settings after it; nothing else about them ever changes.

* `Settings.add` — with a block of options.
* `Settings.fetch` — after a section was fetched.
* `Settings.touch` — after an option of a section was read.
* `Settings.unusedSections`, `checkUnusedSections`, `checkUnusedOptions` — what was
  left out.
* `Reading` — operations on settings that may fail and keep their traces.
-/
import StepTone.Settings.Section

namespace StepTone

/-- Sections in the order they first appeared, and the names of those that were
fetched. -/
structure Settings where
  sections : List Settings.Section := []
  fetched : List String := []
deriving DecidableEq, Repr

namespace Settings

/-- The section with a name. -/
def section? (s : Settings) (name : String) : Option Section :=
  s.sections.find? (·.name = name)

/-- The names of all sections. -/
def names (s : Settings) : List String :=
  s.sections.map (·.name)

/-! ## Building -/

/-- The settings with one section changed. -/
def update (s : Settings) (name : String) (f : Section → Section) : Settings :=
  { s with sections := s.sections.map fun sec => if sec.name = name then f sec else sec }

/-- The settings with a block of options: merged into the section of that name, or as
a new section at the end if there is none. -/
def add (s : Settings) (name : String) (block : Options) : Settings :=
  if (s.section? name).isSome then s.update name (·.merge block)
  else { s with sections := s.sections ++ [Section.merge { name } block] }

/-! ## Traces -/

/-- The settings after the section was fetched. -/
def fetch (s : Settings) (name : String) : Settings :=
  if (s.section? name).isSome ∧ ¬ s.fetched.contains name then
    { s with fetched := s.fetched ++ [name] }
  else s

/-- The settings after an option of a section was read. -/
def touch (s : Settings) (name option : String) : Settings :=
  s.update name (·.touch option)

/-- The sections that were never fetched, in ascending order. -/
def unusedSections (s : Settings) : List String :=
  sorted (s.names.filter fun name => !s.fetched.contains name)

/-- Every section was fetched. -/
def checkUnusedSections (s : Settings) : Except Fault Unit :=
  if s.unusedSections.isEmpty then .ok ()
  else .error (.coded { code := .configSection,
                        message := "unknown sections: " ++ bracketed s.unusedSections })

/-- The fetched sections that have options nobody read, with those options. -/
def leftovers (s : Settings) : List (String × List String) :=
  (s.sections.filter fun sec => s.fetched.contains sec.name && !sec.unused.isEmpty).map
    fun sec => (sec.name, sec.unused)

/-- Every option of a fetched section was read. -/
def checkUnusedOptions (s : Settings) : Except Fault Unit :=
  if s.leftovers.isEmpty then .ok ()
  else .error (.coded { code := .configOption,
                        message := "unknown options " ++ "; ".intercalate
                          (s.leftovers.map fun (name, options) =>
                            "[" ++ name ++ "]: " ++ bracketed options) })

/-! ## Operations that keep their traces -/

/-- An operation on settings; traces stay when it fails. -/
abbrev Reading := ExceptT Fault (StateM Settings)

/-- A check that leaves no trace. -/
def Reading.check (f : Settings → Except Fault Unit) : Reading Unit := do
  match f (← get) with
  | .ok () => return
  | .error fault => throw fault

/-- Fetches a section if there is one. -/
def Reading.fetch? (name : String) : Reading (Option Section) := do
  let found := (← get).section? name
  modify (·.fetch name)
  return found

/-- Fetches a section that has to be there. -/
def Reading.fetch (name : String) : Reading Section := do
  match ← Reading.fetch? name with
  | some sec => return sec
  | none => throw (.noSection name)

/-- Reads an option of a section. -/
def Reading.option {α : Type} (name : String) (kind : Kind α) (option : String)
    (fallback : Option α) : Reading α := do
  match (← get).section? name with
  | none => throw (.noSection name)
  | some sec =>
    modify (·.touch name option)
    match sec.get kind option fallback with
    | .ok a => return a
    | .error fault => throw fault

end Settings

end StepTone
