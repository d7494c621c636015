/-
StepTone.Journal.Level — how grave a record is.

Levels are ordered by rank. Four ranks have names; a threshold may have any rank,
below the first to let every record pass, above the last to let none.
-/
import StepTone.Text.Blank
import StepTone.Text.Letter

namespace StepTone.Journal

/-- The gravity of a record, or the least one that a logger writes. -/
structure Level where
  rank : Int
deriving DecidableEq, Repr

namespace Level

def debug : Level := ⟨0⟩
def info : Level := ⟨1⟩
def warn : Level := ⟨2⟩
def error : Level := ⟨3⟩

/-- The name of a level. -/
def name (l : Level) : String :=
  if l = debug then "DEBUG"
  else if l = info then "INFO"
  else if l = warn then "WARN"
  else if l = error then "ERROR"
  else "UNKNOWN"

/-- The level with the given name, whatever its case and the blanks around it; any
other name is the usual level. -/
def ofName (name : String) : Level :=
  let key := Text.upper (Text.trim name)
  if key = "DEBUG" then debug
  else if key = "WARN" ∨ key = "WARNING" then warn
  else if key = "ERROR" then error
  else info

/-- What switches a terminal to the colour of a level. -/
def colour (l : Level) : String :=
  if l = debug then "\x1b[36m"
  else if l = info then "\x1b[32m"
  else if l = warn then "\x1b[33m"
  else if l = error then "\x1b[31m"
  else ""

/-- What switches a terminal back to its usual colour. -/
def colourEnd : String := "\x1b[0m"

end Level

end StepTone.Journal
