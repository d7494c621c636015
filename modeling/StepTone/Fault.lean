/-
StepTone.Fault — what can go wrong, with a code, a place and a cause.

A fault is a chain. Each link is either a coded one, which carries a `Label`, or a
plain text; a link may stand on top of the fault that caused it. The text of a
fault reads from the outermost link inwards, and so does the search for a label.

* `Code` — the category of a coded link; six categories concern the configuration.
* `Label` — code, message, section, option and context of a coded link.
* `Fault` — the chain, with `text`, `label?`, `hasCode`, `isConfig`.
* The builders at the end fix the wording of every fault of this library.
-/
import StepTone.Datum

namespace StepTone

/-! ## Codes -/

/-- The category of a coded fault, by its name. -/
structure Code where
  name : String
deriving DecidableEq, Repr

namespace Code

def configFile : Code := ⟨"CONFIG_FILE"⟩
def configSection : Code := ⟨"CONFIG_SECTION"⟩
def configOption : Code := ⟨"CONFIG_OPTION"⟩
def configValidation : Code := ⟨"CONFIG_VALIDATION"⟩
def configType : Code := ⟨"CONFIG_TYPE"⟩
def configDegenerate : Code := ⟨"CONFIG_DEGENERATE"⟩
def tableRange : Code := ⟨"TABLE_RANGE"⟩
def song : Code := ⟨"SONG"⟩
def format : Code := ⟨"FORMAT"⟩
def output : Code := ⟨"OUTPUT"⟩

/-- The categories of configuration faults. -/
def config : List Code :=
  [configFile, configSection, configOption, configValidation, configType, configDegenerate]

/-- Every category in use. -/
def all : List Code :=
  config ++ [tableRange, song, format, output]

end Code

/-! ## Labels -/

/-- The data of a coded link. An empty section or option is absent. -/
structure Label where
  code : Code
  message : String
  sectionName : String := ""
  optionName : String := ""
  context : List (String × Datum) := []

namespace Label

/-- Where the fault lies: section and option with a point between them. -/
def place (l : Label) : String :=
  if l.sectionName = "" then
    if l.optionName = "" then "" else ":" ++ l.optionName
  else
    if l.optionName = "" then ":" ++ l.sectionName
    else ":" ++ l.sectionName ++ "." ++ l.optionName

/-- Code and place between brackets, then the message. -/
def heading (l : Label) : String :=
  "[" ++ l.code.name ++ l.place ++ "] " ++ l.message

/-- The label with a value put into its context; an earlier value of the same
name is replaced. -/
def withContext (l : Label) (key : String) (value : Datum) : Label :=
  { l with context := l.context.filter (·.1 ≠ key) ++ [(key, value)] }

end Label

/-! ## Faults -/

/-- A chain of links, outermost first. -/
inductive Fault where
  /-- A text from outside this library. -/
  | plain (text : String)
  /-- The missing file, which the operating system reports. -/
  | notExist
  /-- A coded fault without a cause. -/
  | coded (label : Label)
  /-- A remark on top of a cause. -/
  | remark (text : String) (cause : Fault)
  /-- A coded fault on top of a cause. -/
  | coding (label : Label) (cause : Fault)

namespace Fault

/-- The whole chain as a text. -/
def text : Fault → String
  | .plain text => text
  | .notExist => "file does not exist"
  | .coded label => label.heading
  | .remark text cause => text ++ ": " ++ cause.text
  | .coding label cause => label.heading ++ ": " ++ cause.text

/-- The label of the outermost coded link. -/
def label? : Fault → Option Label
  | .plain _ | .notExist => none
  | .coded label | .coding label _ => some label
  | .remark _ cause => cause.label?

/-- The fault that the outermost link stands on. -/
def cause? : Fault → Option Fault
  | .remark _ cause | .coding _ cause => some cause
  | _ => none

/-- The outermost coded link has the given code. -/
def hasCode (f : Fault) (code : Code) : Bool :=
  f.label?.any (·.code = code)

/-- The fault concerns the configuration. -/
def isConfig (f : Fault) : Bool :=
  Code.config.any f.hasCode

/-- The chain ends in a missing file. -/
def isNotExist : Fault → Bool
  | .notExist => true
  | .plain _ | .coded _ => false
  | .remark _ cause | .coding _ cause => cause.isNotExist

/-- The fault with the label of its outermost link changed, where that link is
a coded one. -/
def mapLabel (g : Label → Label) : Fault → Fault
  | .coded label => .coded (g label)
  | .coding label cause => .coding (g label) cause
  | f => f

/-- A coded link, on top of a cause if there is one. -/
def ofLabel (label : Label) : Option Fault → Fault
  | none => .coded label
  | some cause => .coding label cause

/-! ## The wording of every fault -/

/-- A profile that cannot be read. -/
def unreadable (path : String) (cause : Option Fault) : Fault :=
  ofLabel (Label.withContext { code := .configFile, message := "unable to load " ++ path }
    "config_path" (.text path)) cause

/-- A malformed line of a profile. -/
def badLine (line : Int) (reason : String) : Fault :=
  .coded (Label.withContext
    { code := .configFile, message := "line " ++ toString line ++ ": " ++ reason }
    "line" (.int (Int64.ofInt line)))

/-- A section that is asked for and not there. -/
def noSection (name : String) : Fault :=
  .coded { code := .configSection, message := "section not found", sectionName := name }

/-- An option that is required and not there. -/
def noOption (sectionName optionName : String) : Fault :=
  .coded { code := .configOption, message := "must be specified", sectionName, optionName }

/-- An option with a value that is not allowed. -/
def invalid (sectionName optionName reason : String) : Fault :=
  .coded { code := .configValidation, message := reason, sectionName, optionName }

/-- An option with a value that is not of the type asked for. -/
def mistyped (sectionName optionName value kind : String) (cause : Option Fault) : Fault :=
  ofLabel { code := .configType, message := "failed to parse '" ++ value ++ "' as " ++ kind,
            sectionName, optionName } cause

/-- A timing constant that is zero or negative. -/
def nonPositive (optionName : String) (value : Int64) : Fault :=
  .coded (Label.withContext
    { code := .configValidation, message := "must be positive, got " ++ toString value.toInt,
      sectionName := "timing", optionName }
    "value" (.int value))

/-- A frequency range without room for a logarithmic ladder. -/
def degenerate (fMin fMax : Float) : Fault :=
  .coded (Label.withContext (Label.withContext
    { code := .configDegenerate,
      message := "frequency ratio f_max/f_min = " ++ Decimal.general fMax ++ "/"
        ++ Decimal.general fMin ++ " is not above 1",
      sectionName := "timing" }
    "f_min" (.real fMin)) "f_max" (.real fMax))

/-- A frequency range too narrow to give a row a frequency of its own. -/
def narrow (fMin fMax : Float) (row : Int64) : Fault :=
  .coded (Label.withContext
    { code := .configDegenerate,
      message := "frequency range " ++ Decimal.general fMin ++ ".." ++ Decimal.general fMax
        ++ " Hz has no distinct frequency at row " ++ toString row.toInt,
      sectionName := "timing" }
    "index" (.int row))

/-- Constants whose cycle count does not fit a word. -/
def cycleOverflow (loopMoves moveCycles haltCycles : Int64) : Fault :=
  .coded (Label.withContext (Label.withContext (Label.withContext
    { code := .configDegenerate, message := "loop cycle count overflows int64",
      sectionName := "timing" }
    "freq_loop_moves" (.int loopMoves)) "move_cycles" (.int moveCycles))
    "halt_cycles" (.int haltCycles))

/-- A row that the table does not have. -/
def outsideTable (row : Int64) : Fault :=
  .coded (Label.withContext
    { code := .tableRange, message := "index " ++ toString row.toInt ++ " outside 0..255" }
    "index" (.int row))

/-- A song that cannot be compiled. -/
def song (message : String) : Fault :=
  .coded { code := .song, message }

/-- A format that is not among the valid ones. -/
def unknownFormat (name : String) (valid : List String) : Fault :=
  .coded { code := .format, message := "unknown format '" ++ name ++ "' (valid: "
    ++ ", ".intercalate valid ++ ")" }

/-- An output that cannot be written. -/
def unwritten (target : String) (cause : Option Fault) : Fault :=
  ofLabel { code := .output, message := "writing " ++ target } cause

end Fault

end StepTone
