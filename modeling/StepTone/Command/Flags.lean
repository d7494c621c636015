/-
StepTone.Command.Flags — the arguments of the command.

A flag is written `-x value`, `--x value` or `-x=value`; a switch stands alone or has
its value behind `=`. Flags end at the first other argument or after `--`. A flag
that is given twice counts with its last value.

* `Flag` — the flags that there are, with the words that explain them.
* `Flags` — the values that were given.
* `Flags.parse` — from a list of arguments; `Misuse` says what is wrong with it.
* `Flags.apply` — a profile with the given values in place of its own.
-/
import StepTone.Profile

namespace StepTone.Command

open Table (Width Encoding)

/-! ## Flags -/

/-- The flags of the command. -/
inductive Flag where
  | bits
  | chart
  | config
  | encoding
  | format
  | logLevel
  | name
  | noSummary
  | out
  | perLine
deriving DecidableEq, Repr

namespace Flag

/-- All flags, in the order they are explained. -/
def all : List Flag :=
  [.bits, .chart, .config, .encoding, .format, .logLevel, .name, .noSummary, .out, .perLine]

/-- How a flag is written. -/
def word : Flag → String
  | .bits => "bits"
  | .chart => "chart"
  | .config => "config"
  | .encoding => "encoding"
  | .format => "format"
  | .logLevel => "log-level"
  | .name => "name"
  | .noSummary => "no-summary"
  | .out => "out"
  | .perLine => "per-line"

/-- The flag that is written so. -/
def ofWord? (word : String) : Option Flag :=
  all.find? (·.word = word)

/-- What the value of a flag is called; a switch needs none. -/
def valueName : Flag → String
  | .bits | .perLine => " int"
  | .noSummary => ""
  | _ => " string"

/-- What a flag is for. -/
def help : Flag → String
  | .bits => "Register width, 8 or 16 (default 8)"
  | .chart => "Also write an HTML chart of the table"
  | .config => "Profile file (.cfg INI style or .toml)"
  | .encoding => "direct or inverted (default \"direct\")"
  | .format => "Output format: bytes, gpram, c, go, csv, json (default \"bytes\")"
  | .logLevel => "DEBUG, INFO, WARN or ERROR"
  | .name => "Array name for c/go output (default \"delay_table\")"
  | .noSummary => "Omit the T/F summary lines"
  | .out => "Output file (default: stdout)"
  | .perLine => "Values per row (default 16)"

end Flag

/-- The explanation of all flags. -/
def usage : String :=
  "Usage of delay-table:\n" ++ String.join (Flag.all.map fun flag =>
    "  -" ++ flag.word ++ flag.valueName ++ "\n    \t" ++ flag.help ++ "\n")

/-! ## Values -/

/-- What is wrong with a list of arguments. -/
inductive Misuse where
  /-- Nothing is wrong: the explanation is asked for. -/
  | help
  | malformed (argument : String)
  | undefined (word : String)
  | needsValue (flag : Flag)
  | badValue (flag : Flag) (value : String) (flaw : Numeral.Flaw)
  | badSwitch (flag : Flag) (value : String)
  /-- Arguments are left over after the flags. -/
  | unexpected (arguments : List String)
deriving DecidableEq, Repr

/-- Why a number is not accepted. -/
def flawText : Numeral.Flaw → String
  | .malformed => "parse error"
  | .outOfRange => "value out of range"

/-- The fault in words. -/
def Misuse.text : Misuse → String
  | .help => ""
  | .malformed argument => "bad flag syntax: " ++ argument ++ "\n"
  | .undefined word => "flag provided but not defined: -" ++ word ++ "\n"
  | .needsValue flag => "flag needs an argument: -" ++ flag.word ++ "\n"
  | .badValue flag value flaw =>
    "invalid value " ++ Text.quoted value ++ " for flag -" ++ flag.word ++ ": " ++ flawText flaw ++ "\n"
  | .badSwitch flag value =>
    "invalid boolean value " ++ Text.quoted value ++ " for -" ++ flag.word ++ ": parse error\n"
  | .unexpected arguments => "unexpected arguments: " ++ Settings.bracketed arguments ++ "\n"

/-- The values of flags. A flag that replaces a value of the profile tells whether
it was given; for the others an empty text means the same as no flag. -/
structure Flags where
  bits : Option Int64 := none
  chart : String := ""
  config : String := ""
  encoding : Option String := none
  format : Option String := none
  logLevel : String := ""
  name : Option String := none
  noSummary : Option Bool := none
  out : String := ""
  perLine : Option Int64 := none
deriving DecidableEq, Repr

/-- The value of a switch. -/
def switch? (value : String) : Option Bool :=
  if ["1", "t", "T", "true", "TRUE", "True"].contains value then some true
  else if ["0", "f", "F", "false", "FALSE", "False"].contains value then some false
  else none

namespace Flags

/-- The flags with the value of one set. -/
def set (f : Flags) (flag : Flag) (value : String) : Except Misuse Flags :=
  let number : Except Misuse Int64 := (Numeral.anyBase value).mapError (.badValue flag value)
  match flag with
  | .bits => return { f with bits := some (← number) }
  | .chart => return { f with chart := value }
  | .config => return { f with config := value }
  | .encoding => return { f with encoding := some value }
  | .format => return { f with format := some value }
  | .logLevel => return { f with logLevel := value }
  | .name => return { f with name := some value }
  | .noSummary =>
    match switch? value with
    | some on => return { f with noSummary := some on }
    | none => throw (.badSwitch flag value)
  | .out => return { f with out := value }
  | .perLine => return { f with perLine := some (← number) }

end Flags

/-! ## Arguments -/

/-- What an argument is. -/
inductive Argument where
  /-- No flag. -/
  | other
  /-- The end of the flags. -/
  | terminator
  | malformed
  /-- A flag, with a value if it has one behind `=`. -/
  | flag (word : String) (value : Option String)
deriving DecidableEq, Repr

/-- A flag, given the characters after its hyphens. -/
def Argument.ofBody : List Char → Argument
  | [] => .malformed
  | c :: rest =>
    if c = '-' ∨ c = '=' then .malformed
    else
      match Text.cutAt? (· = '=') rest with
      | some (word, value) => .flag (String.ofList (c :: word)) (some (String.ofList value))
      | none => .flag (String.ofList (c :: rest)) none

/-- What an argument is. -/
def Argument.ofString (text : String) : Argument :=
  match text.toList with
  | ['-', '-'] => .terminator
  | '-' :: '-' :: body => .ofBody body
  | '-' :: c :: body => .ofBody (c :: body)
  | _ => .other

namespace Flags

/-- The flags at the start of the arguments, and the arguments after them. -/
def take (f : Flags) : List String → Except Misuse (Flags × List String)
  | [] => .ok (f, [])
  | argument :: rest =>
    match Argument.ofString argument with
    | .other => .ok (f, argument :: rest)
    | .terminator => .ok (f, rest)
    | .malformed => .error (.malformed argument)
    | .flag word value =>
      match Flag.ofWord? word with
      | none => .error (if word = "help" ∨ word = "h" then .help else .undefined word)
      | some flag =>
        match flag, value, rest with
        | .noSummary, value, rest => do (← f.set .noSummary (value.getD "true")).take rest
        | flag, some value, rest => do (← f.set flag value).take rest
        | flag, none, value :: rest => do (← f.set flag value).take rest
        | flag, none, [] => .error (.needsValue flag)
termination_by arguments => arguments.length

/-- The flags of a list of arguments. -/
def parse (arguments : List String) : Except Misuse Flags :=
  match take {} arguments with
  | .error misuse => .error misuse
  | .ok (f, []) => .ok f
  | .ok (_, rest) => .error (.unexpected rest)

/-! ## Flags over a profile -/

/-- The profile with the given values in place of its own. The first value that is
not allowed is reported, in the order below. -/
def apply (f : Flags) (p : Profile) : Except Fault Profile := do
  let format ← match f.format with
    | some name => Listing.Format.ofName name
    | none => pure p.output.format
  let name ← match f.name with
    | some name => do Listing.checkName name; pure name
    | none => pure p.output.name
  let perLine ← match f.perLine with
    | some n => if n ≤ 0 then throw (Profile.badPerLine n) else pure n
    | none => pure p.output.perLine
  let summary := match f.noSummary with
    | some off => !off
    | none => p.output.summary
  let width ← match f.bits with
    | some bits => Width.ofBits bits
    | none => pure p.table.width
  let encoding ← match f.encoding with
    | some name => Encoding.ofName name
    | none => pure p.table.encoding
  return { p with
    output := { format, name, perLine, summary }
    table := { width, encoding } }

end Flags

end StepTone.Command
