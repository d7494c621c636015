/-
StepTone.Settings.Kind — the kinds of values that options have.

Every option is a text. A kind says how that text is read, and which words a fault
uses for it when it cannot be read.
-/
import StepTone.Fault
import StepTone.Numeral.Integer
import StepTone.Numeral.Real
import StepTone.Text.Blank
import StepTone.Text.Letter
import StepTone.Text.Quoted
import StepTone.Text.Split

namespace StepTone.Settings

/-- A way to read the text of an option: what it is called, and the value or the
cause why there is none. -/
structure Kind (α : Type) where
  name : String
  read : String → Except (Option Fault) α

/-- Why a numeral is not read, in words. -/
def numeralFault (reader text : String) (flaw : Numeral.Flaw) : Fault :=
  .plain ("strconv." ++ reader ++ ": parsing " ++ Text.quoted text ++ ": " ++ flaw.text)

namespace Kind

/-- The text itself. -/
def text : Kind String where
  name := "string"
  read s := .ok s

/-- An integer that counts something. -/
def count : Kind Int64 where
  name := "integer"
  read s := (Numeral.decimal s).mapError fun flaw => some (numeralFault "Atoi" s flaw)

/-- An integer of sixty-four bits. -/
def word : Kind Int64 where
  name := "integer"
  read s := (Numeral.decimal s).mapError fun flaw => some (numeralFault "ParseInt" s flaw)

/-- A double. -/
def real : Kind Float where
  name := "float"
  read s := (Numeral.real s).mapError fun flaw => some (numeralFault "ParseFloat" s flaw)

/-- A truth value, by one of four words for each, in any case. -/
def truth : Kind Bool where
  name := "boolean (true/false/yes/no/on/off/1/0)"
  read s :=
    let key := Text.lower s
    if ["1", "true", "yes", "on"].contains key then .ok true
    else if ["0", "false", "no", "off"].contains key then .ok false
    else .error none

/-- The parts between separators, without blanks around them and without those
that are empty. -/
def list (separator : String) : Kind (List String) where
  name := "list"
  read s := .ok (((Text.split separator s).map Text.trim).filter (· ≠ ""))

end Kind

end StepTone.Settings
