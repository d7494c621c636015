/-
StepTone.Settings.Ini — settings from lines of `[section]` and `key: value`.

A line is cut at the first `#` and trimmed, which also takes off the carriage return
of a line that ends in both. What is left is nothing, a header
between brackets, or an option: a key and a value with the first `:` or `=` between
them, so that a value may hold the other sign. A header opens a block, and closes the
one before it. Blocks of one section are merged, and the last value of an option counts.
Texts are made of Unicode characters; bytes that spell none are outside of the model.

* `Line` — what a line says.
* `LineFault`, `IniFault` — what can be wrong with it, and with the text.
* `Draft` — the blocks that are closed, and the one that is open.
* `ofIni` — the settings of a text, or the first fault.
-/
import StepTone.Settings.Basic

namespace StepTone.Settings

/-! ## Lines -/

/-- What a line says. -/
inductive Line where
  | blank
  | header (name : String)
  | option (key value : String)
deriving DecidableEq, Repr

/-- What can be wrong with a line. -/
inductive LineFault where
  | unterminatedHeader
  | emptyHeader
  /-- An option stands before the first header. -/
  | outsideSection
  /-- There is no separator, or no key in front of it; the text is the trimmed
  line. -/
  | noKey (text : String)
deriving DecidableEq, Repr

/-- The fault in words. -/
def LineFault.text : LineFault → String
  | .unterminatedHeader => "unterminated section header"
  | .emptyHeader => "empty section header"
  | .outsideSection => "option outside of a section"
  | .noKey text => "expected 'key: value', got " ++ Text.quoted text

/-- What counts of a line: the part before the comment, without blanks around it. -/
def content (line : List Char) : List Char :=
  Text.trimChars (line.takeWhile (· ≠ '#'))

/-- A header, given the characters after its opening bracket. -/
def readHeader (inside : List Char) : Except LineFault Line :=
  match inside.reverse with
  | ']' :: name =>
    let name := (Text.trimChars name.reverse).map Text.toLower
    if name.isEmpty then .error .emptyHeader else .ok (.header (String.ofList name))
  | _ => .error .unterminatedHeader

/-- An option, given the content of its line. -/
def readOption (text : List Char) : Except LineFault Line :=
  match Text.cutAt? (fun c => c = ':' || c = '=') text with
  | some (c :: key, value) =>
    .ok (.option (String.ofList (Text.trimChars (c :: key)))
      (String.ofList (Text.trimChars value)))
  | _ => .error (.noKey (String.ofList text))

/-- What a line says; `inSection` tells whether a header stands before it. -/
def readLine (inSection : Bool) (line : List Char) : Except LineFault Line :=
  match content line with
  | [] => .ok .blank
  | '[' :: inside => readHeader inside
  | text => if inSection then readOption text else .error .outsideSection

/-! ## Cutting a text into lines -/

/-- The lines of a text; `line` is the one being read, backwards. The last one
needs no line end. -/
def linesFrom (line : List Char) : List Char → List (List Char)
  | [] => if line.isEmpty then [] else [line.reverse]
  | c :: rest => if c = '\n' then line.reverse :: linesFrom [] rest else linesFrom (c :: line) rest

/-- The number of bytes of a line. -/
def byteLength (line : List Char) : Nat :=
  line.foldr (fun c bytes => c.utf8Size + bytes) 0

/-- The number of bytes from which on a line is not read. -/
def lineLimit : Nat := 65536

/-! ## The whole text -/

/-- What can be wrong with a text. -/
inductive IniFault where
  | line (number : Nat) (fault : LineFault)
  | tooLong
deriving DecidableEq, Repr

/-- The fault as it is reported. -/
def IniFault.toFault : IniFault → Fault
  | .line number fault => .badLine number fault.text
  | .tooLong => .plain "bufio.Scanner: token too long"

/-- A text that is being read: the settings of the blocks that are closed, and name
and options of the block that is open. Names of options in a block are as they stand
in the text. -/
structure Draft where
  settings : Settings := {}
  block : Option (String × Options) := none
deriving DecidableEq, Repr

namespace Draft

/-- The settings once the open block is closed. -/
def close (d : Draft) : Settings :=
  match d.block with
  | some (name, options) => d.settings.add name options
  | none => d.settings

/-- The draft after a line. -/
def take (d : Draft) : Line → Draft
  | .blank => d
  | .header name => { settings := d.close, block := some (name, []) }
  | .option key value =>
    { d with block := d.block.map fun (name, options) => (name, options.put key value) }

end Draft

/-- Takes in the lines from a number on. -/
def takeLines (d : Draft) (number : Nat) : List (List Char) → Except IniFault Settings
  | [] => .ok d.close
  | raw :: rest =>
    if lineLimit ≤ byteLength raw then .error .tooLong
    else
      match readLine d.block.isSome raw with
      | .error fault => .error (.line number fault)
      | .ok line => takeLines (d.take line) (number + 1) rest

/-- The settings of a text. -/
def ofIni (text : String) : Except IniFault Settings :=
  takeLines {} 1 (linesFrom [] text.toList)

end StepTone.Settings
