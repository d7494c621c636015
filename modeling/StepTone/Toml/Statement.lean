/-
StepTone.Toml.Statement — the lines of a TOML text.

* `Literal` — a value as it is written, with keys still in parts.
* `Statement` — a header of a table, a header of an array of tables, or a key with
  its value.
* `statements` — a text as a list of statements, or nothing if it is malformed.

Readers are as in `Toml.Lexeme`. The readers of nested values carry fuel; every
other call consumes a character, so twice the length of the text is enough.
-/
import StepTone.Toml.Lexeme

namespace StepTone.Toml

/-- A value as it is written. -/
inductive Literal where
  | scalar (v : Value)
  | array (items : List Literal)
  | table (members : List (List String × Literal))

/-- A statement of a text. -/
inductive Statement where
  | table (path : List String)
  | arrayTable (path : List String)
  | assign (path : List String) (value : Literal)

mutual

/-- A value. -/
def literal (fuel : Nat) (text : List Char) : Option (Literal × List Char) :=
  match fuel with
  | 0 => none
  | fuel + 1 =>
    match text.dropWhile isSpace with
    | '[' :: rest => do
      let (items, rest) ← arrayItems fuel rest
      return (.array items, rest)
    | '\x7b' :: rest =>
      match rest.dropWhile isSpace with
      | '\x7d' :: rest => some (.table [], rest)
      | rest => do
        let (members, rest) ← tableMembers fuel rest
        return (.table members, rest)
    | 't' :: 'r' :: 'u' :: 'e' :: rest => some (.scalar (.boolean true), rest)
    | 'f' :: 'a' :: 'l' :: 's' :: 'e' :: rest => some (.scalar (.boolean false), rest)
    | text =>
      ((stringValue text).or (number text)).map fun (v, rest) => (.scalar v, rest)

/-- The items of an array up to its closing bracket. A comma may follow the last
one. -/
def arrayItems (fuel : Nat) (text : List Char) : Option (List Literal × List Char) :=
  match fuel with
  | 0 => none
  | fuel + 1 =>
    match skipFiller false text with
    | ']' :: rest => some ([], rest)
    | text => do
      let (item, rest) ← literal fuel text
      match skipFiller false rest with
      | ',' :: rest =>
        let (items, rest) ← arrayItems fuel rest
        return (item :: items, rest)
      | ']' :: rest => return ([item], rest)
      | _ => none

/-- The members of a table on one line up to its closing brace, at least one. -/
def tableMembers (fuel : Nat) (text : List Char) :
    Option (List (List String × Literal) × List Char) :=
  match fuel with
  | 0 => none
  | fuel + 1 => do
    let (path, rest) ← keyPath text
    match rest with
    | '=' :: rest =>
      let (value, rest) ← literal fuel rest
      match rest.dropWhile isSpace with
      | ',' :: rest =>
        let (members, rest) ← tableMembers fuel rest
        return ((path, value) :: members, rest)
      | '\x7d' :: rest => return ([(path, value)], rest)
      | _ => none
    | _ => none

end

/-- A header after its opening bracket. -/
def header (text : List Char) : Option (Statement × List Char) :=
  match text with
  | '[' :: rest => do
    let (path, rest) ← keyPath rest
    match rest with
    | ']' :: ']' :: rest => return (.arrayTable path, rest)
    | _ => none
  | _ => do
    let (path, rest) ← keyPath text
    match rest with
    | ']' :: rest => return (.table path, rest)
    | _ => none

/-- A key with its value. -/
def assignment (text : List Char) : Option (Statement × List Char) := do
  let (path, rest) ← keyPath text
  match rest with
  | '=' :: rest =>
    let (value, rest) ← literal (2 * rest.length + 2) rest
    return (.assign path value, rest)
  | _ => none

/-- A statement. -/
def statement (text : List Char) : Option (Statement × List Char) :=
  match text with
  | '[' :: rest => header rest
  | _ => assignment text

/-- A statement ends with its line: only blanks and a comment may follow. -/
def endsLine (rest : List Char) : Bool :=
  match rest.dropWhile isSpace with
  | [] => true
  | c :: _ => c = '#' || isLineEnd c

/-- The statements of a text. `fuel` bounds their number. -/
def statementsFrom (fuel : Nat) (text : List Char) : Option (List Statement) :=
  match fuel with
  | 0 => none
  | fuel + 1 =>
    match skipFiller false text with
    | [] => some []
    | text => do
      let (s, rest) ← statement text
      if endsLine rest then return s :: (← statementsFrom fuel rest) else none

/-- The statements of a text; a byte order mark in front does not count. -/
def statements (text : String) : Option (List Statement) :=
  let chars := match text.toList with
    | c :: rest => if c.toNat = 0xfeff then rest else c :: rest
    | [] => []
  if wellFormed chars then statementsFrom (chars.length + 1) chars else none

end StepTone.Toml
