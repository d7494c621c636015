/-
StepTone.Toml.Lexeme — keys, strings and numbers of a TOML text.

Every reader takes the characters from its first one on and gives what it read with
the characters after it, or nothing if the text is malformed there.

* `basicString`, `literalString` — strings on one line.
* `multilineBody`, `unfold` — strings over several lines.
* `keyPath` — bare or quoted keys with points between them.
* `number` — integers, floats and moments.
-/
import StepTone.Numeral.Integer
import StepTone.Numeral.Real
import StepTone.Text.Blank
import StepTone.Toml.Value

namespace StepTone.Toml

/-! ## Characters -/

/-- A blank or a tab. -/
def isSpace (c : Char) : Bool :=
  c = ' ' || c = '\t'

/-- A line end; a carriage return occurs only in front of a line feed. -/
def isLineEnd (c : Char) : Bool :=
  c = '\n' || c = '\r'

/-- A character of a bare key. -/
def isBareKey (c : Char) : Bool :=
  c.isAlphanum || c = '_' || c = '-'

/-- No control character occurs but tabs and line ends, and every carriage return
stands in front of a line feed. -/
def wellFormed : List Char → Bool
  | [] => true
  | '\r' :: rest => rest.head? = some '\n' && wellFormed rest
  | c :: rest =>
    (c = '\t' || c = '\n' || (0x20 ≤ c.toNat && c.toNat ≠ 0x7f)) && wellFormed rest

/-- Skips blanks, line ends and comments; `comment` tells whether a comment has
begun. -/
def skipFiller (comment : Bool) : List Char → List Char
  | [] => []
  | c :: rest =>
    if isLineEnd c then skipFiller false rest
    else if comment then skipFiller true rest
    else if isSpace c then skipFiller false rest
    else if c = '#' then skipFiller true rest
    else c :: rest

/-! ## Strings -/

/-- The value of a run of hexadecimal digits as a character. -/
def codePoint? (digits : List Char) : Option Char := do
  let values ← digits.mapM (Numeral.digitIn? 16)
  let n := values.foldl (fun n d => 16 * n + d) 0
  if n.isValidChar then some (Char.ofNat n) else none

/-- The character that a letter after a backslash stands for. -/
def escape? : Char → Option Char
  | 'b' => some '\x08'
  | 't' => some '\t'
  | 'n' => some '\n'
  | 'f' => some '\x0c'
  | 'r' => some '\r'
  | '"' => some '"'
  | '\\' => some '\\'
  | _ => none

/-- A string with escapes on one line, after its opening quote; `read` holds what
was read, backwards. -/
def basicString (read : List Char) : List Char → Option (List Char × List Char)
  | [] => none
  | '"' :: rest => some (read.reverse, rest)
  | '\\' :: 'u' :: a :: b :: c :: d :: rest => do
    basicString ((← codePoint? [a, b, c, d]) :: read) rest
  | '\\' :: 'U' :: a :: b :: c :: d :: e :: f :: g :: h :: rest => do
    basicString ((← codePoint? [a, b, c, d, e, f, g, h]) :: read) rest
  | '\\' :: c :: rest => do basicString ((← escape? c) :: read) rest
  | c :: rest => if c = '\\' || isLineEnd c then none else basicString (c :: read) rest

/-- A string without escapes on one line, after its opening quote. -/
def literalString (read : List Char) : List Char → Option (List Char × List Char)
  | [] => none
  | '\'' :: rest => some (read.reverse, rest)
  | c :: rest => if isLineEnd c then none else literalString (c :: read) rest

/-- The body of a string over several lines, after its three opening quotes, up to
the three closing ones. Up to two quotes may stand right before those; with
`escapes`, a backslash takes the next character along, and a third quote is let pass
when a backslash stands in front. -/
def multilineBody (quote : Char) (escapes : Bool) (read : List Char) :
    List Char → Option (List Char × List Char)
  | [] => none
  | c :: rest =>
    if escapes && c = '\\' then
      match rest with
      | [] => none
      | d :: rest => multilineBody quote escapes (d :: c :: read) rest
    else if c = quote && rest.take 2 = [quote, quote] then
      if (rest.drop 2).head? = some quote then
        if read.take 2 = [quote, quote] && !(escapes && read[2]? = some '\\') then none
        else multilineBody quote escapes (c :: read) rest
      else some (read.reverse, rest.drop 2)
    else multilineBody quote escapes (c :: read) rest

/-- A body without the line end right after the opening quotes. -/
def dropFirstLineEnd : List Char → List Char
  | '\n' :: rest => rest
  | '\r' :: '\n' :: rest => rest
  | body => body

/-- Resolves the escapes of a body over several lines. A backslash at the end of a
line takes away all blanks and line ends up to the next character; `skipping` tells
that one has been seen. -/
def unfold (skipping : Bool) (read : List Char) : List Char → Option (List Char)
  | [] => some read.reverse
  | '\\' :: 'u' :: a :: b :: c :: d :: rest => do
    unfold false ((← codePoint? [a, b, c, d]) :: read) rest
  | '\\' :: 'U' :: a :: b :: c :: d :: e :: f :: g :: h :: rest => do
    unfold false ((← codePoint? [a, b, c, d, e, f, g, h]) :: read) rest
  | '\\' :: c :: rest =>
    if isSpace c || isLineEnd c then
      if ((c :: rest).takeWhile fun d => isSpace d || isLineEnd d).contains '\n' then
        unfold true read rest
      else none
    else do unfold false ((← escape? c) :: read) rest
  | c :: rest =>
    if skipping && (isSpace c || isLineEnd c) then unfold true read rest
    else if c = '\\' then none
    else unfold false (c :: read) rest

/-- A string value, from its opening quote on. -/
def stringValue : List Char → Option (Value × List Char)
  | '"' :: '"' :: '"' :: rest => do
    let (body, rest) ← multilineBody '"' true [] rest
    let text ← unfold false [] (dropFirstLineEnd body)
    return (.string (String.ofList text), rest)
  | '"' :: rest => do
    let (text, rest) ← basicString [] rest
    return (.string (String.ofList text), rest)
  | '\'' :: '\'' :: '\'' :: rest => do
    let (body, rest) ← multilineBody '\'' false [] rest
    return (.string (String.ofList (dropFirstLineEnd body)), rest)
  | '\'' :: rest => do
    let (text, rest) ← literalString [] rest
    return (.string (String.ofList text), rest)
  | _ => none

/-! ## Keys -/

/-- One part of a key: bare or quoted. -/
def keyPart : List Char → Option (String × List Char)
  | '"' :: rest => do
    let (text, rest) ← basicString [] rest
    return (String.ofList text, rest)
  | '\'' :: rest => do
    let (text, rest) ← literalString [] rest
    return (String.ofList text, rest)
  | text =>
    let name := text.takeWhile isBareKey
    if name.isEmpty then none else some (String.ofList name, text.dropWhile isBareKey)

/-- Parts of a key with points between them, and blanks around those. `fuel` bounds
the number of parts. -/
def keyParts (fuel : Nat) (text : List Char) : Option (List String × List Char) :=
  match fuel with
  | 0 => none
  | fuel + 1 => do
    let (part, rest) ← keyPart (text.dropWhile isSpace)
    match rest.dropWhile isSpace with
    | '.' :: rest =>
      let (parts, rest) ← keyParts fuel rest
      return (part :: parts, rest)
    | rest => return ([part], rest)

/-- A key. -/
def keyPath (text : List Char) : Option (List String × List Char) :=
  keyParts (text.length + 1) text

/-! ## Numbers -/

/-- Every underscore follows a hexadecimal digit, and the last character is one. -/
def underscoresFit (digit : Bool) : List Char → Bool
  | [] => digit
  | c :: rest =>
    (c ≠ '_' || digit) && underscoresFit ((Numeral.digitIn? 16 c).isSome) rest

/-- The digits start with a zero that is not the only one and marks no base. -/
def hasLeadingZero : List Char → Bool
  | '0' :: c :: _ => c ≠ 'b' && c ≠ 'o' && c ≠ 'x'
  | '+' :: '0' :: _ :: _ | '-' :: '0' :: _ :: _ => true
  | _ => false

/-- An integer from its characters. -/
def integer? (text : List Char) : Option Value :=
  if !underscoresFit false text || hasLeadingZero text then none
  else (Numeral.anyBase (String.ofList text)).toOption.map .integer

/-- Every point is followed by a digit. -/
def pointsFit : List Char → Bool
  | [] => true
  | '.' :: rest => (rest.head?.any Char.isDigit) && pointsFit rest
  | _ :: rest => pointsFit rest

/-- The parts of a float between its point and the letter of its exponent, without
empty ones; `part` is the one being read, backwards. -/
def floatParts (part : List Char) : List Char → List (List Char)
  | [] => if part.isEmpty then [] else [part.reverse]
  | c :: rest =>
    if c = '.' || c = 'e' || c = 'E' then
      if part.isEmpty then floatParts [] rest else part.reverse :: floatParts [] rest
    else floatParts (c :: part) rest

/-- A float from its characters. -/
def float? (text : List Char) : Option Value :=
  let parts := floatParts [] text
  if !(parts.all (underscoresFit false)) || (parts.head?.any hasLeadingZero) || !pointsFit text then
    none
  else
    (Numeral.real (String.ofList (text.filter (· ≠ '_')))).toOption.map .float

/-- A character of a float after its first digits. -/
def isFloatChar (c : Char) : Bool :=
  c.isDigit || c = '_' || c = '.' || c = '-' || c = '+' || c = 'e' || c = 'E'

/-- A character of a moment. -/
def isMomentChar (c : Char) : Bool :=
  c.isDigit || c = '-' || c = ':' || c = 'T' || c = 't' || c = ' ' || c = '.' || c = 'Z'
    || c = 'z' || c = '+'

/-- An integer or a float after its sign; `text` begins with its first digit. -/
def decimalNumber (sign : List Char) (text : List Char) : Option (Value × List Char) :=
  let digits := text.takeWhile fun c => c.isDigit || c = '_'
  let rest := text.dropWhile fun c => c.isDigit || c = '_'
  match rest with
  | c :: _ =>
    if c = '.' || c = 'e' || c = 'E' then do
      let value ← float? (sign ++ digits ++ rest.takeWhile isFloatChar)
      return (value, rest.dropWhile isFloatChar)
    else (integer? (sign ++ digits)).map (·, rest)
  | [] => (integer? (sign ++ digits)).map (·, rest)

/-- An integer after the mark of its base. -/
def baseNumber (mark : Char) (base : Nat) (text : List Char) : Option (Value × List Char) :=
  let isDigit (c : Char) : Bool := (Numeral.digitIn? base c).isSome
  if text.head?.any isDigit then
    let digits := text.takeWhile fun c => isDigit c || c = '_'
    (integer? ('0' :: mark :: digits)).map (·, text.dropWhile fun c => isDigit c || c = '_')
  else none

/-- A number or a moment that begins with a digit. -/
def unsignedNumber (text : List Char) : Option (Value × List Char) :=
  match text with
  | '0' :: 'b' :: rest => baseNumber 'b' 2 rest
  | '0' :: 'o' :: rest => baseNumber 'o' 8 rest
  | '0' :: 'x' :: rest => baseNumber 'x' 16 rest
  | _ =>
    match text.dropWhile Char.isDigit with
    | c :: _ =>
      if c = '-' || c = ':' then do
        let m ← Moment.ofChars? (Text.trimEnd (text.takeWhile isMomentChar))
        return (.moment m, text.dropWhile isMomentChar)
      else decimalNumber [] text
    | [] => decimalNumber [] text

/-- The infinities and the undefined double, by their words. -/
def wordNumber (negative : Bool) : List Char → Option (Value × List Char)
  | 'i' :: 'n' :: 'f' :: rest => some (.float (if negative then -1.0 / 0.0 else 1.0 / 0.0), rest)
  | 'n' :: 'a' :: 'n' :: rest => some (.float (0.0 / 0.0), rest)
  | _ => none

/-- A number or a moment. -/
def number (text : List Char) : Option (Value × List Char) :=
  match text with
  | [] => none
  | c :: rest =>
    if c.isDigit then unsignedNumber text
    else if c = '+' || c = '-' then
      match rest with
      | d :: _ => if d.isDigit then decimalNumber [c] rest else wordNumber (c = '-') rest
      | [] => none
    else wordNumber false text

end StepTone.Toml
