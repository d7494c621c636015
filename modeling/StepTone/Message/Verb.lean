/-
StepTone.Message.Verb — a value as a directive writes it.

A verb says how a value is written: `d` an integer in tens, `x` in sixteens, `f` a
number with places, `s` a text, `q` a quoted text, `v` any value in its usual form.
A verb that the value has no form for leaves a remark in its place that names the
verb, the type and the value.

* `integer`, `real`, `text` — the forms of each type.
* `write` — any value by any verb.
-/
import StepTone.Datum
import StepTone.Message.Template
import StepTone.Text.Quoted

namespace StepTone.Message

/-! ## Integers -/

/-- Characters with hexadecimal digits and marks in capitals. -/
def capitals (chars : List Char) : List Char :=
  chars.map Char.toUpper

/-- The mark of a base in front of digits. -/
def baseMark (base : Nat) (digits : List Char) : List Char :=
  match base with
  | 2 => ['0', 'b']
  | 8 => if digits.head? = some '0' then [] else ['0']
  | 16 => ['0', 'x']
  | _ => []

/-- An integer in a base. The precision is the least number of digits, and zero
padding counts as one; an absent number of no digits is empty. -/
def integer (s : Style) (base : Nat) (n : Int) : List Char :=
  if s.precision = some 0 ∧ n = 0 then s.padBlank []
  else
    let sign := s.sign (n < 0)
    let least := match s.precision with
      | some digits => digits
      | none => if s.padsZeros then s.width.getD 0 - sign.length else 0
    let digits := Nat.toDigits base n.natAbs
    let digits := List.replicate (least - digits.length) '0' ++ digits
    s.padBlank (sign ++ (if s.sharp then baseMark base digits else []) ++ digits)

/-- An integer in eights behind a mark of its own. -/
def markedOctal (s : Style) (n : Int) : List Char :=
  if s.precision = some 0 ∧ n = 0 then s.padBlank []
  else
    let unpadded := { s with width := none, plus := false, space := false }
    let sign := s.sign (n < 0)
    let least := if s.precision.isNone ∧ s.padsZeros then some (max 1 (s.width.getD 0 - sign.length))
      else s.precision
    s.padBlank (sign ++ '0' :: 'o' :: integer { unpadded with precision := least } 8 n.natAbs)

/-- The character with a code point; the replacement character if there is none. -/
def charOf (n : Int) : Char :=
  if 0 ≤ n ∧ n.toNat.isValidChar then Char.ofNat n.toNat else '�'

/-- Only ASCII characters are shown as they are. -/
def asciiChar (c : Char) : List Char :=
  if c.toNat < 0x80 then Text.quotedChar c
  else if c.toNat < 0x10000 then '\\' :: 'u' :: Text.hex 4 c.toNat
  else '\\' :: 'U' :: Text.hex 8 c.toNat

/-- A character between single quotes. -/
def quotedLetter (s : Style) (c : Char) : List Char :=
  let inner := match c with
    | '\'' => ['\\', '\'']
    | '"' => ['"']
    | _ => if s.plus then asciiChar c else Text.quotedChar c
  '\'' :: (inner ++ ['\''])

/-- A code point in the notation of the Unicode standard. -/
def codePoint (s : Style) (n : Int64) : List Char :=
  let digits := capitals (Text.hex (max 4 (s.precision.getD 4)) n.toUInt64.toNat)
  let shown := if s.sharp ∧ 0 ≤ n.toInt ∧ n.toInt.toNat.isValidChar
      ∧ Text.isPrintable (charOf n.toInt) then
    [' ', '\'', charOf n.toInt, '\''] else []
  s.padBlank ('U' :: '+' :: (digits ++ shown))

/-- An integer by a verb. -/
def integerBy? (s : Style) (verb : Char) (n : Int64) : Option (List Char) :=
  match verb with
  | 'v' | 'd' => some (integer s 10 n.toInt)
  | 'b' => some (integer s 2 n.toInt)
  | 'o' => some (integer s 8 n.toInt)
  | 'O' => some (markedOctal s n.toInt)
  | 'x' => some (integer s 16 n.toInt)
  | 'X' => some (capitals (integer s 16 n.toInt))
  | 'c' => some (s.pad [charOf n.toInt])
  | 'q' => some (s.pad (quotedLetter s (charOf n.toInt)))
  | 'U' => some (codePoint s n)
  | _ => none

/-! ## Doubles -/

/-- `m · 2^q` as a hexadecimal fraction with a power of two. -/
def hexFraction (places : Option Nat) (m : Nat) (q : Int) : List Char :=
  let top : Nat := Nat.pow 2 60
  let exponent := if m = 0 then 0 else q + m.log2
  let lead := if m = 0 then 0 else m * Nat.pow 2 (60 - m.log2)
  let (lead, exponent) := match places with
    | some p =>
      if p < 15 then
        let unit := Nat.pow 2 (60 - 4 * p)
        let rounded := Binary64.roundHalfEven lead unit * unit
        if 2 * top ≤ rounded then (rounded / 2, exponent + 1) else (rounded, exponent)
      else (lead, exponent)
    | none => (lead, exponent)
  let digits := Text.hex 15 (lead % top)
  let digits := match places with
    | some p => digits.take p ++ List.replicate (p - 15) '0'
    | none => (digits.reverse.dropWhile (· = '0')).reverse
  let point := if digits.isEmpty then [] else '.' :: digits
  ['0', 'x', if top ≤ lead then '1' else '0'] ++ point
    ++ 'p' :: (if exponent < 0 then '-' else '+') :: Decimal.padded 2 exponent.natAbs

/-- `m · 2^q` as the two integers. -/
def binaryParts (m : Nat) (q : Int) : List Char :=
  Nat.toDigits 10 m ++ 'p' :: (if q < 0 then '-' else '+') :: Nat.toDigits 10 q.natAbs

/-- A double by a verb, without padding and without a plus sign of its own. -/
def realBody? (verb : Char) (places : Option Nat) (x : Float) : Option String :=
  match verb with
  | 'v' | 'g' | 'G' =>
    some (match places with
      | some n => Decimal.rounded n x
      | none => Decimal.general x)
  | 'e' | 'E' => some (Decimal.scientific (places.getD 6) x)
  | 'f' | 'F' => some (Decimal.fixed (places.getD 6) x)
  | 'x' | 'X' => some (Decimal.write (hexFraction places) x)
  | 'b' => some (Decimal.write binaryParts x)
  | _ => none

/-- The digits of a number with a point after them and zeros up to the number of
digits asked for; what follows a mark of an exponent stays behind them. -/
def pointedBody (wanted : Nat) (isMark : Char → Bool) (body : List Char) : List Char :=
  let digits := body.takeWhile (!isMark ·)
  let rest := body.dropWhile (!isMark ·)
  let counted := ((digits.filter (· ≠ '.')).dropWhile (· = '0')).length
  let counted := if digits = ['0'] then 1 else counted
  (if digits.contains '.' then digits else digits ++ ['.'])
    ++ List.replicate (wanted - counted) '0' ++ rest

/-- A double by a verb. Only digits are padded with zeros. -/
def realBy? (s : Style) (verb : Char) (x : Float) : Option (List Char) :=
  (realBody? verb s.precision x).map fun body =>
    let chars := body.toList
    let (negative, digits) := match chars with
      | '-' :: rest => (true, rest)
      | '+' :: rest => (false, rest)
      | _ => (false, chars)
    if Binary64.isFinite x then
      let digits := if ['E', 'G', 'X'].contains verb then capitals digits else digits
      let isMark (c : Char) : Bool :=
        c = 'p' || c = 'P' || (verb ≠ 'x' && verb ≠ 'X' && (c = 'e' || c = 'E'))
      let wanted := if ['v', 'g', 'G', 'x', 'X'].contains verb then s.precision.getD 6 else 0
      let digits := if s.sharp ∧ verb ≠ 'b' then pointedBody wanted isMark digits else digits
      let sign := s.sign negative
      if s.padsZeros ∧ ¬ sign.isEmpty then
        sign ++ Style.pad { s with width := s.width.map (· - sign.length) } digits
      else s.pad (sign ++ digits)
    else
      let sign := if s.sign negative = [] ∧ digits = ['I', 'n', 'f'] then ['+'] else s.sign negative
      s.padBlank (sign ++ digits)

/-! ## Texts -/

/-- The text can stand between back quotes. -/
def fitsBackQuotes (chars : List Char) : Bool :=
  chars.all fun c =>
    c = '\t' || (c.toNat ≥ 0x20 && c.toNat ≠ 0x7f && c.toNat ≠ 0x60 && c.toNat ≠ 0xfeff)

/-- A text between quotes. -/
def quotedText (s : Style) (chars : List Char) : List Char :=
  let chars := s.truncate chars
  if s.sharp ∧ fitsBackQuotes chars then
    s.pad ('\x60' :: (chars ++ ['\x60']))
  else
    s.pad ('"' :: (chars.flatMap (if s.plus then asciiChar else Text.quotedChar) ++ ['"']))

/-- The bytes of a text in hexadecimal. -/
def hexText (s : Style) (text : String) : List Char :=
  let bytes := s.truncate (text.toUTF8.toList.map fun b => Char.ofNat b.toNat)
  let marked (digits : List Char) : List Char := if s.sharp then '0' :: 'x' :: digits else digits
  let pairs := bytes.map fun b => Text.hex 2 b.toNat
  if pairs.isEmpty then s.pad []
  else if s.space then s.pad ([' '].intercalate (pairs.map marked))
  else s.pad (marked pairs.flatten)

/-- A text by a verb. -/
def textBy? (s : Style) (verb : Char) (text : String) : Option (List Char) :=
  match verb with
  | 'v' => some (if s.literal then quotedText s text.toList else s.pad (s.truncate text.toList))
  | 's' => some (s.pad (s.truncate text.toList))
  | 'x' => some (hexText s text)
  | 'X' => some (capitals (hexText s text))
  | 'q' => some (quotedText s text.toList)
  | _ => none

/-! ## Any value -/

/-- The name of a value's type. -/
def typeName : Datum → String
  | .nothing => "<nil>"
  | .flag _ => "bool"
  | .int _ => "int64"
  | .real _ => "float64"
  | .text _ => "string"
  | .list _ => "[]interface \x7b\x7d"

/-- A value other than a list by a verb, if it has a form for it. -/
def single? (s : Style) (verb : Char) : Datum → Option (List Char)
  | .flag b =>
    if verb = 't' ∨ verb = 'v' then some (s.pad (if b then "true" else "false").toList) else none
  | .int n => integerBy? s verb n
  | .real x => realBy? s verb x
  | .text t => textBy? s verb t
  | _ => none

/-- A value other than a list by a verb, or a remark that it has no form for it. -/
def single (s : Style) (verb : Char) (d : Datum) : List Char :=
  match single? s verb d with
  | some chars => chars
  | none =>
    "%!".toList ++ verb :: '(' :: ((typeName d).toList ++ '=' :: (single? s 'v' d).getD [] ++ [')'])

mutual

/-- A value inside a list by a verb. -/
def item (s : Style) (verb : Char) : Datum → List Char
  | .nothing => (if s.literal then "interface \x7b\x7d(nil)" else "<nil>").toList
  | .list items =>
    if s.literal then
      "[]interface \x7b\x7d\x7b".toList ++ ", ".toList.intercalate (itemsBy s verb items) ++ ['\x7d']
    else '[' :: ([' '].intercalate (itemsBy s verb items) ++ [']'])
  | d => single s verb d

/-- The values of a list by a verb. -/
def itemsBy (s : Style) (verb : Char) : List Datum → List (List Char)
  | [] => []
  | d :: rest => item s verb d :: itemsBy s verb rest

end

/-- A value by a verb; `T` writes the name of its type. -/
def write (s : Style) (verb : Char) (d : Datum) : List Char :=
  match d with
  | .nothing =>
    if verb = 'T' ∨ verb = 'v' then s.pad "<nil>".toList
    else "%!".toList ++ verb :: "(<nil>)".toList
  | d =>
    if verb = 'T' then s.pad (s.truncate (typeName d).toList)
    else item s verb d

end StepTone.Message
