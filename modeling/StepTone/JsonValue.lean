/-
StepTone.JsonValue — JSON documents and their two printed forms.

* `JsonValue` — a document; the members of an object keep their order.
* `compact` — on one line.
* `indented` — one member or item a line, two blanks deeper at each level.
* `firstUndefined?` — the first number that JSON cannot express.

Strings escape quotes, backslashes and control characters, and also `<`, `>`, `&`
and the two Unicode line separators, so that the text can stand inside a page or a
script. Hence no printed string holds a line end.
-/
import StepTone.Decimal.Notation
import StepTone.Text.Quoted

namespace StepTone

/-- A JSON document. -/
inductive JsonValue where
  | null
  | bool (b : Bool)
  | int (n : Int)
  | real (x : Float)
  | str (s : String)
  | arr (items : List JsonValue)
  | obj (members : List (String × JsonValue))

namespace JsonValue

/-! ## Strings -/

/-- A character as it stands inside a string. -/
def escaped (c : Char) : List Char :=
  match c with
  | '"' => ['\\', '"']
  | '\\' => ['\\', '\\']
  | '\n' => ['\\', 'n']
  | '\r' => ['\\', 'r']
  | '\t' => ['\\', 't']
  | '\x08' => ['\\', 'b']
  | '\x0c' => ['\\', 'f']
  | _ =>
    if c.toNat < 0x20 ∨ c = '<' ∨ c = '>' ∨ c = '&' ∨ c.toNat = 0x2028 ∨ c.toNat = 0x2029 then
      '\\' :: 'u' :: Text.hex 4 c.toNat
    else [c]

/-- A text between quotes. -/
def quotedString (s : String) : String :=
  String.ofList ('"' :: (s.toList.flatMap escaped ++ ['"']))

/-! ## Numbers -/

mutual

/-- The first number, in reading order, that is infinite or undefined. -/
def firstUndefined? : JsonValue → Option Float
  | .real x => if Binary64.isFinite x then none else some x
  | .arr items => firstUndefinedItem? items
  | .obj members => firstUndefinedMember? members
  | _ => none

/-- The same for the items of an array. -/
def firstUndefinedItem? : List JsonValue → Option Float
  | [] => none
  | v :: rest => (firstUndefined? v).or (firstUndefinedItem? rest)

/-- The same for the members of an object. -/
def firstUndefinedMember? : List (String × JsonValue) → Option Float
  | [] => none
  | (_, v) :: rest => (firstUndefined? v).or (firstUndefinedMember? rest)

end

/-! ## On one line -/

mutual

/-- A document on one line. -/
def compact : JsonValue → String
  | .null => "null"
  | .bool b => if b then "true" else "false"
  | .int n => toString n
  | .real x => Decimal.interchange x
  | .str s => quotedString s
  | .arr items => "[" ++ ",".intercalate (compactItems items) ++ "]"
  | .obj members => "\x7b" ++ ",".intercalate (compactMembers members) ++ "\x7d"

/-- The items of an array on one line. -/
def compactItems : List JsonValue → List String
  | [] => []
  | v :: rest => v.compact :: compactItems rest

/-- The members of an object on one line. -/
def compactMembers : List (String × JsonValue) → List String
  | [] => []
  | (k, v) :: rest => (quotedString k ++ ":" ++ v.compact) :: compactMembers rest

end

/-! ## One item a line -/

/-- The start of a line at a depth. -/
def lineStart (depth : Nat) : String :=
  "\n" ++ String.ofList (List.replicate (2 * depth) ' ')

/-- Parts between brackets, each on a line of its own, the closing bracket at
`depth`; nothing stands between the brackets when there are no parts. -/
def bracketed (depth : Nat) (opening closing : String) (parts : List String) : String :=
  if parts.isEmpty then opening ++ closing
  else
    opening ++ lineStart (depth + 1) ++ ("," ++ lineStart (depth + 1)).intercalate parts
      ++ lineStart depth ++ closing

mutual

/-- A document over several lines; `depth` is that of the line it starts on. -/
def indented (depth : Nat) : JsonValue → String
  | .arr items => bracketed depth "[" "]" (indentedItems (depth + 1) items)
  | .obj members => bracketed depth "\x7b" "\x7d" (indentedMembers (depth + 1) members)
  | .null => "null"
  | .bool b => if b then "true" else "false"
  | .int n => toString n
  | .real x => Decimal.interchange x
  | .str s => quotedString s

/-- The items of an array over several lines. -/
def indentedItems (depth : Nat) : List JsonValue → List String
  | [] => []
  | v :: rest => v.indented depth :: indentedItems depth rest

/-- The members of an object over several lines. -/
def indentedMembers (depth : Nat) : List (String × JsonValue) → List String
  | [] => []
  | (k, v) :: rest => (quotedString k ++ ": " ++ v.indented depth) :: indentedMembers depth rest

end

/-- What JSON has no number for, in words. -/
def undefinedText (x : Float) : String :=
  "json: unsupported value: " ++ Decimal.general x

end JsonValue

end StepTone
