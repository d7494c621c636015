/-
StepTone.Listing.Symbol — names of arrays in C and in Go.

One name serves both languages: in C as it is given, in Go in lower camel case. It
must be an identifier, and neither form may be a reserved word.
-/
import StepTone.Fault
import StepTone.Text.Letter

namespace StepTone.Listing

/-- The words that neither form of a name may be. -/
def reserved : List String :=
  ["auto", "bool", "break", "case", "char", "chan", "const", "continue", "default", "defer",
   "do", "double", "else", "enum", "extern", "fallthrough", "float", "for", "func", "go", "goto",
   "if", "import", "inline", "int", "interface", "long", "map", "package", "range", "register",
   "restrict", "return", "select", "short", "signed", "sizeof", "static", "struct", "switch",
   "type", "typedef", "union", "unsigned", "var", "void", "volatile", "while"]

/-- A letter of the ASCII alphabet or an underscore. -/
def startsIdentifier (c : Char) : Bool :=
  c.isAlpha || c = '_'

/-- The text is a letter or underscore, then letters, digits and underscores. -/
def isIdentifier (name : String) : Bool :=
  match name.toList with
  | [] => false
  | c :: rest => startsIdentifier c && rest.all fun d => startsIdentifier d || d.isDigit

/-! ## Camel case -/

/-- Words of a name are separated by underscores, hyphens and blanks. -/
def isSeparator (c : Char) : Bool :=
  c = '_' || c = '-' || c = ' '

/-- The words of a name: `word` is the one being read, backwards. -/
def wordsFrom (word : List Char) : List Char → List (List Char)
  | [] => if word.isEmpty then [] else [word.reverse]
  | c :: rest =>
    if isSeparator c then
      if word.isEmpty then wordsFrom [] rest else word.reverse :: wordsFrom [] rest
    else wordsFrom (c :: word) rest

/-- A word with its first letter in upper case. -/
def capitalized : List Char → List Char
  | [] => []
  | c :: rest => Text.toUpper c :: rest

/-- The name in lower camel case: the first word in lower case, the others with a
capital in front. A name without words is the usual one. -/
def camelCase (name : String) : String :=
  match wordsFrom [] name.toList with
  | [] => "delayTable"
  | first :: rest => String.ofList (first.map Text.toLower ++ rest.flatMap capitalized)

/-- The name can stand in C and in Go. -/
def checkName (name : String) : Except Fault Unit :=
  if !isIdentifier name then
    .error (.invalid "output" "name" ("'" ++ name ++ "' is not a C or Go identifier"))
  else if reserved.contains name || reserved.contains (camelCase name) then
    .error (.invalid "output" "name" ("'" ++ name ++ "' is a reserved word"))
  else .ok ()

end StepTone.Listing
