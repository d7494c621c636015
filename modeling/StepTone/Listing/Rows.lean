/-
StepTone.Listing.Rows — literals laid out in rows.

* `hexLiteral` — a number in upper-case hexadecimal after `0x`.
* `chunks` — a list cut into pieces of one length, the last one what is left.
* `rows` — one line a piece, items separated by commas.
-/
namespace StepTone.Listing

/-! ## Hexadecimal literals -/

/-- A number in upper-case hexadecimal, with zeros in front up to a width. -/
def hexDigits (width n : Nat) : List Char :=
  let digits := (Nat.toDigits 16 n).map Char.toUpper
  List.replicate (width - digits.length) '0' ++ digits

/-- A literal with at least `width` digits. -/
def hexLiteral (width n : Nat) : String :=
  "0x" ++ String.ofList (hexDigits width n)

/-- A literal of an integer; a minus sign takes the place of one digit. -/
def hexInteger (width : Nat) (n : Int) : String :=
  if n < 0 then "0x-" ++ String.ofList (hexDigits (width - 1) n.natAbs)
  else hexLiteral width n.natAbs

/-! ## Rows -/

/-- A list in pieces of `n`, the last one with what is left; pieces have at least
one item. -/
def chunks {α : Type} (n : Nat) : List α → List (List α)
  | [] => []
  | x :: rest => (x :: rest.take (n - 1)) :: chunks n (rest.drop (n - 1))
termination_by items => items.length
decreasing_by
  simp only [List.length_drop, List.length_cons]
  omega

/-- The rows of a list, `comma` after each; the last one has it only when
`trailing` is set. -/
def rowLines (indent : String) (trailing : Bool) : List (List String) → List String
  | [] => []
  | [row] => [indent ++ ", ".intercalate row ++ if trailing then "," else ""]
  | row :: rest => (indent ++ ", ".intercalate row ++ ",") :: rowLines indent trailing rest

/-- Items in rows of `perLine`, each row after `indent` and with a line end. -/
def rows (indent : String) (perLine : Nat) (trailing : Bool) (items : List String) : String :=
  String.join ((rowLines indent trailing (chunks perLine items)).map (· ++ "\n"))

end StepTone.Listing
