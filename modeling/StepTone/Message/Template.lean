/-
StepTone.Message.Template — messages with places for values.

A template is a text in which `%` starts a directive: flags, a width, a precision
and a verb, as in `%5d` or `%-8.3f`. Width and precision may be `*`, which takes them
from the values, and an index between brackets says which value comes next.

* `Style` — flags, width and precision, and how they pad a text.
* `Directive`, `Piece` — the parts of a template.
* `pieces` — a template taken apart; every character belongs to one piece.
-/
import StepTone.Numeral.Basic
import StepTone.Text.Split

namespace StepTone.Message

/-! ## Styles -/

/-- Flags, width and precision of a directive. -/
structure Style where
  /-- Padding goes to the right. -/
  minus : Bool := false
  /-- A positive number has a sign too. -/
  plus : Bool := false
  /-- The base of a number is marked. -/
  sharp : Bool := false
  /-- A positive number has a blank for its sign. -/
  space : Bool := false
  /-- Padding is made of zeros. -/
  zero : Bool := false
  /-- Texts and lists are written as literals. -/
  literal : Bool := false
  width : Option Nat := none
  precision : Option Nat := none
deriving DecidableEq, Repr

namespace Style

/-- Padding on the left is made of zeros. -/
def padsZeros (s : Style) : Bool :=
  s.zero && !s.minus

/-- A text brought to the width. -/
def pad (s : Style) (text : List Char) : List Char :=
  let missing := s.width.getD 0 - text.length
  if s.minus then text ++ List.replicate missing ' '
  else List.replicate missing (if s.zero then '0' else ' ') ++ text

/-- A text brought to the width with blanks. -/
def padBlank (s : Style) (text : List Char) : List Char :=
  Style.pad { s with zero := false } text

/-- The sign in front of a number. -/
def sign (s : Style) (negative : Bool) : List Char :=
  if negative then ['-'] else if s.plus then ['+'] else if s.space then [' '] else []

/-- The first characters of a text, as many as the precision allows. -/
def truncate (s : Style) (text : List Char) : List Char :=
  match s.precision with
  | some n => text.take n
  | none => text

/-- The style with a flag set, if the character is one. -/
def flag? (s : Style) : Char → Option Style
  | '#' => some { s with sharp := true }
  | '0' => some { s with zero := true }
  | '+' => some { s with plus := true }
  | '-' => some { s with minus := true }
  | ' ' => some { s with space := true }
  | _ => none

end Style

/-! ## Parts of a template -/

/-- A width or a precision. -/
inductive Amount where
  | absent
  | given (n : Nat)
  /-- The next value is the amount. -/
  | next
deriving DecidableEq, Repr

/-- An index between brackets. -/
inductive Index where
  | absent
  /-- The value with this number comes next, counted from one. -/
  | position (n : Nat)
  | malformed
deriving DecidableEq, Repr

/-- The index is well formed. -/
def Index.isPosition : Index → Bool
  | .position _ => true
  | _ => false

/-- A directive without its percent sign. -/
structure Directive where
  flags : Style
  beforeWidth : Index
  width : Amount
  beforePrecision : Index
  precision : Amount
  beforeVerb : Index
  /-- An index stands where a width or precision follows it. -/
  misplaced : Bool
  /-- What is done with the value; nothing when the template ends too early. -/
  verb : Option Char
deriving DecidableEq, Repr

/-- A part of a template. -/
inductive Piece where
  | plain (c : Char)
  | directive (d : Directive)
deriving DecidableEq, Repr

/-! ## Taking a template apart -/

/-- The flags at the start of the characters. -/
def takeFlags (s : Style) : List Char → Style × List Char
  | [] => (s, [])
  | c :: rest =>
    match s.flag? c with
    | some s => takeFlags s rest
    | none => (s, c :: rest)

/-- The number at the start of the characters. A number beyond a million is none,
and takes everything after it along. -/
def takeNumber (sofar : Option Nat) : List Char → Option Nat × List Char
  | [] => (sofar, [])
  | c :: rest =>
    match Numeral.digitIn? 10 c with
    | some d =>
      if sofar.getD 0 > 1000000 then (none, []) else takeNumber (some (sofar.getD 0 * 10 + d)) rest
    | none => (sofar, c :: rest)

/-- The index at the start of the characters. -/
def takeIndex : List Char → Index × List Char
  | '[' :: inside =>
    match Text.cutAt? (· = ']') inside with
    | none => (.malformed, inside)
    | some (number, rest) =>
      if number.isEmpty ∧ rest.isEmpty then (.malformed, inside)
      else
        match takeNumber none number with
        | (some n, []) => (.position n, rest)
        | _ => (.malformed, rest)
  | chars => (.absent, chars)

/-- The amount at the start of the characters. -/
def takeAmount : List Char → Amount × List Char
  | '*' :: rest => (.next, rest)
  | chars =>
    match takeNumber none chars with
    | (some n, rest) => (.given n, rest)
    | (none, rest) => (.absent, rest)

/-- The precision at the start of the characters, with the index in front of it. -/
def takePrecision : List Char → Index × Amount × List Char
  | '.' :: rest =>
    let (index, rest) := takeIndex rest
    let (amount, rest) := takeAmount rest
    (index, if amount = .absent then .given 0 else amount, rest)
  | chars => (.absent, .absent, chars)

/-- The index at the start of the characters, unless one was just read. -/
def takeLastIndex (indexed : Bool) (chars : List Char) : Index × List Char :=
  if indexed then (.absent, chars) else takeIndex chars

/-- The directive at the start of the characters, after its percent sign. -/
def takeDirective (chars : List Char) : Directive × List Char :=
  let (flags, chars) := takeFlags {} chars
  let (beforeWidth, chars) := takeIndex chars
  let (width, afterWidth) := takeAmount chars
  let indexed := beforeWidth.isPosition && width != .next
  let (beforePrecision, precision, chars) := takePrecision afterWidth
  let pointed := afterWidth.head? = some '.'
  let misplaced := indexed && (width != .absent || pointed)
  let indexed := if pointed then beforePrecision.isPosition && precision != .next else indexed
  let (beforeVerb, chars) := takeLastIndex indexed chars
  ({ flags, beforeWidth, width, beforePrecision, precision, beforeVerb, misplaced,
     verb := chars.head? }, chars.tail)

/-! ## Every step gets shorter -/

theorem length_takeFlags (s : Style) (chars : List Char) :
    (takeFlags s chars).2.length ≤ chars.length := by
  induction chars generalizing s with
  | nil => simp [takeFlags]
  | cons c rest ih =>
    simp only [takeFlags]
    split
    · exact Nat.le_succ_of_le (ih _)
    · simp

theorem length_takeNumber (sofar : Option Nat) (chars : List Char) :
    (takeNumber sofar chars).2.length ≤ chars.length := by
  induction chars generalizing sofar with
  | nil => simp [takeNumber]
  | cons c rest ih =>
    simp only [takeNumber]
    split
    · split
      · simp
      · exact Nat.le_succ_of_le (ih _)
    · simp

theorem length_cutAt? {p : Char → Bool} {chars before after : List Char}
    (h : Text.cutAt? p chars = some (before, after)) : after.length < chars.length := by
  induction chars generalizing before with
  | nil => simp [Text.cutAt?] at h
  | cons c rest ih =>
    simp only [Text.cutAt?] at h
    split at h
    · simp only [Option.some.injEq, Prod.mk.injEq] at h
      simp [← h.2]
    · simp only [Option.map_eq_some_iff, Prod.mk.injEq, Prod.exists] at h
      obtain ⟨before', _, h, _, rfl⟩ := h
      exact Nat.lt_succ_of_lt (ih h)

theorem length_takeIndex (chars : List Char) :
    (takeIndex chars).2.length ≤ chars.length := by
  unfold takeIndex
  split
  · split
    · simp
    · rename_i h
      have := length_cutAt? h
      split
      · simp
      · split <;> simp <;> omega
  · simp

theorem length_takeLastIndex (indexed : Bool) (chars : List Char) :
    (takeLastIndex indexed chars).2.length ≤ chars.length := by
  unfold takeLastIndex
  split
  · simp
  · exact length_takeIndex chars

theorem length_takeAmount (chars : List Char) :
    (takeAmount chars).2.length ≤ chars.length := by
  unfold takeAmount
  split
  · simp
  · have := length_takeNumber none chars
    split <;> simp_all

theorem length_takePrecision (chars : List Char) :
    (takePrecision chars).2.2.length ≤ chars.length := by
  unfold takePrecision
  split
  · rename_i rest
    have h := length_takeIndex rest
    have := length_takeAmount (takeIndex rest).2
    simp only [List.length_cons]
    omega
  · simp

theorem length_takeDirective (chars : List Char) :
    (takeDirective chars).2.length ≤ chars.length := by
  have h1 := length_takeFlags {} chars
  have h2 := length_takeIndex (takeFlags {} chars).2
  have h3 := length_takeAmount (takeIndex (takeFlags {} chars).2).2
  have h4 := length_takePrecision (takeAmount (takeIndex (takeFlags {} chars).2).2).2
  simp only [takeDirective, List.length_tail]
  exact Nat.le_trans (Nat.sub_le _ _)
    (Nat.le_trans (length_takeLastIndex _ _) (Nat.le_trans h4 (by omega)))

/-- The pieces of a template. -/
def pieces : List Char → List Piece
  | [] => []
  | '%' :: rest => .directive (takeDirective rest).1 :: pieces (takeDirective rest).2
  | c :: rest => .plain c :: pieces rest
termination_by chars => chars.length
decreasing_by
  · have := length_takeDirective rest
    simp only [List.length_cons]
    omega
  · simp

end StepTone.Message
