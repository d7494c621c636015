/-
StepTone.Message.Fill — a template with values in its places.

Values are used one after the other, unless an index picks one. What goes wrong is
said in the message itself: a value that is missing, an index that points nowhere, a
width that is no number, and the values that are left over.

* `Supply` — the values, and which of them comes next.
* `fill` — the message.
-/
import StepTone.Message.Verb

namespace StepTone.Message

/-- The values of a message while it is being filled. -/
structure Supply where
  values : List Datum
  /-- The position of the value that comes next. -/
  next : Nat := 0
  /-- An index was used. -/
  reordered : Bool := false
  /-- Every index of the current directive points to a value. -/
  sound : Bool := true

namespace Supply

/-- The value that comes next. -/
def head? (p : Supply) : Option Datum :=
  p.values[p.next]?

/-- Moves to the value that an index picks. -/
def pick (p : Supply) : Index → Supply
  | .absent => p
  | .malformed => { p with reordered := true, sound := false }
  | .position n =>
    if 1 ≤ n ∧ n ≤ p.values.length then { p with reordered := true, next := n - 1 }
    else { p with reordered := true, sound := false }

/-- Moves past the value that comes next. -/
def advance (p : Supply) : Supply :=
  if p.next < p.values.length then { p with next := p.next + 1 } else p

/-- The value that comes next as an amount, up to a million either way. -/
def amount? (p : Supply) : Option Int :=
  match p.head? with
  | some (.int n) => if n.toInt.natAbs ≤ 1000000 then some n.toInt else none
  | _ => none

end Supply

/-- The width of a directive: remarks, the style with it, and the values after it. -/
def applyWidth (s : Style) (p : Supply) : Amount → List Char × Style × Supply
  | .absent => ([], s, p)
  | .given n => ([], { s with width := some n }, p)
  | .next =>
    match p.amount? with
    | none => ("%!(BADWIDTH)".toList, s, p.advance)
    | some n =>
      let s := { s with width := some n.natAbs }
      ([], if n < 0 then { s with minus := true, zero := false } else s, p.advance)

/-- The precision of a directive: remarks, the style with it, and the values after
it. -/
def applyPrecision (s : Style) (p : Supply) : Amount → List Char × Style × Supply
  | .absent => ([], s, p)
  | .given n => ([], { s with precision := some n }, p)
  | .next =>
    match p.amount? with
    | some (.ofNat n) => ([], { s with precision := some n }, p.advance)
    | _ => ("%!(BADPREC)".toList, s, p.advance)

/-- The verb of a directive: what it writes, and the values after it. -/
def applyVerb (s : Style) (p : Supply) (verb : Char) : List Char × Supply :=
  let remark (text : String) : List Char := "%!".toList ++ verb :: text.toList
  if verb = '%' then (['%'], p)
  else if !p.sound then (remark "(BADINDEX)", p)
  else
    match p.head? with
    | none => (remark "(MISSING)", p)
    | some d =>
      let s := if verb = 'v' then { s with literal := s.sharp, sharp := false, plus := false } else s
      (write s verb d, p.advance)

/-- What a directive writes, and the values after it. -/
def applyDirective (p : Supply) (d : Directive) : List Char × Supply :=
  let p := Supply.pick { p with sound := !d.misplaced } d.beforeWidth
  let (widthRemark, s, p) := applyWidth d.flags p d.width
  let (precisionRemark, s, p) := applyPrecision s (p.pick d.beforePrecision) d.precision
  let p := p.pick d.beforeVerb
  match d.verb with
  | none => (widthRemark ++ precisionRemark ++ "%!(NOVERB)".toList, p)
  | some verb =>
    let (chars, p) := applyVerb s p verb
    (widthRemark ++ precisionRemark ++ chars, p)

/-- A value that was left over. -/
def leftover : Datum → List Char
  | .nothing => "<nil>".toList
  | d => (typeName d).toList ++ '=' :: write {} 'v' d

/-- The remark on values that were left over; none is made when an index was used. -/
def leftovers (p : Supply) : List Char :=
  match p.reordered, p.values.drop p.next with
  | true, _ | _, [] => []
  | false, rest => "%!(EXTRA ".toList ++ ", ".toList.intercalate (rest.map leftover) ++ [')']

/-- What pieces write, with the values that are left. -/
def fillPieces (p : Supply) : List Piece → List Char
  | [] => leftovers p
  | .plain c :: rest => c :: fillPieces p rest
  | .directive d :: rest =>
    let (chars, p) := applyDirective p d
    chars ++ fillPieces p rest

/-- The message of a template and its values. Without values a template stands for
itself. -/
def fill (template : String) (values : List Datum) : String :=
  if values.isEmpty then template
  else String.ofList (fillPieces { values } (pieces template.toList))

end StepTone.Message
