/-
StepTone.Listing.Write — from a request to a written listing.

A request names its format and may leave fields open. It is resolved first, then
rendered as a whole, and only then handed over in one write; so a request that
cannot be met writes nothing.
-/
import StepTone.Listing.Render

namespace StepTone.Listing

open Song (Sequence)

/-- A listing as it is asked for. An empty format or name and a row length that is
not positive ask for the usual ones. -/
structure Request where
  format : String := ""
  name : String := ""
  perLine : Int64 := 0
  summary : Bool := false

/-- The request for a layout. -/
def Layout.toRequest (l : Layout) : Request :=
  { format := l.format.name, name := l.name, perLine := l.perLine, summary := l.summary }

/-- The layout that a request asks for. -/
def Request.layout (r : Request) : Except Fault Layout := do
  let usual : Layout := {}
  let format ←
    if r.format = "" then pure usual.format
    else match Format.ofExactName? r.format with
      | some f => pure f
      | none => throw (.unknownFormat r.format Format.names)
  let perLine := if r.perLine ≤ 0 then usual.perLine else r.perLine
  let name := if r.name = "" then usual.name else r.name
  checkName name
  return { format, name, perLine, summary := r.summary }

/-- The format and the text of the listing that a request asks for. -/
def Request.text (r : Request) (t : Table Float) (s : Option (Sequence Float)) :
    Except Fault (Format × String) := do
  let layout ← r.layout
  return (layout.format, ← render layout t s)

/-- Writes the listing through `put`, which takes a text and says what went wrong
if anything did. -/
def Request.write {m : Type → Type} [Monad m] (put : String → m (Option Fault)) (r : Request)
    (t : Table Float) (s : Option (Sequence Float)) : m (Except Fault Unit) :=
  match r.text t s with
  | .error fault => pure (.error fault)
  | .ok (format, text) => do
    match ← put text with
    | none => return .ok ()
    | some cause => return .error (.unwritten (format.name ++ " output") (some cause))

end StepTone.Listing
