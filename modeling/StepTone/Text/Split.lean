/-
StepTone.Text.Split — cutting a text at a separator.

* `cutAt?` — the parts before and after the first character of a kind.
* `split` — the parts between all occurrences of a separator.
-/
namespace StepTone.Text

/-- The characters before and after the first one that satisfies `p`. -/
def cutAt? (p : Char → Bool) : List Char → Option (List Char × List Char)
  | [] => none
  | c :: rest =>
    if p c then some ([], rest)
    else (cutAt? p rest).map fun (before, after) => (c :: before, after)

/-- The parts between the occurrences of the separator `first :: more`; `part` is
the one being read, backwards. -/
def splitFrom (first : Char) (more : List Char) (part : List Char) :
    List Char → List (List Char)
  | [] => [part.reverse]
  | c :: rest =>
    if c = first ∧ more.isPrefixOf rest then
      part.reverse :: splitFrom first more [] (rest.drop more.length)
    else splitFrom first more (c :: part) rest
termination_by text => text.length
decreasing_by
  all_goals simp only [List.length_drop, List.length_cons]; omega

/-- The parts of a text between the occurrences of a separator; an empty separator
stands between any two characters. -/
def split (separator text : String) : List String :=
  match separator.toList with
  | [] => text.toList.map fun c => String.ofList [c]
  | first :: more => (splitFrom first more [] text.toList).map String.ofList

end StepTone.Text
