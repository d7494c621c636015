/-
StepTone.Toml.Document — the document that statements build.

A document is built statement by statement in a draft: the tables so far, the tables
that exist only because a longer path passes through them, and the keys that were
given an array.

* A table made in passing may be named once by a header or a table value.
* A key that was given an array may be given again, and the new value counts.
* Any other key is given once.
* A path passes through tables, and through the last table of an array of tables.

`parse` reads a text: the members of its root table, or nothing if it is malformed
or contradicts itself. `decode` is the reader of documents that it makes.
-/
import StepTone.Toml.Statement

namespace StepTone.Toml

/-- A path from the root to a value. -/
abbrev Path := List String

/-- A document under construction. -/
structure Draft where
  root : Members := []
  /-- Tables that exist only in passing. -/
  passing : List Path := []
  /-- Keys that were given an array. -/
  arrays : List Path := []

/-! ## Members -/

/-- Members with one of them set, at the end if it is new. -/
def setMember (members : Members) (key : String) (value : Value) : Members :=
  if (members.lookup key).isSome then
    members.map fun (k, v) => if k = key then (k, value) else (k, v)
  else members ++ [(key, value)]

/-- Changes the table at a path. -/
def changeAt (f : Members → Option Members) : Path → Members → Option Members
  | [], members => f members
  | key :: path, members =>
    match members.lookup key with
    | some (.table inner) => do
      return setMember members key (.table (← changeAt f path inner))
    | some (.tables items) =>
      match items.reverse with
      | last :: before => do
        return setMember members key (.tables (((← changeAt f path last) :: before).reverse))
      | [] => none
    | _ => none

/-- The members of the table at a path. -/
def membersAt? : Path → Members → Option Members
  | [], members => some members
  | key :: path, members =>
    match members.lookup key with
    | some (.table inner) => membersAt? path inner
    | some (.tables items) => (items.getLast?).bind (membersAt? path)
    | _ => none

namespace Draft

/-! ## Steps -/

/-- Marks a table as made in passing. -/
def pass (d : Draft) (path : Path) : Draft :=
  { d with passing := path :: d.passing }

/-- The table is no longer one in passing. -/
def settle (d : Draft) (path : Path) : Draft :=
  { d with passing := d.passing.filter (· ≠ path) }

/-- Notes whether a key was given an array. -/
def noteArray (d : Draft) (path : Path) (isArray : Bool) : Draft :=
  { d with arrays := if isArray then path :: d.arrays else d.arrays.filter (· ≠ path) }

/-- Gives a key of the table at `context` a value. -/
def give (d : Draft) (context : Path) (key : String) (value : Value) : Option Draft := do
  let path := context ++ [key]
  let members ← membersAt? context d.root
  let write (d : Draft) : Option Draft := do
    return { d with root := ← changeAt (fun ms => some (setMember ms key value)) context d.root }
  if (members.lookup key).isNone then write d
  else if d.arrays.contains path then write (d.settle path)
  else if d.passing.contains path then return d.settle path
  else none

/-- The draft with an empty table at a path, made in passing. -/
def makePassing (d : Draft) (context : Path) (key : String) : Option Draft :=
  (changeAt (fun ms => some (setMember ms key (.table []))) context d.root).map fun root =>
    { d.pass (context ++ [key]) with root }

/-- Makes the tables on the way to a path, from the root on; `done` is the way made
so far. -/
def reach (d : Draft) (done : Path) : Path → Option Draft
  | [] => some d
  | key :: rest =>
    match (membersAt? done d.root).map (·.lookup key) with
    | some none => (d.makePassing done key).bind fun d => d.reach (done ++ [key]) rest
    | some (some (.table _)) | some (some (.tables _)) => d.reach (done ++ [key]) rest
    | _ => none

/-- Opens the table at a path, or, for an array of tables, a new table at its end. -/
def enter (d : Draft) (path : Path) (isArray : Bool) : Option Draft :=
  match path.reverse with
  | [] => none
  | key :: before => do
    let context := before.reverse
    let d ← d.reach [] context
    if isArray then
      let members ← membersAt? context d.root
      let items ← match members.lookup key with
        | none => some []
        | some (.tables items) => some items
        | some _ => none
      return { d with
        root := ← changeAt (fun ms => some (setMember ms key (.tables (items ++ [[]])))) context
          d.root }
    else d.give context key (.table [])

/-- Opens the tables that the leading parts of a key name, one after the other. -/
def enterParts (d : Draft) (context : Path) : List String → Option (Draft × Path)
  | [] => some (d, context)
  | part :: rest => do
    let path := context ++ [part]
    let d ← (d.pass path).enter path false
    d.enterParts path rest

/-! ## Values -/

/-- A value put into nested tables at a path. -/
def nest (members : Members) (key : String) (value : Value) : Path → Option Members
  | [] => some (setMember members key value)
  | part :: rest =>
    match members.lookup part with
    | none => do return setMember members part (.table (← nest [] key value rest))
    | some (.table inner) => do
      return setMember members part (.table (← nest inner key value rest))
    | some _ => none

mutual

/-- The value of a literal for a key of the table at `context`. `inArray` tells that
the literal is an item of an array. -/
def value (d : Draft) (context : Path) (key : String) (inArray : Bool) :
    Literal → Option (Draft × Value)
  | .scalar v => some (d, v)
  | .array items => do
    let (d, values) ← (d.noteArray (context ++ [key]) true).values context key items
    return (d, .array values)
  | .table literals => do
    let path := context ++ [key]
    let d ← (d.pass path).enter path inArray
    let (d, result) ← d.members path [] literals
    return (d, .table result)

/-- The values of the items of an array. -/
def values (d : Draft) (context : Path) (key : String) :
    List Literal → Option (Draft × List Value)
  | [] => some (d, [])
  | item :: rest => do
    let (d, v) ← d.value context key true item
    let (d, vs) ← d.values context key rest
    return (d, v :: vs)

/-- The members of a table value. Each is given in the draft, where a contradiction
shows, and collected in `result`. -/
def members (d : Draft) (path : Path) (result : Members) :
    List (List String × Literal) → Option (Draft × Members)
  | [] => some (d, result)
  | (parts, literal) :: rest =>
    match parts.reverse with
    | [] => none
    | key :: before => do
      let (d, context) ← d.enterParts path before.reverse
      let (d, v) ← d.value context key false literal
      let d ← d.give context key v
      let d := d.noteArray (context ++ [key]) (v matches .array _)
      d.members path (← nest result key v before.reverse) rest

end

/-! ## Statements -/

/-- The draft after a statement; `context` is the table of the last header. -/
def take (d : Draft) (context : Path) : Statement → Option (Draft × Path)
  | .table path => do
    return ((← d.enter path false).noteArray path false, path)
  | .arrayTable path => do
    return ((← d.enter path true).noteArray path false, path)
  | .assign parts literal =>
    match parts.reverse with
    | [] => none
    | key :: before => do
      let (d, inner) ← d.enterParts context before.reverse
      let (d, v) ← d.value inner key false literal
      let d ← d.give inner key v
      return (d.noteArray (inner ++ [key]) (v matches .array _), context)

/-- The draft after all statements. -/
def takeAll (d : Draft) (context : Path) : List Statement → Option Draft
  | [] => some d
  | s :: rest => do
    let (d, context) ← d.take context s
    d.takeAll context rest

end Draft

/-- The members of the root table of a text. -/
def parse (text : String) : Option Members := do
  let d ← ({} : Draft).takeAll [] (← statements text)
  return d.root

/-- What is said of a text that is no document. -/
def malformed : String := "malformed TOML document"

/-- The members of the root table of a text, or the word that it is malformed. -/
def decode : Decoder := fun text =>
  match parse text with
  | some root => .ok root
  | none => .error malformed

end StepTone.Toml
