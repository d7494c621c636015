/-
StepTone.FileTree — files and directories below a working directory.

A path is walked part by part, and every part but the last has to lead to a directory that
is there. What lies outside of the tree cannot be entered. Reading and writing fail the way
an operating system makes them fail, and a write either replaces the whole file or changes
nothing.

* `FileTree.walk` — where a path leads to.
* `FileTree.read`, `FileTree.write` — the two operations.
-/
import StepTone.Fault
import StepTone.Text.Split

namespace StepTone

/-- The parts of a path. -/
def Path.parts (path : String) : List String :=
  (Text.split "/" path).filter (· ≠ "")

/-- Files with contents of some type, by the parts of their paths, and directories. -/
structure FileTree (α : Type) where
  files : List (List String × α) := []
  directories : List (List String) := []

namespace FileTree

variable {α : Type}

/-- The contents of the file at a place. -/
def file? (t : FileTree α) (place : List String) : Option α :=
  t.files.lookup place

/-- There is a directory at a place: the working directory, one of its own, or one on
the way to something. -/
def isDirectory (t : FileTree α) (place : List String) : Bool :=
  place.isEmpty || t.directories.any (place.isPrefixOf ·)
    || t.files.any fun (file, _) => place.isPrefixOf file && place != file

/-! ## Paths -/

/-- What the operating system says of a path. -/
def failure (verb path reason : String) : Fault :=
  .plain (verb ++ " " ++ path ++ ": " ++ reason)

/-- One step along a path, from a directory. The step `.` stays where it is, and `..` goes
back. -/
def follow (t : FileTree α) (place : List String) (part : String) :
    Except String (List String) :=
  if t.isDirectory place then
    if part = "." then .ok place
    else if part ≠ ".." then .ok (place ++ [part])
    else if place.isEmpty then .error "permission denied"
    else .ok place.dropLast
  else if (t.file? place).isSome then .error "not a directory"
  else .error "no such file or directory"

/-- The place that a path leads to, or why it leads nowhere. There need not be anything at
the place. -/
def walk (t : FileTree α) (path : String) : Except String (List String) :=
  if path = "" then .error "no such file or directory"
  else if path.toList.head? = some '/' then .error "permission denied"
  else (Path.parts path).foldlM t.follow []

/-- The path ends in a slash, so that it can only name a directory. -/
def endsInSlash (path : String) : Bool :=
  path.toList.getLast? = some '/'

/-! ## Operations -/

/-- The contents of the file at a path. -/
def read (t : FileTree α) (path : String) : Except Fault α := do
  let place ← (t.walk path).mapError (failure "open" path)
  if t.isDirectory place then
    throw (failure "read" path "is a directory")
  match t.file? place with
  | some contents =>
    if endsInSlash path then throw (failure "open" path "not a directory") else return contents
  | none => throw (failure "open" path "no such file or directory")

/-- The tree with a file in it; an earlier file at the same place is replaced. -/
def put (t : FileTree α) (place : List String) (contents : α) : FileTree α :=
  { t with files := t.files.filter (·.1 ≠ place) ++ [(place, contents)] }

/-- The tree after a file was written. -/
def write (t : FileTree α) (path : String) (contents : α) : Except Fault (FileTree α) := do
  let place ← (t.walk path).mapError (failure "open" path)
  if t.isDirectory place then
    throw (failure "open" path "is a directory")
  if endsInSlash path then
    throw (failure "open" path
      (if (t.file? place).isSome then "not a directory" else "is a directory"))
  return t.put place contents

end FileTree

end StepTone
