/-
StepTone.Proofs.SongReading — reading the song of a listing.

A song stands behind the table, in four formats as a block of its own after an empty line, in
assembler after a title, and in a document under a name. The readers find it there and say
how many bytes it is declared to have and what they are; like those of tables they know
nothing about how a listing was printed.

* `behindBlock` — what stands behind the first empty line.
* `Declared`, `readTitled`, `readDeclared` — literals under a title, and in an array.
* `readConstant`, `readStatements` — a constant, and an array with a constant behind it.
* `readStep`, `readPush`, `readSongDirectives` — the directives for each step, and the last one.
* `readSongItems` — the items of a document.
* `IsBlock`, `behindBlock_append` — printed lines that come before the song.
-/
import StepTone.Proofs.ListingDocument

namespace StepTone.Listing

/-! ## Blocks -/

/-- What stands behind the first empty line of a text. -/
def behindBlock (text : List Char) : List Char :=
  ['\n'].intercalate (((textLines text).dropWhile (· ≠ [])).drop 1)

/-! ## Declarations -/

/-- Literals with their number: the words before the number, the number, and the literals. -/
structure Declared where
  front : List (List Char)
  size : Int
  values : List Int

/-- Rows of literals under a title with their number in brackets. -/
def readTitled (text : List Char) : Option Declared := do
  let size ← number? (between '(' ' ' text)
  let values ← (words (text.dropWhile (· ≠ '\n'))).mapM literal?
  return { front := words (text.takeWhile (· ≠ '(')), size, values }

/-- An array with its size in brackets and its body in braces. -/
def readDeclared (text : List Char) : Option Declared := do
  let size ← number? (between '[' ']' text)
  let values ← (words (between '\x7b' '\x7d' text)).mapM literal?
  return { front := words (text.takeWhile (· ≠ '[')), size, values }

/-- A constant: the words before its value, and the value. -/
def readConstant (text : List Char) : Option (List (List Char) × Int) :=
  ((words text).getLast?.bind number?).map ((words text).dropLast, ·)

/-- An array and a constant, each up to a semicolon. -/
def readStatements (text : List Char) : Option (Declared × List (List Char) × Int) :=
  match text.splitOn ';' with
  | array :: constant :: _ => do return (← readDeclared array, ← readConstant constant)
  | _ => none

/-! ## Directives -/

/-- The directives of a line, each up to a semicolon and all of them before a comment. -/
def directives (line : List Char) : List (List (List Char)) :=
  (((line.takeWhile (· ≠ '#')).splitOn ';').map words).filter (· ≠ [])

/-- The byte that a directive writes to a place. -/
def byteFor (place : String) (directive : List (List Char)) : Option Int :=
  match directive with
  | [verb, word, target] =>
    if verb = "write".toList ∧ target = place.toList then
      (literal? word).filter fun b => 0 ≤ b && b < 256
    else none
  | _ => none

/-- The two bytes that the line of a step writes to the memory. -/
def readStep (line : List Char) : Option (Int × Int) :=
  match directives line with
  | [count, row] => do
    return (← byteFor "gpram-inc-addr" count, ← byteFor "gpram-inc-addr" row)
  | _ => none

/-- The byte that a line pushes onto the stack. -/
def readPush (line : List Char) : Option Int :=
  match directives line with
  | [push] => byteFor "stack-push" push
  | _ => none

/-- The bytes of each line under the title of the song, and the byte that the last line
pushes. -/
def readSongDirectives (text : List Char) : Option (List (Int × Int) × Int) := do
  let lines := (((textLines text).dropWhile (· ≠ "# Song".toList)).drop 1).filter (· ≠ [])
  let size ← lines.getLast?.bind readPush
  let steps ← lines.dropLast.mapM readStep
  return (steps, size)

/-! ## Documents -/

/-- The fields `repeats` and `index` of each item of a song. -/
def readSongItems (text : List Char) : Option (List (Int × Int)) := do
  let document ← JsonText.read text
  let items ← (member? "song" document).bind items?
  items.mapM fun item => do
    let repeats ← (member? "repeats" item).bind numberAt?
    let index ← (member? "index" item).bind numberAt?
    return (repeats, index)

/-! ## Printed blocks -/

/-- Lines that are not empty, each with its line end. -/
def IsBlock (text : String) : Prop :=
  ∃ lines : List String, (∀ line ∈ lines, line ≠ "" ∧ '\n' ∉ line.toList) ∧
    text = String.join (lines.map (· ++ "\n"))

theorem isBlock_join {lines : List String} (h : ∀ line ∈ lines, line ≠ "" ∧ '\n' ∉ line.toList) :
    IsBlock (String.join (lines.map (· ++ "\n"))) :=
  ⟨lines, h, rfl⟩

theorem isBlock_line {line : String} (hne : line ≠ "") (h : '\n' ∉ line.toList) :
    IsBlock (line ++ "\n") :=
  ⟨[line], by simpa using ⟨hne, h⟩, by simp⟩

theorem IsBlock.append {front back : String} (hfront : IsBlock front) (hback : IsBlock back) :
    IsBlock (front ++ back) := by
  obtain ⟨lines, hlines, rfl⟩ := hfront
  obtain ⟨more, hmore, rfl⟩ := hback
  refine ⟨lines ++ more, ?_, by rw [List.map_append, String.join_append]⟩
  exact fun line hline => (List.mem_append.mp hline).elim (hlines line) (hmore line)

/-- What comes after a block and an empty line stands behind the block. -/
theorem behindBlock_append {front : String} (h : IsBlock front) (rest : List Char) :
    behindBlock (front.toList ++ '\n' :: rest) = rest := by
  obtain ⟨lines, hlines, rfl⟩ := h
  have hfull : ∀ line ∈ lines.map String.toList, decide (line ≠ []) = true := by
    intro line hline
    obtain ⟨text, htext, rfl⟩ := List.mem_map.mp hline
    simpa using (hlines text htext).1
  have hempty : textLines ('\n' :: rest) = [] :: textLines rest :=
    textLines_line List.not_mem_nil rest
  rw [behindBlock, textLines_join fun line hline => (hlines line hline).2,
    List.dropWhile_append_of_pos hfull, hempty, List.dropWhile_cons_of_neg (by simp),
    List.drop_one, List.tail_cons]
  exact List.intercalate_splitOn '\n'

end StepTone.Listing
