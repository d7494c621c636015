/-
StepTone.Proofs.RowLayout — how a list stands in rows.

Rows are cut by a loop that counts in words of sixty-four bits: it moves on by the length of
a row, which may be any positive word, and adds that length to its place in every turn. The
rows themselves are told from the printed text, by a reader that knows the indent and takes
commas and line ends for what they are.

* `length_chunks`, `length_of_getElem?_chunks` — how many pieces there are, and their lengths.
* `readLines`, `cells`, `closed` — the lines of printed rows, and the items of a line.
* `LaidOut` — what is to be read of a list in rows.
* `Loop`, `Loop.Prints` — the loop over the list, and the text that it prints.
* `Loop.exists_prints` — the loop comes to an end, and no sum wraps before.
* `rows_are_laid_out` — every list, in rows of every length.
-/
import Mathlib
import StepTone.Proofs.ListingValues

namespace StepTone.Listing

/-! ## Pieces -/

section

variable {α : Type} {n : Nat}

/-- Pieces are as many as the length of the list takes, the last one counted in full. -/
theorem length_chunks (hn : 0 < n) (items : List α) :
    (chunks n items).length = items.length ⌈/⌉ n := by
  rw [Nat.ceilDiv_eq_add_pred_div]
  fun_induction chunks n items with
  | case1 =>
    rw [List.length_nil, List.length_nil, Nat.div_eq_of_lt (by omega)]
  | case2 x rest ih =>
    have hmore : (rest.length - (n - 1) + n - 1) / n = rest.length / n := by
      by_cases hshort : rest.length < n - 1
      · rw [Nat.div_eq_of_lt (by omega), Nat.div_eq_of_lt (by omega)]
      · congr 1
        omega
    have hall : (rest.length + 1 + n - 1) / n = rest.length / n + 1 := by
      rw [← Nat.add_div_right _ hn, Nat.add_right_comm, Nat.add_sub_cancel]
    rw [List.length_cons, ih, List.length_drop, List.length_cons, hmore, hall]

/-- A piece is as long as it may be, unless it is the last one. -/
theorem length_of_getElem?_chunks (hn : 0 < n) {items piece : List α} {i : Nat}
    (h : (chunks n items)[i]? = some piece) :
    piece.length ≤ n ∧ (i + 1 < (chunks n items).length → piece.length = n) := by
  fun_induction chunks n items generalizing i with
  | case1 => simp at h
  | case2 x rest ih =>
    cases i with
    | succ j =>
      rw [List.getElem?_cons_succ] at h
      rw [List.length_cons, Nat.add_lt_add_iff_right]
      exact ih h
    | zero =>
      obtain rfl : x :: rest.take (n - 1) = piece := Option.some.inj h
      rw [List.length_cons, List.length_cons, List.length_take]
      refine ⟨by omega, fun hmore => ?_⟩
      -- there is a further piece, so the list did not end inside of this one
      have hrest : rest.drop (n - 1) ≠ [] := by
        intro hnil
        rw [hnil, chunks] at hmore
        simp at hmore
      have hlong : n - 1 < rest.length := by
        rwa [ne_eq, List.drop_eq_nil_iff, not_le] at hrest
      omega

theorem chunks_take_drop (hn : 0 < n) {items : List α} (h : items ≠ []) :
    chunks n items = items.take n :: chunks n (items.drop n) := by
  obtain ⟨m, rfl⟩ : ∃ m, n = m + 1 := ⟨n - 1, by omega⟩
  cases items with
  | nil => exact absurd rfl h
  | cons x rest => rw [chunks, Nat.add_sub_cancel, List.take_succ_cons, List.drop_succ_cons]

theorem isEmpty_chunks (n : Nat) (items : List α) :
    (chunks n items).isEmpty = items.isEmpty := by
  cases items with
  | nil => rw [chunks, List.isEmpty_nil, List.isEmpty_nil]
  | cons x rest => rw [chunks, List.isEmpty_cons, List.isEmpty_cons]

end

/-! ## Lines of pieces -/

theorem rows_nil (indent : String) (n : Nat) (trailing : Bool) :
    rows indent n trailing [] = "" := by
  rw [rows, chunks, rowLines, List.map_nil, String.join_nil]

/-- The first row, and the others. -/
theorem rows_take_drop {n : Nat} (hn : 0 < n) {items : List String} (h : items ≠ [])
    (indent : String) (trailing : Bool) : rows indent n trailing items =
      indent ++ ", ".intercalate (items.take n) ++ rowEnd trailing (items.drop n).isEmpty ++
        "\n" ++ rows indent n trailing (items.drop n) := by
  rw [rows, chunks_take_drop hn h, rowLines_cons, List.map_cons, String.join_cons, isEmpty_chunks]
  rfl

theorem getElem?_rowLines {indent line : String} {trailing : Bool} {pieces : List (List String)}
    {i : Nat} (h : (rowLines indent trailing pieces)[i]? = some line) :
    ∃ piece, pieces[i]? = some piece ∧ line =
      indent ++ ", ".intercalate piece ++ rowEnd trailing (decide (i + 1 = pieces.length)) := by
  induction pieces generalizing i with
  | nil => simp [rowLines] at h
  | cons row rest ih =>
    rw [rowLines_cons] at h
    cases i with
    | zero =>
      refine ⟨row, rfl, (Option.some.inj h).symm.trans ?_⟩
      cases rest with
      | nil => rfl
      | cons next more => simp
    | succ j =>
      rw [List.getElem?_cons_succ] at h ⊢
      obtain ⟨piece, hpiece, rfl⟩ := ih h
      refine ⟨piece, hpiece, ?_⟩
      simp

theorem length_rowLines (indent : String) (trailing : Bool) (pieces : List (List String)) :
    (rowLines indent trailing pieces).length = pieces.length := by
  induction pieces with
  | nil => rfl
  | cons row rest ih => rw [rowLines_cons, List.length_cons, List.length_cons, ih]

/-! ## Reading rows -/

/-- The lines of a text, each of them behind an indent and up to the first line end after
it. -/
def readLines (indent : List Char) : List Char → Option (List (List Char))
  | [] => some []
  | c :: cs =>
    let line := (c :: cs).drop indent.length
    if indent <+: c :: cs ∧ '\n' ∈ line then
      (readLines indent ((line.dropWhile (· ≠ '\n')).drop 1)).map
        (line.takeWhile (· ≠ '\n') :: ·)
    else none
termination_by text => text.length
decreasing_by
  have hshorter := (List.dropWhile_sublist (l := (c :: cs).drop indent.length)
    (· ≠ '\n')).length_le
  rw [List.length_drop] at hshorter
  rw [List.length_drop, List.length_cons] at *
  omega

/-- The items of a line: what stands between its commas, each of which has a blank behind it,
but for one that ends the line. -/
def cells (line : List Char) : List (List Char) :=
  match line.splitOn ',' with
  | [] => []
  | first :: more => first :: (more.filter (· ≠ [])).map (List.drop 1)

/-- The line ends in a comma. -/
def closed (line : List Char) : Bool :=
  line.getLast? = some ','

theorem readLines_nil (indent : List Char) : readLines indent [] = some [] := by
  rw [readLines]

theorem readLines_line {line : List Char} (h : '\n' ∉ line) (indent rest : List Char) :
    readLines indent (indent ++ (line ++ '\n' :: rest)) =
      (readLines indent rest).map (line :: ·) := by
  obtain ⟨c, cs, htext⟩ : ∃ c cs, indent ++ (line ++ '\n' :: rest) = c :: cs :=
    List.exists_cons_of_ne_nil (by simp)
  rw [htext, readLines, ← htext, List.drop_left, takeWhile_before h, dropWhile_before h,
    if_pos ⟨List.prefix_append _ _, by simp⟩, List.drop_one, List.tail_cons]

/-- Printed lines are read back, whatever the indent is. -/
theorem readLines_join {lines : List String} (h : ∀ line ∈ lines, '\n' ∉ line.toList)
    (indent : String) :
    readLines indent.toList
        (String.join (lines.map fun line => indent ++ line ++ "\n")).toList =
      some (lines.map String.toList) := by
  induction lines with
  | nil => simp [readLines_nil]
  | cons line more ih =>
    obtain ⟨hline, hmore⟩ := List.forall_mem_cons.mp h
    have htext : (String.join ((line :: more).map fun line => indent ++ line ++ "\n")).toList =
        indent.toList ++ (line.toList ++ '\n' ::
          (String.join (more.map fun line => indent ++ line ++ "\n")).toList) := by
      simp
    rw [htext, readLines_line hline, ih hmore]
    rfl

section

variable {w v comma : List Char} {ws : List (List Char)}

/-- The blank behind a comma is read with the item that follows. -/
theorem intercalate_cons_cons (w v : List Char) (ws : List (List Char)) :
    [',', ' '].intercalate (w :: v :: ws) =
      w ++ ',' :: [',', ' '].intercalate ((' ' :: v) :: ws) := by
  cases ws with
  | nil => simp
  | cons u us => simp

theorem not_mem_blank_cons (h : ∀ u ∈ w :: v :: ws, ',' ∉ u) :
    ∀ u ∈ (' ' :: v) :: ws, ',' ∉ u := by
  obtain ⟨hv, hws⟩ := List.forall_mem_cons.mp (List.forall_mem_cons.mp h).2
  exact List.forall_mem_cons.mpr ⟨by simpa using hv, hws⟩

/-- A row is cut at its commas, and one at the end leaves an empty piece behind it. -/
theorem splitOn_row (hcomma : comma = [','] ∨ comma = []) (h : ∀ u ∈ w :: ws, ',' ∉ u) :
    ([',', ' '].intercalate (w :: ws) ++ comma).splitOn ',' =
      w :: (ws.map (' ' :: ·) ++ comma.map fun _ => []) := by
  induction ws generalizing w with
  | nil =>
    have hw : ',' ∉ w := h w List.mem_cons_self
    rw [List.intercalate_singleton]
    rcases hcomma with rfl | rfl
    · exact List.splitOn_append_cons_self_of_not_mem hw []
    · rw [List.append_nil, List.splitOn_eq_singleton hw]
      rfl
  | cons v more ih =>
    have hw : ',' ∉ w := h w List.mem_cons_self
    rw [intercalate_cons_cons, List.append_assoc, List.cons_append,
      List.splitOn_append_cons_self_of_not_mem hw, ih (not_mem_blank_cons h)]
    rfl

/-- No row ends in a comma of its own. -/
theorem getLast?_row_ne (h : ∀ u ∈ w :: ws, ',' ∉ u) :
    ([',', ' '].intercalate (w :: ws)).getLast? ≠ some ',' := by
  induction ws generalizing w with
  | nil =>
    rw [List.intercalate_singleton]
    intro hlast
    exact h w List.mem_cons_self (List.mem_of_getLast? hlast)
  | cons v more ih =>
    obtain ⟨c, cs, hrest⟩ : ∃ c cs, [',', ' '].intercalate ((' ' :: v) :: more) = c :: cs :=
      List.exists_cons_of_ne_nil (by cases more <;> simp)
    have hlast := ih (not_mem_blank_cons h)
    rw [intercalate_cons_cons]
    rw [hrest] at hlast ⊢
    rwa [List.getLast?_append_cons, List.getLast?_cons_cons]

theorem cells_row (hcomma : comma = [','] ∨ comma = []) (hne : ws ≠ [])
    (h : ∀ u ∈ ws, ',' ∉ u) : cells ([',', ' '].intercalate ws ++ comma) = ws := by
  obtain ⟨w, more, rfl⟩ := List.exists_cons_of_ne_nil hne
  have hfilter : (more.map (' ' :: ·) ++ comma.map fun _ => []).filter (· ≠ []) =
      more.map (' ' :: ·) := by
    rcases hcomma with rfl | rfl <;> simp [List.filter_map, Function.comp_def]
  rw [cells, splitOn_row hcomma h]
  simp only [hfilter, List.map_map, Function.comp_def, List.drop_one, List.tail_cons,
    List.map_id']

theorem closed_row (hcomma : comma = [','] ∨ comma = []) (hne : ws ≠ [])
    (h : ∀ u ∈ ws, ',' ∉ u) :
    closed ([',', ' '].intercalate ws ++ comma) = true ↔ comma = [','] := by
  obtain ⟨w, more, rfl⟩ := List.exists_cons_of_ne_nil hne
  rw [closed, decide_eq_true_iff]
  rcases hcomma with rfl | rfl
  · exact iff_of_true List.getLast?_concat rfl
  · rw [List.append_nil]
    exact iff_of_false (getLast?_row_ne h) (by simp)

end

/-! ## What is read of rows -/

/-- An item that can be told from what stands around it. -/
def Plain (item : String) : Prop :=
  ',' ∉ item.toList ∧ '\n' ∉ item.toList

/-- A list in rows of `n`, by the lines that are read of it. -/
structure LaidOut (n : Nat) (trailing : Bool) (items : List String)
    (lines : List (List Char)) : Prop where
  /-- There are as many lines as it takes. -/
  length : lines.length = items.length ⌈/⌉ n
  /-- No line is empty, and none holds more than it may. -/
  held : ∀ line ∈ lines, 1 ≤ (cells line).length ∧ (cells line).length ≤ n
  /-- Every line but the last one is full. -/
  full : ∀ i line, lines[i]? = some line → i + 1 < lines.length → (cells line).length = n
  /-- A comma ends every line, and the last one only if it is asked for. -/
  comma : ∀ i line, lines[i]? = some line →
    (closed line = true ↔ i + 1 < lines.length ∨ trailing = true)
  /-- The items are those of the list, in its order. -/
  items : lines.flatMap cells = items.map String.toList

section

variable {n : Nat} {trailing : Bool} {items : List String}

theorem toList_rowEnd_eq (trailing last : Bool) :
    (rowEnd trailing last).toList = [','] ∨ (rowEnd trailing last).toList = [] :=
  (rowEnd_eq trailing last).imp (congrArg String.toList) (congrArg String.toList)

theorem toList_rowEnd_eq_comma_iff {trailing last : Bool} :
    (rowEnd trailing last).toList = [','] ↔ last = false ∨ trailing = true := by
  cases trailing <;> cases last <;> simp [rowEnd]

/-- The lines of a list in rows, each without its indent. -/
def rowBodies (n : Nat) (trailing : Bool) (items : List String) : List (List Char) :=
  (rowLines "" trailing (chunks n items)).map String.toList

theorem length_rowBodies (n : Nat) (trailing : Bool) (items : List String) :
    (rowBodies n trailing items).length = (chunks n items).length := by
  rw [rowBodies, List.length_map, length_rowLines]

/-- What is read of a line, by the piece that stands in it. -/
theorem getElem?_rowBodies (hplain : ∀ item ∈ items, Plain item) {i : Nat} {line : List Char}
    (h : (rowBodies n trailing items)[i]? = some line) :
    ∃ piece, (chunks n items)[i]? = some piece ∧ cells line = piece.map String.toList ∧
      (closed line = true ↔ i + 1 < (chunks n items).length ∨ trailing = true) := by
  rw [rowBodies, List.getElem?_map] at h
  obtain ⟨printed, hprinted, rfl⟩ := Option.map_eq_some_iff.mp h
  obtain ⟨piece, hpiece, rfl⟩ := getElem?_rowLines hprinted
  have hmem : piece ∈ chunks n items := List.mem_of_getElem? hpiece
  have hne : piece.map String.toList ≠ [] := by
    simpa using chunk_ne_nil hmem
  have hcommas : ∀ u ∈ piece.map String.toList, ',' ∉ u := by
    intro u hu
    obtain ⟨item, hitem, rfl⟩ := List.mem_map.mp hu
    exact (hplain item (mem_of_mem_chunk hmem hitem)).1
  have hsep : ", ".toList = [',', ' '] := rfl
  have hi : i < (chunks n items).length := (List.getElem?_eq_some_iff.mp hpiece).1
  rw [String.empty_append, String.toList_append, String.toList_intercalate, hsep]
  refine ⟨piece, hpiece, cells_row (toList_rowEnd_eq _ _) hne hcommas, ?_⟩
  rw [closed_row (toList_rowEnd_eq _ _) hne hcommas, toList_rowEnd_eq_comma_iff,
    decide_eq_false_iff_not]
  exact or_congr_left ⟨fun hend => by omega, fun hmore => by omega⟩

theorem map_cells_rowBodies (hplain : ∀ item ∈ items, Plain item) :
    (rowBodies n trailing items).map cells = (chunks n items).map (List.map String.toList) := by
  refine List.ext_getElem? fun i => ?_
  rw [List.getElem?_map, List.getElem?_map (f := List.map String.toList)]
  cases hline : (rowBodies n trailing items)[i]? with
  | none =>
    rw [List.getElem?_eq_none_iff, length_rowBodies] at hline
    rw [List.getElem?_eq_none hline, Option.map_none, Option.map_none]
  | some line =>
    obtain ⟨piece, hpiece, hitems, -⟩ := getElem?_rowBodies hplain hline
    rw [hpiece, Option.map_some, Option.map_some, hitems]

theorem laidOut_rowBodies (hn : 0 < n) (hplain : ∀ item ∈ items, Plain item) :
    LaidOut n trailing items (rowBodies n trailing items) := by
  constructor
  case length => rw [length_rowBodies, length_chunks hn]
  case held =>
    intro line hline
    obtain ⟨i, hi⟩ := List.mem_iff_getElem?.mp hline
    obtain ⟨piece, hpiece, hitems, -⟩ := getElem?_rowBodies hplain hi
    rw [hitems, List.length_map]
    exact ⟨List.length_pos_iff.mpr (chunk_ne_nil (List.mem_of_getElem? hpiece)),
      (length_of_getElem?_chunks hn hpiece).1⟩
  case full =>
    intro i line hline hmore
    obtain ⟨piece, hpiece, hitems, -⟩ := getElem?_rowBodies hplain hline
    rw [length_rowBodies] at hmore
    rw [hitems, List.length_map, (length_of_getElem?_chunks hn hpiece).2 hmore]
  case comma =>
    intro i line hline
    obtain ⟨-, -, -, hclosed⟩ := getElem?_rowBodies hplain hline
    rw [hclosed, length_rowBodies]
  case items =>
    rw [List.flatMap_def, map_cells_rowBodies hplain, ← List.map_flatten, flatten_chunks]

theorem rowLines_eq_map (indent : String) (trailing : Bool) (pieces : List (List String)) :
    rowLines indent trailing pieces = (rowLines "" trailing pieces).map (indent ++ ·) := by
  induction pieces with
  | nil => rfl
  | cons row rest ih =>
    rw [rowLines_cons, rowLines_cons, List.map_cons, ← ih, String.empty_append,
      String.append_assoc]

/-- Rows are read back line by line, whatever the indent is. -/
theorem readLines_rows (hplain : ∀ item ∈ items, Plain item) (indent : String) :
    readLines indent.toList (rows indent n trailing items).toList =
      some (rowBodies n trailing items) := by
  rw [rows, rowLines_eq_map, List.map_map]
  refine readLines_join ?_ indent
  intro line hline
  exact not_mem_rowLine (by simp) (by decide) (by decide)
    (fun item hitem => (hplain item hitem).2) hline

end

/-! ## The loop -/

/-- The most texts that a list may hold: each of them takes sixteen bytes, and an address has
sixty-four bits. The loop needs some such bound, for with rows of `2 ^ 62` and one item more
than that its second sum is no word. -/
def mostTexts : Nat := 2 ^ 64 / 16

/-- A list that is printed in rows. -/
structure Loop where
  items : List String
  indent : String
  perLine : Int64
  trailing : Bool

namespace Loop

/-- Items of a row, as a number. -/
def width (l : Loop) : Nat :=
  l.perLine.toInt.toNat

/-- The rows. -/
def text (l : Loop) : String :=
  rows l.indent l.width l.trailing l.items

/-- Items of the list, as a word. -/
def size (l : Loop) : Int64 :=
  .ofNat l.items.length

/-- Where the row that begins at `start` ends. The sum is one of words. -/
def stop (l : Loop) (start : Int64) : Int64 :=
  if l.size < start + l.perLine then l.size else start + l.perLine

/-- The items from one place up to another, unless one of the places is none of the list. -/
def slice? (l : Loop) (start stop : Int64) : Option (List String) :=
  if 0 ≤ start ∧ start ≤ stop ∧ stop ≤ l.size then
    some ((l.items.take stop.toInt.toNat).drop start.toInt.toNat)
  else none

/-- What is printed for a row that ends at `stop`. -/
def line (l : Loop) (row : List String) (stop : Int64) : String :=
  l.indent ++ ", ".intercalate row ++ (if stop < l.size ∨ l.trailing = true then "," else "") ++
    "\n"

/-- `l.Prints start starts text` says that the loop comes to an end when it goes on at `start`,
that it makes a turn at each of `starts`, and that it prints `text` meanwhile. -/
inductive Prints (l : Loop) : Int64 → List Int64 → String → Prop
  | done {start : Int64} (h : ¬ start < l.size) : Prints l start [] ""
  | turn {start : Int64} {row : List String} {starts : List Int64} {text : String}
      (h : start < l.size) (hrow : l.slice? start (l.stop start) = some row)
      (rest : Prints l (start + l.perLine) starts text) :
      Prints l start (start :: starts) (l.line row (l.stop start) ++ text)

variable {l : Loop} {start : Int64}

/-- The loop has one run at most. -/
theorem Prints.unique {starts starts' : List Int64} {text text' : String}
    (h : l.Prints start starts text) (h' : l.Prints start starts' text') :
    starts' = starts ∧ text' = text := by
  induction h generalizing starts' text' with
  | done hend =>
    cases h' with
    | done => exact ⟨rfl, rfl⟩
    | turn hgo => exact absurd hgo hend
  | turn hgo hrow _ ih =>
    cases h' with
    | done hend => exact absurd hgo hend
    | turn _ hrow' rest' =>
      obtain ⟨rfl, rfl⟩ := ih rest'
      obtain rfl := Option.some.inj (hrow.symm.trans hrow')
      exact ⟨rfl, rfl⟩

/-! ### One turn -/

theorem width_eq (hper : 0 < l.perLine) : (l.width : Int) = l.perLine.toInt := by
  rw [Int64.lt_iff_toInt_lt, Int64.toInt_zero] at hper
  rw [width, Int.toNat_of_nonneg hper.le]

theorem width_pos (hper : 0 < l.perLine) : 0 < l.width := by
  have hword := width_eq hper
  rw [Int64.lt_iff_toInt_lt, Int64.toInt_zero] at hper
  omega

theorem toInt_size (hsize : l.items.length ≤ mostTexts) : l.size.toInt = l.items.length :=
  Int64.toInt_ofNat_of_lt (lt_of_le_of_lt hsize (by decide))

/-- A place that the loop comes to: the first one, or one at least a row further on. -/
def Reached (l : Loop) (k : Nat) : Prop :=
  k = 0 ∨ l.width ≤ k

/-- The sum of a turn does not wrap. At the first place it is the length of a row, and at any
other it is at most twice the place, which is in the list. -/
theorem toInt_add_perLine (hper : 0 < l.perLine) (hsize : l.items.length ≤ mostTexts) {k : Nat}
    (hstart : start.toInt = k) (hreached : l.Reached k) (hk : k < l.items.length) :
    (start + l.perLine).toInt = start.toInt + l.perLine.toInt := by
  have hword := width_eq hper
  have hlt := l.perLine.toInt_lt
  have hmost : mostTexts = 2 ^ 60 := by decide
  rw [Int64.toInt_add]
  refine Int.bmod_eq_of_le ?_ ?_
  · omega
  · rcases hreached with rfl | hfar <;> omega

/-- A row ends after its items, or with the list. -/
theorem toInt_stop (hper : 0 < l.perLine) (hsize : l.items.length ≤ mostTexts) {k : Nat}
    (hstart : start.toInt = k)
    (hsum : (start + l.perLine).toInt = start.toInt + l.perLine.toInt) :
    (l.stop start).toInt = min l.items.length (k + l.width) := by
  have hword := width_eq hper
  rw [stop]
  split
  case isTrue hcut =>
    rw [Int64.lt_iff_toInt_lt, toInt_size hsize] at hcut
    rw [toInt_size hsize]
    omega
  case isFalse hfull =>
    rw [Int64.lt_iff_toInt_lt, toInt_size hsize] at hfull
    omega

theorem slice?_of_toInt (hsize : l.items.length ≤ mostTexts) {stop : Int64} {k : Nat}
    (hstart : start.toInt = k) (hk : k < l.items.length) (hpos : 0 < l.width)
    (hstop : stop.toInt = min l.items.length (k + l.width)) :
    l.slice? start stop = some ((l.items.drop k).take l.width) := by
  have hbounds : 0 ≤ start ∧ start ≤ stop ∧ stop ≤ l.size := by
    simp only [Int64.le_iff_toInt_le, toInt_size hsize, Int64.toInt_zero, hstart, hstop]
    omega
  have hplace : start.toInt.toNat = k := by omega
  have hend : stop.toInt.toNat = min l.items.length (k + l.width) := by omega
  rw [slice?, if_pos hbounds, hplace, hend, List.drop_take]
  congr 1
  rw [List.take_eq_take_iff, List.length_drop]
  omega

theorem line_of_toInt (hsize : l.items.length ≤ mostTexts) {stop : Int64} {k : Nat}
    (hstop : stop.toInt = min l.items.length (k + l.width)) (row : List String) :
    l.line row stop = l.indent ++ ", ".intercalate row ++
      rowEnd l.trailing (l.items.drop (k + l.width)).isEmpty ++ "\n" := by
  have hmore : stop < l.size ↔ (l.items.drop (k + l.width)).isEmpty = false := by
    rw [Int64.lt_iff_toInt_lt, toInt_size hsize, hstop, List.isEmpty_eq_false_iff,
      ne_eq, List.drop_eq_nil_iff]
    omega
  simp only [line, rowEnd, hmore]
  cases (l.items.drop (k + l.width)).isEmpty <;> cases l.trailing <;> rfl

/-! ### Every turn -/

/-- The loop prints what is left of the list and comes to its end, and no sum wraps on the
way. The induction is on the number of items that are left. -/
theorem exists_prints (hper : 0 < l.perLine) (hsize : l.items.length ≤ mostTexts) {k : Nat}
    (hstart : start.toInt = k) (hreached : l.Reached k) :
    ∃ starts, l.Prints start starts (rows l.indent l.width l.trailing (l.items.drop k)) ∧
      starts.length = (chunks l.width (l.items.drop k)).length ∧
      ∀ place ∈ starts, (place + l.perLine).toInt = place.toInt + l.perLine.toInt := by
  induction hleft : l.items.length - k using Nat.strong_induction_on generalizing k start with
  | _ left ih =>
  have hpos := width_pos hper
  by_cases hk : k < l.items.length
  case neg =>
    have hend : ¬ start < l.size := by
      rw [Int64.lt_iff_toInt_lt, toInt_size hsize]
      omega
    rw [List.drop_eq_nil_of_le (not_lt.mp hk), rows_nil, chunks]
    exact ⟨[], .done hend, rfl, by simp⟩
  case pos =>
    have hgo : start < l.size := by
      rw [Int64.lt_iff_toInt_lt, toInt_size hsize]
      omega
    have hsum := toInt_add_perLine hper hsize hstart hreached hk
    have hstop := toInt_stop hper hsize hstart hsum
    have hne : l.items.drop k ≠ [] := by
      rwa [ne_eq, List.drop_eq_nil_iff, not_le]
    have hnext : (start + l.perLine).toInt = (k + l.width : Nat) := by
      rw [hsum, hstart, Nat.cast_add, width_eq hper]
    obtain ⟨starts, hprints, hlength, hsums⟩ :=
      ih (l.items.length - (k + l.width)) (by omega) hnext (.inr (Nat.le_add_left _ _)) rfl
    refine ⟨start :: starts, ?_, ?_, List.forall_mem_cons.mpr ⟨hsum, hsums⟩⟩
    · rw [rows_take_drop hpos hne, List.drop_drop, ← line_of_toInt hsize hstop]
      exact .turn hgo (slice?_of_toInt hsize hstart hk hpos hstop) hprints
    · rw [chunks_take_drop hpos hne, List.length_cons, List.length_cons, hlength, List.drop_drop]

end Loop

/-- The loop that prints a list in rows, for rows of every positive length. What it prints is
read back from the text. For every list that memory holds it comes to an end, after as many
turns as there are lines, and the sum that each turn makes is the sum of the numbers. -/
theorem rows_are_laid_out (l : Loop) (hper : 0 < l.perLine) :
    ((∀ item ∈ l.items, Plain item) →
      ∃ lines, readLines l.indent.toList l.text.toList = some lines ∧
        LaidOut l.width l.trailing l.items lines) ∧
    (l.items.length ≤ mostTexts →
      ∃ starts, (∀ starts' text, l.Prints 0 starts' text ↔ starts' = starts ∧ text = l.text) ∧
        starts.length = l.items.length ⌈/⌉ l.width ∧
        ∀ start ∈ starts, (start + l.perLine).toInt = start.toInt + l.perLine.toInt) := by
  have hpos := Loop.width_pos hper
  constructor
  · intro hplain
    exact ⟨_, readLines_rows hplain l.indent, laidOut_rowBodies hpos hplain⟩
  · intro hsize
    have hzero : (0 : Int64).toInt = (0 : Nat) := Int64.toInt_zero
    obtain ⟨starts, hprints, hlength, hsums⟩ := Loop.exists_prints hper hsize hzero (.inl rfl)
    rw [List.drop_zero] at hprints hlength
    refine ⟨starts, ?_, by rw [hlength, length_chunks hpos], hsums⟩
    intro starts' text
    constructor
    · exact hprints.unique
    · rintro ⟨rfl, rfl⟩
      exact hprints

/-- Three items, one of them empty, behind an indent with a comma and a line end. -/
def threeItems (perLine : Int64) : Loop :=
  ⟨["a", "", "c"], ",\n", perLine, false⟩

theorem plain_threeItems (perLine : Int64) : ∀ item ∈ (threeItems perLine).items, Plain item := by
  simp [threeItems, Plain]

/-- In rows of two there are two lines, and in the longest rows there is one turn. -/
theorem threeItems_laid_out :
    (threeItems 2).text = ",\na, ,\n,\nc\n" ∧
    (∃ lines, readLines [',', '\n'] (threeItems 2).text.toList = some lines ∧
      LaidOut 2 false ["a", "", "c"] lines) ∧
    ∃ starts, (∀ starts' text, (threeItems Int64.maxValue).Prints 0 starts' text ↔
        starts' = starts ∧ text = (threeItems Int64.maxValue).text) ∧
      starts.length = 3 ⌈/⌉ (2 ^ 63 - 1) ∧
      ∀ start ∈ starts, (start + Int64.maxValue).toInt = start.toInt + Int64.maxValue.toInt := by
  refine ⟨?_, ?_, ?_⟩
  · simp [threeItems, Loop.text, Loop.width, rows, chunks, rowLines]
  · exact (rows_are_laid_out (threeItems 2) (by decide)).1 (plain_threeItems 2)
  · exact (rows_are_laid_out (threeItems Int64.maxValue) (by decide)).2 (by decide)

end StepTone.Listing
