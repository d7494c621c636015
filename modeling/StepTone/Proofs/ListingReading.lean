/-
StepTone.Proofs.ListingReading — reading a listing.

A listing is read the way its format is meant: rows of literals, array bodies with a
declared size, assembler directives, and columns. The readers know nothing about how a
listing was printed.

* `words`, `textLines`, `between` — the parts of a text.
* `literal?`, `number?` — an integer literal, and a decimal number.
* `readRows`, `readArray`, `readDirectives`, `readColumn` — the values of a listing.
* `words_rows` — the words of printed rows are the items, whatever the length of a row.
-/
import StepTone.Proofs.DecimalText
import StepTone.Proofs.NumeralReading
import StepTone.Table.Register

namespace StepTone.Listing

/-! ## Parts of a text -/

/-- The lines of a text; after the last line end there is an empty one. -/
def textLines (text : List Char) : List (List Char) :=
  text.splitOn '\n'

/-- What stands between the words of a row. -/
def isGap (c : Char) : Bool :=
  c = ' ' || c = '\t' || c = '\n' || c = ','

/-- The words of a text. -/
def words (text : List Char) : List (List Char) :=
  (text.splitOnP isGap).filter (· ≠ [])

/-- What stands between the first `opening` and the `closing` that follows it. -/
def between (opening closing : Char) (text : List Char) : List Char :=
  ((text.dropWhile (· ≠ opening)).drop 1).takeWhile (· ≠ closing)

/-- The value of an integer literal. -/
def literal? (word : List Char) : Option Int :=
  (Numeral.anyBase (String.ofList word)).toOption.map Int64.toInt

/-- The value of a decimal number. -/
def number? (word : List Char) : Option Int :=
  (Numeral.decimal (String.ofList word)).toOption.map Int64.toInt

/-! ## Readers -/

/-- The lines before the first empty one. -/
def block (text : List Char) : List (List Char) :=
  (textLines text).takeWhile (· ≠ [])

/-- The literals of the first block of rows; lines that do not start with a literal are
passed over. -/
def readRows (text : List Char) : Option (List Int) :=
  (((block text).filter ("0x".toList.isPrefixOf ·)).flatMap words).mapM literal?

/-- The literals of the first array, which must be as many as its declared size. -/
def readArray (text : List Char) : Option (List Int) := do
  let size ← number? (between '[' ']' text)
  let values ← (words (between '\x7b' '\x7d' text)).mapM literal?
  if size = values.length then some values else none

/-- The byte that a directive writes. -/
def readDirective (line : List Char) : Option Int :=
  match words line with
  | [verb, word, place] =>
    if verb = "write".toList ∧ place = "gpram-inc-addr;".toList then
      (literal? word).filter fun b => 0 ≤ b && b < 256
    else none
  | _ => none

/-- Two bytes for each value, the low one first. -/
def pairBytes : List Int → Option (List Int)
  | [] => some []
  | [_] => none
  | low :: high :: rest => (pairBytes rest).map ((low + 256 * high) :: ·)

/-- The values that the directives before the song write to registers of a width. -/
def readDirectives (w : Table.Width) (text : List Char) : Option (List Int) := do
  let lines := (textLines text).takeWhile (· ≠ "# Song".toList)
  let bytes ← (lines.filter fun line => line ≠ [] && line.head? ≠ some '#').mapM readDirective
  if w = .sixteen then pairBytes bytes else some bytes

/-- The column with a name in the first block of comma-separated lines, of which the first
one names the columns; lines behind a comment sign are passed over. -/
def readColumn (name : String) (text : List Char) : Option (List Int) :=
  match (block text).filter fun line => line.head? ≠ some '#' with
  | [] => none
  | header :: rows => rows.mapM fun row =>
    ((row.splitOn ',')[(header.splitOn ',').idxOf name.toList]?).bind number?

/-! ## Words -/

/-- A word: not empty and without a gap. -/
structure IsWord (w : List Char) : Prop where
  ne_nil : w ≠ []
  solid : ∀ c ∈ w, isGap c = false

/-- Characters of a kind that no gap is of make a word. -/
theorem isWord_of_kind {p : Char → Bool} {w : List Char}
    (hp : (p ' ' = false ∧ p '\t' = false) ∧ p '\n' = false ∧ p ',' = false) (hne : w ≠ [])
    (h : ∀ c ∈ w, p c = true) : IsWord w := by
  refine ⟨hne, fun c hc => ?_⟩
  have hkind := h c hc
  by_contra hgap
  rw [Bool.not_eq_false, isGap] at hgap
  simp only [Bool.or_eq_true, decide_eq_true_iff] at hgap
  rcases hgap with ((rfl | rfl) | rfl) | rfl <;> simp [hp] at hkind

theorem isWord_of_numeric {w : List Char} (hne : w ≠ []) (h : Decimal.Numeric w) : IsWord w :=
  isWord_of_kind (by decide) hne h

theorem words_nil : words [] = [] := by
  simp [words]

theorem words_append_gap {g : Char} (hg : isGap g = true) (xs ys : List Char) :
    words (xs ++ g :: ys) = words xs ++ words ys := by
  rw [words, List.splitOnP_append_cons xs ys hg, List.filter_append]
  rfl

theorem words_of_isWord {w : List Char} (h : IsWord w) : words w = [w] := by
  rw [words, List.splitOnP_eq_singleton h.solid]
  simp [h.ne_nil]

theorem words_word_blank {w : List Char} (h : IsWord w) (rest : List Char) :
    words (w ++ ' ' :: rest) = w :: words rest := by
  rw [words_append_gap rfl, words_of_isWord h]
  rfl

/-- The three words of a directive. -/
theorem words_directive {literal place : List Char} (hliteral : IsWord literal)
    (hplace : IsWord place) :
    words ("write".toList ++ ' ' :: (literal ++ ' ' :: place)) =
      ["write".toList, literal, place] := by
  rw [words_word_blank ⟨by decide, by decide⟩, words_word_blank hliteral, words_of_isWord hplace]

theorem words_gap_cons {g : Char} (hg : isGap g = true) (ys : List Char) :
    words (g :: ys) = words ys :=
  words_append_gap hg [] ys

/-- Gaps in front have no effect. -/
theorem words_gaps_append {gaps : List Char} (h : ∀ c ∈ gaps, isGap c = true)
    (ys : List Char) : words (gaps ++ ys) = words ys := by
  induction gaps with
  | nil => rfl
  | cons g rest ih =>
    obtain ⟨hg, hrest⟩ := List.forall_mem_cons.mp h
    rw [List.cons_append, words_gap_cons hg, ih hrest]

/-- Gaps at the end have no effect. -/
theorem words_append_gaps {gaps : List Char} (h : ∀ c ∈ gaps, isGap c = true)
    (xs : List Char) : words (xs ++ gaps) = words xs := by
  cases gaps with
  | nil => rw [List.append_nil]
  | cons g rest =>
    obtain ⟨hg, hrest⟩ := List.forall_mem_cons.mp h
    have hnone := words_gaps_append hrest []
    rw [List.append_nil, words_nil] at hnone
    rw [words_append_gap hg, hnone, List.append_nil]

theorem words_intercalate {ws : List (List Char)} (h : ∀ w ∈ ws, IsWord w) :
    words ([',', ' '].intercalate ws) = ws := by
  induction ws with
  | nil => exact words_nil
  | cons w rest ih =>
    obtain ⟨hw, hrest⟩ := List.forall_mem_cons.mp h
    cases rest with
    | nil => rw [List.intercalate_singleton, words_of_isWord hw]
    | cons v more =>
      rw [List.intercalate_cons_cons, List.append_assoc, List.cons_append,
        words_append_gap rfl, List.cons_append, words_gap_cons rfl, List.nil_append, ih hrest,
        words_of_isWord hw]
      rfl

/-! ## Lines -/

theorem textLines_line {line : List Char} (h : '\n' ∉ line) (rest : List Char) :
    textLines (line ++ '\n' :: rest) = line :: textLines rest :=
  List.splitOn_append_cons_self_of_not_mem h rest

/-- Lines that are printed one after the other. -/
theorem textLines_join {lines : List String} (h : ∀ line ∈ lines, '\n' ∉ line.toList)
    (rest : List Char) :
    textLines ((String.join (lines.map (· ++ "\n"))).toList ++ rest) =
      lines.map String.toList ++ textLines rest := by
  induction lines with
  | nil => simp
  | cons line more ih =>
    obtain ⟨hline, hmore⟩ := List.forall_mem_cons.mp h
    have htext : (String.join ((line :: more).map (· ++ "\n"))).toList ++ rest =
        line.toList ++ '\n' :: ((String.join (more.map (· ++ "\n"))).toList ++ rest) := by
      simp
    rw [htext, textLines_line hline, ih hmore]
    rfl

theorem words_join (lines : List String) :
    words (String.join (lines.map (· ++ "\n"))).toList =
      lines.flatMap fun line => words line.toList := by
  induction lines with
  | nil => simp [words_nil]
  | cons line more ih =>
    have htext : (String.join ((line :: more).map (· ++ "\n"))).toList =
        line.toList ++ '\n' :: (String.join (more.map (· ++ "\n"))).toList := by
      simp
    rw [htext, words_append_gap rfl, ih, List.flatMap_cons]

/-! ## Rows -/

theorem flatten_chunks {α : Type} (n : Nat) (items : List α) :
    (chunks n items).flatten = items := by
  fun_induction chunks n items with
  | case1 => rfl
  | case2 x rest ih => rw [List.flatten_cons, ih, List.cons_append, List.take_append_drop]

theorem chunk_ne_nil {α : Type} {n : Nat} {items piece : List α} (h : piece ∈ chunks n items) :
    piece ≠ [] := by
  fun_induction chunks n items with
  | case1 => exact absurd h List.not_mem_nil
  | case2 x rest ih =>
    rcases List.mem_cons.mp h with rfl | hmore
    · exact List.cons_ne_nil _ _
    · exact ih hmore

theorem mem_of_mem_chunk {α : Type} {n : Nat} {items piece : List α} {x : α}
    (h : piece ∈ chunks n items) (hx : x ∈ piece) : x ∈ items := by
  rw [← flatten_chunks n items]
  exact List.mem_flatten.mpr ⟨piece, h, hx⟩

/-- What stands behind a row: a comma, unless it is the last one and none is asked for. -/
def rowEnd (trailing last : Bool) : String :=
  if last && !trailing then "" else ","

theorem rowEnd_eq (trailing last : Bool) :
    rowEnd trailing last = "," ∨ rowEnd trailing last = "" := by
  rw [rowEnd]
  split
  · exact .inr rfl
  · exact .inl rfl

theorem rowLines_cons (indent : String) (trailing : Bool) (row : List String)
    (rest : List (List String)) : rowLines indent trailing (row :: rest) =
      (indent ++ ", ".intercalate row ++ rowEnd trailing rest.isEmpty) ::
        rowLines indent trailing rest := by
  cases rest with
  | nil => cases trailing <;> rfl
  | cons next more => cases trailing <;> rfl

/-- Every line is the indent, the items of a piece, and a comma or none. -/
theorem mem_rowLines {indent line : String} {trailing : Bool} {pieces : List (List String)}
    (h : line ∈ rowLines indent trailing pieces) :
    ∃ piece ∈ pieces, ∃ comma, (comma = "," ∨ comma = "") ∧
      line = indent ++ ", ".intercalate piece ++ comma := by
  induction pieces with
  | nil => exact absurd h List.not_mem_nil
  | cons row rest ih =>
    rw [rowLines_cons] at h
    rcases List.mem_cons.mp h with rfl | hmore
    · exact ⟨row, List.mem_cons_self, _, rowEnd_eq trailing _, rfl⟩
    · obtain ⟨piece, hpiece, htail⟩ := ih hmore
      exact ⟨piece, List.mem_cons_of_mem row hpiece, htail⟩

theorem words_rowLine {indent comma : String} {piece : List String}
    (hindent : ∀ c ∈ indent.toList, isGap c = true) (hcomma : comma = "," ∨ comma = "")
    (hpiece : ∀ item ∈ piece, IsWord item.toList) :
    words (indent ++ ", ".intercalate piece ++ comma).toList = piece.map String.toList := by
  have hgaps : ∀ c ∈ comma.toList, isGap c = true := by
    rcases hcomma with rfl | rfl <;> decide
  have hwords : ∀ w ∈ piece.map String.toList, IsWord w := by
    intro w hw
    obtain ⟨item, hitem, rfl⟩ := List.mem_map.mp hw
    exact hpiece item hitem
  rw [String.toList_append, words_append_gaps hgaps, String.toList_append,
    words_gaps_append hindent, String.toList_intercalate]
  exact words_intercalate hwords

theorem words_rowLines {indent : String} {trailing : Bool} {pieces : List (List String)}
    (hindent : ∀ c ∈ indent.toList, isGap c = true)
    (hpieces : ∀ piece ∈ pieces, ∀ item ∈ piece, IsWord item.toList) :
    ((rowLines indent trailing pieces).flatMap fun line => words line.toList) =
      pieces.flatten.map String.toList := by
  induction pieces with
  | nil => rfl
  | cons row rest ih =>
    obtain ⟨hrow, hrest⟩ := List.forall_mem_cons.mp hpieces
    rw [rowLines_cons, List.flatMap_cons, words_rowLine hindent (rowEnd_eq trailing _) hrow,
      ih hrest, List.flatten_cons, List.map_append]

/-- The words of printed rows are the items, whatever the length of a row. -/
theorem words_rows {indent : String} {items : List String} (perLine : Nat) (trailing : Bool)
    (hindent : ∀ c ∈ indent.toList, isGap c = true)
    (hitems : ∀ item ∈ items, IsWord item.toList) :
    words (rows indent perLine trailing items).toList = items.map String.toList := by
  rw [rows, words_join, words_rowLines hindent, flatten_chunks]
  exact fun piece hpiece item hitem => hitems item (mem_of_mem_chunk hpiece hitem)

/-! ## Blocks and brackets -/

/-- A block of lines, and after it the end of the text or an empty line. -/
theorem block_join {lines : List String} {rest : List Char} {more : List (List Char)}
    (h : ∀ line ∈ lines, line ≠ "" ∧ '\n' ∉ line.toList) (hrest : textLines rest = [] :: more) :
    block ((String.join (lines.map (· ++ "\n"))).toList ++ rest) = lines.map String.toList := by
  have hfull : ∀ line ∈ lines.map String.toList, decide (line ≠ []) = true := by
    intro line hline
    obtain ⟨text, htext, rfl⟩ := List.mem_map.mp hline
    simpa using (h text htext).1
  rw [block, textLines_join fun line hline => (h line hline).2,
    List.takeWhile_append_of_pos hfull, hrest]
  simp

theorem decide_ne_of_not_mem {c : Char} {text : List Char} (h : c ∉ text) :
    ∀ d ∈ text, decide (d ≠ c) = true := by
  intro d hd
  exact decide_eq_true fun heq => h (heq ▸ hd)

theorem takeWhile_before {c : Char} {front : List Char} (h : c ∉ front) (rest : List Char) :
    (front ++ c :: rest).takeWhile (· ≠ c) = front := by
  rw [List.takeWhile_append_of_pos (decide_ne_of_not_mem h),
    List.takeWhile_cons_of_neg (by simp), List.append_nil]

theorem dropWhile_before {c : Char} {front : List Char} (h : c ∉ front) (rest : List Char) :
    (front ++ c :: rest).dropWhile (· ≠ c) = c :: rest := by
  rw [List.dropWhile_append_of_pos (decide_ne_of_not_mem h), List.dropWhile_cons_of_neg (by simp)]

theorem between_eq {opening closing : Char} {front inner : List Char} (hfront : opening ∉ front)
    (hinner : closing ∉ inner) (back : List Char) :
    between opening closing (front ++ opening :: (inner ++ closing :: back)) = inner := by
  rw [between, dropWhile_before hfront, List.drop_one, List.tail_cons, takeWhile_before hinner]

/-! ## Literals -/

theorem literal?_hexLiteral {n : Nat} (width : Nat) (h : n < 2 ^ 63) :
    literal? (hexLiteral width n).toList = some (n : Int) := by
  rw [literal?, String.ofList_toList, Numeral.anyBase_hexLiteral width h]
  exact congrArg some (Int64.toInt_ofNat_of_lt h)

theorem number?_toString {n : Nat} (h : n < 2 ^ 63) :
    number? (toString n).toList = some (n : Int) := by
  rw [number?, String.ofList_toList, Numeral.decimal_toString h]
  exact congrArg some (Int64.toInt_ofNat_of_lt h)

/-- A literal below 256 is read as a byte. -/
theorem byte?_hexLiteral {n : Nat} (h : n < 256) :
    ((literal? (hexLiteral 2 n).toList).filter fun b => 0 ≤ b && b < 256) = some (n : Int) := by
  have hbyte : (decide (0 ≤ (n : Int)) && decide ((n : Int) < 256)) = true := by
    rw [Bool.and_eq_true, decide_eq_true_iff, decide_eq_true_iff]
    omega
  rw [literal?_hexLiteral 2 (by omega), Option.filter_some, if_pos hbyte]

theorem numeric_hexLiteral (width n : Nat) : Decimal.Numeric (hexLiteral width n).toList := by
  rw [Numeral.toList_hexLiteral]
  refine .cons rfl (.cons rfl ((Decimal.Numeric.zeros _).append ?_))
  intro c hc
  obtain ⟨x, hx, rfl⟩ := List.mem_map.mp hc
  obtain ⟨d, hd, rfl⟩ := Numeral.exists_of_mem_toDigits (by norm_num) hx
  interval_cases d <;> rfl

theorem isWord_hexLiteral (width n : Nat) : IsWord (hexLiteral width n).toList :=
  isWord_of_numeric (by simp) (numeric_hexLiteral width n)

theorem mapM_map_eq_some {α β γ : Type} {f : α → β} {g : β → Option γ} {h : α → γ} {xs : List α}
    (hg : ∀ x ∈ xs, g (f x) = some (h x)) : (xs.map f).mapM g = some (xs.map h) := by
  induction xs with
  | nil => rfl
  | cons x rest ih =>
    obtain ⟨hx, hrest⟩ := List.forall_mem_cons.mp hg
    rw [List.map_cons, List.mapM_cons, hx, ih hrest]
    rfl

/-! ## Lists of literals -/

section

variable {width : Nat} {ns : List Nat} {item : String}

theorem numeric_of_mem_literals (h : item ∈ ns.map (hexLiteral width)) :
    Decimal.Numeric item.toList := by
  obtain ⟨n, _, rfl⟩ := List.mem_map.mp h
  exact numeric_hexLiteral width n

theorem isWord_of_mem_literals (h : item ∈ ns.map (hexLiteral width)) : IsWord item.toList := by
  obtain ⟨n, _, rfl⟩ := List.mem_map.mp h
  exact isWord_hexLiteral width n

theorem mapM_literal?_literals (h : ∀ n ∈ ns, n < 2 ^ 63) :
    ((ns.map (hexLiteral width)).map String.toList).mapM literal? =
      some (ns.map fun n : Nat => (n : Int)) := by
  rw [List.map_map]
  exact mapM_map_eq_some fun n hn => literal?_hexLiteral width (h n hn)

end

end StepTone.Listing
