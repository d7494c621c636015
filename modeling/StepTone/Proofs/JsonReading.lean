/-
StepTone.Proofs.JsonReading — reading JSON.

The reader takes one character at a time. It keeps the brackets that are open, what was
read inside each, and what may come next; a text that breaks the grammar of JSON leads
nowhere. Strings keep their escapes and numbers their spelling, so reading loses nothing
that was written.

* `Tree` — a document as it is written.
* `Reader`, `Reader.step` — the state of a reader, and what a character does to it.
* `read` — the document of a text.
* `read_indented`, `read_compact` — a document is read back, from several lines or from one.
-/
import Mathlib.Data.List.Forall2
import StepTone.JsonValue
import StepTone.Proofs.DecimalText
import StepTone.Proofs.NumeralReading

namespace StepTone.JsonText

open Decimal (isNumeric Numeric)

/-- A document as it is written. -/
inductive Tree where
  /-- A string, with its escapes. -/
  | text (raw : List Char)
  /-- A number or a word. -/
  | bare (raw : List Char)
  | arr (items : List Tree)
  | obj (members : List (List Char × Tree))

/-! ## The reader -/

/-- What may come next. -/
inductive Want where
  | value
  | valueOrEnd
  | key
  | keyOrEnd
  | colon
  /-- A comma, or the end of what is open. -/
  | next

/-- An open bracket with what was read in it, the last part first. -/
inductive Frame where
  | arr (items : List Tree)
  | obj (members : List (List Char × Tree)) (key : List Char)

/-- Where in a text the reader is; what was read of a string or a word stands backwards. -/
inductive Mode where
  | outside
  | string (raw : List Char) (escape : Bool)
  | word (raw : List Char)

/-- The state of a reader. -/
structure Reader where
  mode : Mode
  want : Want
  frames : List Frame

/-- A value as the next part of the innermost bracket. -/
def put (v : Tree) : List Frame → Option (List Frame)
  | .arr items :: rest => some (.arr (v :: items) :: rest)
  | .obj members key :: rest => some (.obj ((key, v) :: members) [] :: rest)
  | [] => none

namespace Reader

/-- A string, a word or a closed bracket is complete. -/
def accept (v : Tree) : Want → List Frame → Option Reader
  | .value, frames | .valueOrEnd, frames => (put v frames).map (⟨.outside, .next, ·⟩)
  | .key, .obj members _ :: rest | .keyOrEnd, .obj members _ :: rest =>
    match v with
    | .text raw => some ⟨.outside, .colon, .obj members raw :: rest⟩
    | _ => none
  | _, _ => none

/-- A bracket is opened where a value may stand. -/
def opened (frame : Frame) (want : Want) : Want → List Frame → Option Reader
  | .value, frames | .valueOrEnd, frames => some ⟨.outside, want, frame :: frames⟩
  | _, _ => none

/-- A bracket is closed; the value that it makes belongs to the bracket around it. -/
def closed (brace : Bool) : Want → List Frame → Option Reader
  | .next, .arr items :: rest | .valueOrEnd, .arr items :: rest =>
    if brace then none else accept (.arr items.reverse) .value rest
  | .next, .obj members _ :: rest | .keyOrEnd, .obj members _ :: rest =>
    if brace then accept (.obj members.reverse) .value rest else none
  | _, _ => none

/-- A comma. -/
def comma : Want → List Frame → Option Reader
  | .next, .arr items :: rest => some ⟨.outside, .value, .arr items :: rest⟩
  | .next, .obj members key :: rest => some ⟨.outside, .key, .obj members key :: rest⟩
  | _, _ => none

/-- A colon. -/
def colon : Want → List Frame → Option Reader
  | .colon, frames => some ⟨.outside, .value, frames⟩
  | _, _ => none

/-- A character outside strings and words. -/
def punctuate (c : Char) (want : Want) (frames : List Frame) : Option Reader :=
  if c = ' ' ∨ c = '\n' ∨ c = '\t' ∨ c = '\r' then some ⟨.outside, want, frames⟩
  else if c = '[' then opened (.arr []) .valueOrEnd want frames
  else if c = ']' then closed false want frames
  else if c = '\x7b' then opened (.obj [] []) .keyOrEnd want frames
  else if c = '\x7d' then closed true want frames
  else if c = ',' then comma want frames
  else if c = ':' then colon want frames
  else if c = '"' then some ⟨.string [] false, want, frames⟩
  else if isNumeric c then some ⟨.word [c], want, frames⟩
  else none

/-- One character. -/
def step (r : Reader) (c : Char) : Option Reader :=
  match r.mode with
  | .outside => punctuate c r.want r.frames
  | .string raw true => some { r with mode := .string (c :: raw) false }
  | .string raw false =>
    if c = '"' then accept (.text raw.reverse) r.want r.frames
    else some { r with mode := .string (c :: raw) (c = '\\') }
  | .word raw =>
    if isNumeric c then some { r with mode := .word (c :: raw) }
    else (accept (.bare raw.reverse) r.want r.frames).bind fun r => punctuate c r.want r.frames

/-- A text, character by character. -/
def feed (text : List Char) (r : Reader) : Option Reader :=
  text.foldlM step r

/-- The only value that was read, outside all brackets. -/
def result? : Reader → Option Tree
  | ⟨.outside, .next, [.arr [v]]⟩ => some v
  | _ => none

end Reader

/-- The document of a text. -/
def read (text : List Char) : Option Tree :=
  (Reader.feed (text ++ ['\n']) ⟨.outside, .value, [.arr []]⟩).bind Reader.result?

/-! ## Words and blanks -/

section

variable {want : Want} {frames frames' : List Frame} {c : Char}

theorem feed_cons {r r' : Reader} (h : r.step c = some r') (rest : List Char) :
    Reader.feed (c :: rest) r = Reader.feed rest r' := by
  rw [Reader.feed, List.foldlM_cons, h]
  rfl

theorem step_word (seen : List Char) :
    Reader.step ⟨.word seen, want, frames⟩ c =
      if isNumeric c then some ⟨.word (c :: seen), want, frames⟩
      else (Reader.accept (.bare seen.reverse) want frames).bind fun r =>
        Reader.punctuate c r.want r.frames :=
  rfl

/-- Line ends and blanks have no effect outside strings. -/
theorem feed_blanks {blanks : List Char} (h : ∀ c ∈ blanks, c = '\n' ∨ c = ' ')
    (rest : List Char) :
    Reader.feed (blanks ++ rest) ⟨.outside, want, frames⟩ =
      Reader.feed rest ⟨.outside, want, frames⟩ := by
  induction blanks with
  | nil => rfl
  | cons b more ih =>
    obtain ⟨hb, hmore⟩ := List.forall_mem_cons.mp h
    have hstep : Reader.step ⟨.outside, want, frames⟩ b = some ⟨.outside, want, frames⟩ := by
      rcases hb with rfl | rfl <;> rfl
    rw [List.cons_append, feed_cons hstep, ih hmore]

theorem punctuate_numeric (h : isNumeric c = true) :
    Reader.punctuate c want frames = some ⟨.word [c], want, frames⟩ := by
  have hne {d : Char} (hd : isNumeric d = false) : c ≠ d := by
    rintro rfl
    exact Bool.false_ne_true (hd.symm.trans h)
  have hblank : ¬ (c = ' ' ∨ c = '\n' ∨ c = '\t' ∨ c = '\r') := by
    rintro (rfl | rfl | rfl | rfl) <;> cases h
  rw [Reader.punctuate, if_neg hblank, if_neg (hne rfl), if_neg (hne rfl), if_neg (hne rfl),
    if_neg (hne rfl), if_neg (hne rfl), if_neg (hne rfl), if_neg (hne rfl), if_pos h]

/-- A value that is read up to the character behind it. -/
def Reads (text : List Char) (v : Tree) : Prop :=
  ∀ (want : Want) (frames frames' : List Frame) (c : Char) (rest : List Char),
    want = .value ∨ want = .valueOrEnd → put v frames = some frames' → isNumeric c = false →
    Reader.feed (text ++ c :: rest) ⟨.outside, want, frames⟩ =
      Reader.feed (c :: rest) ⟨.outside, .next, frames'⟩

theorem accept_value {v : Tree} (hwant : want = .value ∨ want = .valueOrEnd)
    (hput : put v frames = some frames') :
    Reader.accept v want frames = some ⟨.outside, .next, frames'⟩ := by
  rcases hwant with rfl | rfl <;> rw [Reader.accept, hput] <;> rfl

theorem feed_word {raw : List Char} (seen : List Char) (hraw : Numeric raw)
    (hwant : want = .value ∨ want = .valueOrEnd)
    (hput : put (.bare (seen.reverse ++ raw)) frames = some frames') (hc : isNumeric c = false)
    (rest : List Char) :
    Reader.feed (raw ++ c :: rest) ⟨.word seen, want, frames⟩ =
      Reader.feed (c :: rest) ⟨.outside, .next, frames'⟩ := by
  induction raw generalizing seen with
  | nil =>
    -- a word has no end of its own: the character behind it closes the word and is then
    -- read as if it had stood outside
    rw [List.append_nil] at hput
    have hstep : Reader.step ⟨.word seen, want, frames⟩ c =
        Reader.step ⟨.outside, .next, frames'⟩ c := by
      rw [step_word, if_neg (Bool.eq_false_iff.mp hc), accept_value hwant hput]
      rfl
    rw [List.nil_append, Reader.feed, Reader.feed, List.foldlM_cons, List.foldlM_cons, hstep]
  | cons x more ih =>
    obtain ⟨hx, hmore⟩ := List.forall_mem_cons.mp hraw
    have hstep : Reader.step ⟨.word seen, want, frames⟩ x =
        some ⟨.word (x :: seen), want, frames⟩ := by
      rw [step_word, if_pos hx]
    rw [List.cons_append, feed_cons hstep]
    refine ih (x :: seen) hmore ?_
    rw [List.reverse_cons, List.append_assoc]
    exact hput

/-- Numbers and words. -/
theorem reads_bare {raw : List Char} (hne : raw ≠ []) (hraw : Numeric raw) :
    Reads raw (.bare raw) := by
  intro want frames frames' c rest hwant hput hc
  cases raw with
  | nil => exact absurd rfl hne
  | cons x more =>
    obtain ⟨hx, hmore⟩ := List.forall_mem_cons.mp hraw
    have hstep : Reader.step ⟨.outside, want, frames⟩ x = some ⟨.word [x], want, frames⟩ :=
      punctuate_numeric hx
    rw [List.cons_append, feed_cons hstep]
    exact feed_word [x] hmore hwant hput hc rest

/-! ## Strings -/

/-- Part of a string that holds whole escapes only and does not end the string. -/
def Sealed (raw : List Char) : Prop :=
  ∀ (seen : List Char) (want : Want) (frames : List Frame) (rest : List Char),
    Reader.feed (raw ++ rest) ⟨.string seen false, want, frames⟩ =
      Reader.feed rest ⟨.string (raw.reverse ++ seen) false, want, frames⟩

theorem sealed_nil : Sealed [] := fun _ _ _ _ => rfl

theorem Sealed.append {raw more : List Char} (h : Sealed raw) (h' : Sealed more) :
    Sealed (raw ++ more) := by
  intro seen want frames rest
  rw [List.append_assoc, h, h', List.reverse_append, List.append_assoc]

theorem sealed_char (hquote : c ≠ '"') (hslash : c ≠ '\\') : Sealed [c] := by
  intro seen want frames rest
  have hstep : Reader.step ⟨.string seen false, want, frames⟩ c =
      some ⟨.string (c :: seen) (c = '\\'), want, frames⟩ :=
    if_neg hquote
  rw [decide_eq_false hslash] at hstep
  exact feed_cons hstep rest

theorem sealed_escape (c : Char) : Sealed ['\\', c] := by
  intro seen want frames rest
  rfl

theorem sealed_numeric {raw : List Char} (h : Numeric raw) : Sealed raw := by
  induction raw with
  | nil => exact sealed_nil
  | cons c more ih =>
    obtain ⟨hc, hmore⟩ := List.forall_mem_cons.mp h
    refine (sealed_char ?_ ?_).append (ih hmore)
    · rintro rfl
      cases hc
    · rintro rfl
      cases hc

theorem numeric_hex (width n : ℕ) : Numeric (Text.hex width n) := by
  refine (Numeric.zeros _).append ?_
  intro c hc
  obtain ⟨d, hd, rfl⟩ := Numeral.exists_of_mem_toDigits (by norm_num) hc
  interval_cases d <;> rfl

theorem sealed_escaped (c : Char) : Sealed (JsonValue.escaped c) := by
  unfold JsonValue.escaped
  split
  case h_8 hquote hslash _ _ _ _ _ =>
    split
    · exact (sealed_escape 'u').append (sealed_numeric (numeric_hex 4 c.toNat))
    · exact sealed_char hquote hslash
  all_goals exact sealed_escape _

theorem sealed_flatMap_escaped (text : List Char) : Sealed (text.flatMap JsonValue.escaped) := by
  induction text with
  | nil => exact sealed_nil
  | cons c rest ih => exact (sealed_escaped c).append ih

/-- From quote to quote. -/
theorem feed_quoted {raw : List Char} (h : Sealed raw) {r : Reader}
    (haccept : Reader.accept (.text raw) want frames = some r) (rest : List Char) :
    Reader.feed ('"' :: (raw ++ '"' :: rest)) ⟨.outside, want, frames⟩ = Reader.feed rest r := by
  have hopen : Reader.step ⟨.outside, want, frames⟩ '"' = some ⟨.string [] false, want, frames⟩ :=
    rfl
  have hclose : Reader.step ⟨.string raw.reverse false, want, frames⟩ '"' = some r := by
    calc Reader.step ⟨.string raw.reverse false, want, frames⟩ '"'
        = Reader.accept (.text raw.reverse.reverse) want frames := rfl
      _ = some r := by rw [List.reverse_reverse, haccept]
  rw [feed_cons hopen, h, List.append_nil, feed_cons hclose]

theorem toList_quotedString (s : String) :
    (JsonValue.quotedString s).toList = '"' :: (s.toList.flatMap JsonValue.escaped ++ ['"']) :=
  String.toList_ofList

theorem reads_quotedString (s : String) :
    Reads (JsonValue.quotedString s).toList (.text (s.toList.flatMap JsonValue.escaped)) := by
  intro want frames frames' c rest hwant hput _
  rw [toList_quotedString, List.cons_append, List.append_assoc]
  exact feed_quoted (sealed_flatMap_escaped _) (accept_value hwant hput) (c :: rest)

/-- A key and its colon. -/
theorem feed_key {members : List (List Char × Tree)} {key : List Char} (s : String)
    (hwant : want = .key ∨ want = .keyOrEnd) (rest : List Char) :
    Reader.feed ((JsonValue.quotedString s ++ ":").toList ++ rest)
        ⟨.outside, want, .obj members key :: frames⟩ =
      Reader.feed rest
        ⟨.outside, .value, .obj members (s.toList.flatMap JsonValue.escaped) :: frames⟩ := by
  have haccept : Reader.accept (.text (s.toList.flatMap JsonValue.escaped)) want
      (.obj members key :: frames) =
      some ⟨.outside, .colon, .obj members (s.toList.flatMap JsonValue.escaped) :: frames⟩ := by
    rcases hwant with rfl | rfl <;> rfl
  rw [String.toList_append, toList_quotedString, List.append_assoc, List.cons_append,
    List.append_assoc]
  exact feed_quoted (sealed_flatMap_escaped _) haccept (":".toList ++ rest)

end

/-! ## Brackets -/

/-- A kind of brackets around parts, and what the reader does with it. -/
structure Bracket (α : Type) where
  opening : Char
  closing : Char
  closing_not_numeric : isNumeric closing = false
  /-- What a part starts with, and what may also come while there is none. -/
  start : Want
  startOrEnd : Want
  frame : List α → Frame
  tree : List α → Tree
  step_opening {want : Want} (frames : List Frame) (h : want = .value ∨ want = .valueOrEnd) :
    Reader.step ⟨.outside, want, frames⟩ opening = some ⟨.outside, startOrEnd, frame [] :: frames⟩
  step_comma (seen : List α) (frames : List Frame) :
    Reader.step ⟨.outside, .next, frame seen :: frames⟩ ',' =
      some ⟨.outside, start, frame seen :: frames⟩
  step_closing {want : Want} {frames frames' : List Frame} (seen : List α)
    (hwant : want = .next ∨ want = startOrEnd)
    (hput : put (tree seen.reverse) frames = some frames') :
    Reader.step ⟨.outside, want, frame seen :: frames⟩ closing = some ⟨.outside, .next, frames'⟩

/-- The brackets of an array. -/
def square : Bracket Tree where
  opening := '['
  closing := ']'
  closing_not_numeric := rfl
  start := .value
  startOrEnd := .valueOrEnd
  frame := .arr
  tree := .arr
  step_opening frames h := by rcases h with rfl | rfl <;> rfl
  step_comma _ _ := rfl
  step_closing _ hwant hput := by
    rcases hwant with rfl | rfl <;> exact accept_value (.inl rfl) hput

/-- The brackets of an object. -/
def curly : Bracket (List Char × Tree) where
  opening := '\x7b'
  closing := '\x7d'
  closing_not_numeric := rfl
  start := .key
  startOrEnd := .keyOrEnd
  frame members := .obj members []
  tree := .obj
  step_opening frames h := by rcases h with rfl | rfl <;> rfl
  step_comma _ _ := rfl
  step_closing _ hwant hput := by
    rcases hwant with rfl | rfl <;> exact accept_value (.inl rfl) hput

section

variable {α : Type} (b : Bracket α)

/-- A part of a bracket that is read up to the character behind it. -/
def Bracket.ReadsPart (text : String) (part : α) : Prop :=
  ∀ (want : Want) (seen : List α) (frames : List Frame) (c : Char) (rest : List Char),
    want = b.start ∨ want = b.startOrEnd → isNumeric c = false →
    Reader.feed (text.toList ++ c :: rest) ⟨.outside, want, b.frame seen :: frames⟩ =
      Reader.feed (c :: rest) ⟨.outside, .next, b.frame (part :: seen) :: frames⟩

theorem toList_lineStart (depth : ℕ) :
    (JsonValue.lineStart depth).toList = '\n' :: List.replicate (2 * depth) ' ' := by
  simp [JsonValue.lineStart]

theorem blank_lineStart (depth : ℕ) :
    ∀ c ∈ (JsonValue.lineStart depth).toList, c = '\n' ∨ c = ' ' := by
  intro c hc
  rw [toList_lineStart] at hc
  exact (List.mem_cons.mp hc).imp_right List.eq_of_mem_replicate

theorem feed_lineStart {want : Want} {frames : List Frame} (depth : ℕ) (rest : List Char) :
    Reader.feed ((JsonValue.lineStart depth).toList ++ rest) ⟨.outside, want, frames⟩ =
      Reader.feed rest ⟨.outside, want, frames⟩ :=
  feed_blanks (blank_lineStart depth) rest

variable {b}

/-- Parts with a comma between them, and blanks behind it or none. -/
theorem feed_parts {texts : List String} {parts : List α} {want : Want} {frames : List Frame}
    {c : Char} {rest : List Char} (gap : String) (h : List.Forall₂ b.ReadsPart texts parts)
    (hne : texts ≠ []) (hgap : ∀ c ∈ gap.toList, c = '\n' ∨ c = ' ')
    (hwant : want = b.start ∨ want = b.startOrEnd) (hc : isNumeric c = false)
    (seen : List α) :
    Reader.feed ((("," ++ gap).intercalate texts).toList ++ c :: rest)
        ⟨.outside, want, b.frame seen :: frames⟩ =
      Reader.feed (c :: rest) ⟨.outside, .next, b.frame (parts.reverse ++ seen) :: frames⟩ := by
  induction h generalizing want seen with
  | nil => exact absurd rfl hne
  | @cons text part texts parts hpart hparts ih =>
    cases hparts with
    | nil =>
      rw [String.toList_intercalate, List.map_singleton, List.intercalate_singleton]
      exact hpart want seen frames c rest hwant hc
    | cons hnext hmore =>
      rw [String.toList_intercalate, List.map_cons, List.map_cons, List.intercalate_cons_cons,
        ← List.map_cons, ← String.toList_intercalate, String.toList_append, List.append_assoc,
        List.append_assoc, List.append_assoc]
      -- what stands behind a part is the comma before the next one
      refine (hpart want seen frames ',' _ hwant rfl).trans ?_
      rw [feed_cons (b.step_comma _ _)]
      refine (feed_blanks hgap _).trans ?_
      rw [ih (List.cons_ne_nil _ _) (.inl rfl)]
      simp

/-- Parts between brackets, one on a line. -/
theorem reads_bracketed {texts : List String} {parts : List α}
    (h : List.Forall₂ b.ReadsPart texts parts) (depth : ℕ) :
    Reads (JsonValue.bracketed depth (String.singleton b.opening) (String.singleton b.closing)
      texts).toList (b.tree parts) := by
  intro want frames frames' c rest hwant hput hc
  cases h with
  | nil =>
    rw [JsonValue.bracketed, List.isEmpty_nil, if_pos rfl, String.toList_append,
      String.toList_singleton, String.toList_singleton]
    refine (feed_cons (b.step_opening frames hwant) _).trans ?_
    exact feed_cons (b.step_closing [] (.inr rfl) hput) (c :: rest)
  | @cons text part texts parts hpart hparts =>
    have hread := List.Forall₂.cons hpart hparts
    rw [JsonValue.bracketed, List.isEmpty_cons, if_neg Bool.false_ne_true]
    simp only [String.toList_append, String.toList_singleton, List.append_assoc,
      List.cons_append, List.nil_append]
    rw [feed_cons (b.step_opening frames hwant), feed_lineStart, toList_lineStart depth,
      List.cons_append,
      feed_parts _ hread (List.cons_ne_nil _ _) (blank_lineStart _) (.inr rfl) rfl,
      ← List.cons_append, ← toList_lineStart, feed_lineStart, List.append_nil]
    -- an open bracket keeps its parts backwards
    rw [← List.reverse_reverse (part :: parts)] at hput
    exact feed_cons (b.step_closing _ (.inl rfl) hput) (c :: rest)

/-- Parts between brackets, all on one line. -/
theorem reads_joined {texts : List String} {parts : List α}
    (h : List.Forall₂ b.ReadsPart texts parts) :
    Reads (String.singleton b.opening ++ ",".intercalate texts
      ++ String.singleton b.closing).toList (b.tree parts) := by
  intro want frames frames' c rest hwant hput hc
  simp only [String.toList_append, String.toList_singleton, List.append_assoc, List.cons_append,
    List.nil_append]
  rw [feed_cons (b.step_opening frames hwant)]
  cases h with
  | nil => exact feed_cons (b.step_closing [] (.inr rfl) hput) (c :: rest)
  | @cons text part texts parts hpart hparts =>
    have hread := List.Forall₂.cons hpart hparts
    rw [← List.reverse_reverse (part :: parts)] at hput
    -- the closing bracket belongs to no number, so it ends the last part
    refine (feed_parts "" hread (List.cons_ne_nil _ _) (by simp) (.inr rfl)
      b.closing_not_numeric []).trans ?_
    rw [List.append_nil]
    exact feed_cons (b.step_closing _ (.inl rfl) hput) (c :: rest)

end

/-! ## Documents -/

mutual

/-- A document as it is written. -/
def tree : JsonValue → Tree
  | .arr items => .arr (treeItems items)
  | .obj members => .obj (treeMembers members)
  | .null => .bare "null".toList
  | .bool b => .bare (if b then "true" else "false").toList
  | .int n => .bare (toString n).toList
  | .real x => .bare (Decimal.interchange x).toList
  | .str s => .text (s.toList.flatMap JsonValue.escaped)

/-- The items of an array as they are written. -/
def treeItems : List JsonValue → List Tree
  | [] => []
  | v :: rest => tree v :: treeItems rest

/-- The members of an object as they are written. -/
def treeMembers : List (String × JsonValue) → List (List Char × Tree)
  | [] => []
  | (k, v) :: rest => (k.toList.flatMap JsonValue.escaped, tree v) :: treeMembers rest

end

theorem Reads.item {text : String} {v : Tree} (h : Reads text.toList v) :
    square.ReadsPart text v :=
  fun want _ _ c rest hwant hc => h want _ _ c rest hwant rfl hc

/-- A key and its value, with blanks behind the colon or none. -/
theorem Reads.member {text : String} {v : Tree} (h : Reads text.toList v) (gap : String)
    (hgap : ∀ c ∈ gap.toList, c = '\n' ∨ c = ' ') (key : String) :
    curly.ReadsPart (JsonValue.quotedString key ++ ":" ++ gap ++ text)
      (key.toList.flatMap JsonValue.escaped, v) := by
  intro want seen frames c rest hwant hc
  rw [String.toList_append, String.toList_append, List.append_assoc, List.append_assoc]
  refine (feed_key key hwant _).trans ((feed_blanks hgap _).trans ?_)
  exact h .value _ _ c rest (.inl rfl) rfl hc

/-! ### Words and numbers -/

theorem reads_null : Reads "null".toList (.bare "null".toList) :=
  reads_bare (by decide) (by decide)

theorem reads_bool (b : Bool) : Reads (if b then "true" else "false").toList
    (.bare (if b then "true" else "false").toList) := by
  cases b with
  | true => exact reads_bare (by decide) (by decide)
  | false => exact reads_bare (by decide) (by decide)

theorem reads_int (n : ℤ) : Reads (toString n).toList (.bare (toString n).toList) :=
  reads_bare (Decimal.int_ne_nil n) (Decimal.numeric_int n)

theorem reads_real (x : Float) :
    Reads (Decimal.interchange x).toList (.bare (Decimal.interchange x).toList) :=
  reads_bare (Decimal.interchange_ne_nil x) (Decimal.numeric_interchange x)

/-! ### Over several lines, and on one -/

mutual

theorem reads_indented (depth : ℕ) : (v : JsonValue) → Reads (v.indented depth).toList (tree v)
  | .arr items => by
    rw [JsonValue.indented, tree]
    exact reads_bracketed (reads_indentedItems (depth + 1) items) depth
  | .obj members => by
    rw [JsonValue.indented, tree]
    exact reads_bracketed (reads_indentedMembers (depth + 1) members) depth
  | .null => reads_null
  | .bool b => reads_bool b
  | .int n => reads_int n
  | .real x => reads_real x
  | .str s => reads_quotedString s

theorem reads_indentedItems (depth : ℕ) : (items : List JsonValue) →
    List.Forall₂ square.ReadsPart (JsonValue.indentedItems depth items) (treeItems items)
  | [] => .nil
  | v :: rest => .cons (reads_indented depth v).item (reads_indentedItems depth rest)

theorem reads_indentedMembers (depth : ℕ) : (members : List (String × JsonValue)) →
    List.Forall₂ curly.ReadsPart (JsonValue.indentedMembers depth members) (treeMembers members)
  | [] => .nil
  | (k, v) :: rest => by
    have hcolon : JsonValue.quotedString k ++ ":" ++ " " = JsonValue.quotedString k ++ ": " :=
      String.append_assoc
    have hpart := (reads_indented depth v).member " " (by simp) k
    rw [hcolon] at hpart
    exact .cons hpart (reads_indentedMembers depth rest)

end

mutual

theorem reads_compact : (v : JsonValue) → Reads v.compact.toList (tree v)
  | .arr items => by
    rw [JsonValue.compact, tree]
    exact reads_joined (b := square) (reads_compactItems items)
  | .obj members => by
    rw [JsonValue.compact, tree]
    exact reads_joined (b := curly) (reads_compactMembers members)
  | .null => reads_null
  | .bool b => reads_bool b
  | .int n => reads_int n
  | .real x => reads_real x
  | .str s => reads_quotedString s

theorem reads_compactItems : (items : List JsonValue) →
    List.Forall₂ square.ReadsPart (JsonValue.compactItems items) (treeItems items)
  | [] => .nil
  | v :: rest => .cons (reads_compact v).item (reads_compactItems rest)

theorem reads_compactMembers : (members : List (String × JsonValue)) →
    List.Forall₂ curly.ReadsPart (JsonValue.compactMembers members) (treeMembers members)
  | [] => .nil
  | (k, v) :: rest => by
    have hpart := (reads_compact v).member "" (by simp) k
    rw [String.append_empty] at hpart
    exact .cons hpart (reads_compactMembers rest)

end

/-- A value on lines of its own is the whole document. -/
theorem Reads.read {text : String} {v : Tree} (h : Reads text.toList v) :
    JsonText.read (text ++ "\n").toList = some v := by
  have hread := h .value [.arr []] [.arr [v]] '\n' ['\n'] (.inl rfl) rfl rfl
  rw [JsonText.read, String.toList_append, List.append_assoc,
    show "\n".toList ++ ['\n'] = ['\n', '\n'] from rfl, hread]
  rfl

/-- A printed document is read back. -/
theorem read_indented (v : JsonValue) : read (v.indented 0 ++ "\n").toList = some (tree v) :=
  (reads_indented 0 v).read

/-- A document on one line is read back. -/
theorem read_compact (v : JsonValue) : read (v.compact ++ "\n").toList = some (tree v) :=
  (reads_compact v).read

end StepTone.JsonText
