/-
StepTone.Proofs.SongListing — every format carries the same song.

The rows of a song go through one byte in four formats and are printed as they are in the
other two, and the number of its bytes is kept in a byte as well. What is read from a listing
is nevertheless the same in all formats, since a song that was compiled has at most 127 steps
and stands on rows of a table. Nothing is asked of the table that the song is listed with.

* `Stands`, `stands_of_compile` — what is known of a compiled song.
* `isBlock_layoutRows`, `mapM_literal?_layoutRows` — rows of literals, whatever their length.
* `readDeclared_layoutRows` — an array with its size.
* `shows_renderBytes`, `shows_renderGpram`, `shows_renderC`, `shows_renderGo`,
  `shows_renderCsv`, `shows_renderJson` — one format each.
* `listings_carry_songs` — a request, from its fields to the song in its listing.
-/
import Mathlib
import StepTone.Proofs.ListingFaults
import StepTone.Proofs.NoteByNote
import StepTone.Proofs.SongReading

namespace StepTone.Listing

open Arithmetic (ofInt)
open Decimal (isNumeric Numeric)
open Firmware (Bounds)
open Song (Note Sequence Step compile)

/-! ## Compiled songs -/

/-- The song block as numbers. -/
def blockNumbers (s : Sequence Float) : List Int :=
  s.bytes.map fun b => (b.toNat : Int)

/-- The count and the row of each step. -/
def stepNumbers (s : Sequence Float) : List (Int × Int) :=
  s.steps.map fun step => ((step.repeats.toNat : Int), step.index)

/-- The number of bytes of a song. -/
def byteCount (s : Sequence Float) : Int :=
  2 * s.steps.length

/-- A song whose steps stand on rows of a table, and whose length fits a byte. -/
structure Stands (s : Sequence Float) : Prop where
  some_step : s.steps ≠ []
  short : s.steps.length ≤ Song.maxNotes
  rows : ∀ step ∈ s.steps, ∃ row : Fin Table.size, step.index = row.val

theorem row_of_compileNote {ls : LogScale Float} {t : Table Float} {scale : Float}
    {n : Note Float} {step : Step Float} (h : Song.compileNote ls t scale n = .ok step) :
    ∃ row : Fin Table.size, step.index = row.val := by
  obtain ⟨-, ⟨-, hhold⟩ | ⟨-, -, row, -, hhold⟩⟩ := Song.compileNote_cases h
  · obtain ⟨-, rfl⟩ := Song.hold_eq_ok_iff.mp hhold
    exact ⟨0, rfl⟩
  · obtain ⟨-, rfl⟩ := Song.hold_eq_ok_iff.mp hhold
    exact ⟨row, rfl⟩

/-- Every song that was compiled can be listed. -/
theorem stands_of_compile {ls : LogScale Float} {t : Table Float} {scale : Float}
    {notes : List (Note Float)} {s : Sequence Float} (h : compile ls t scale notes = .ok s) :
    Stands s ∧ s.steps.length = notes.length := by
  obtain ⟨⟨hne, hcount⟩, -, hsteps, -⟩ := Song.compile_eq_ok_iff.mp h
  have hlength : notes.length = s.steps.length :=
    (Song.compileFrom_eq_ok_iff.mp hsteps).length_eq
  refine ⟨⟨?_, hlength ▸ hcount, ?_⟩, hlength.symm⟩
  · rw [← List.length_pos_iff, ← hlength]
    exact List.length_pos_iff.mpr hne
  · exact Song.forall_mem_of_compileFrom (fun _ _ => row_of_compileNote) hsteps

namespace Stands

variable {s : Sequence Float}

theorem index_bounds (h : Stands s) :
    ∀ step ∈ s.steps, 0 ≤ step.index ∧ step.index < 256 := by
  intro step hstep
  obtain ⟨row, hrow⟩ := h.rows step hstep
  have hlt : row.val < 256 := row.isLt
  omega

theorem length_eq (h : Stands s) : s.length.toNat = 2 * s.steps.length :=
  Song.toNat_length h.short

/-- A byte keeps the row of each step, so that the block is the steps one after the other. -/
theorem blockNumbers_eq (h : Stands s) :
    blockNumbers s = (stepNumbers s).flatMap fun p => [p.1, p.2] := by
  have hbounds := h.index_bounds
  rw [blockNumbers, stepNumbers, Sequence.bytes]
  generalize s.steps = steps at hbounds
  induction steps with
  | nil => rfl
  | cons step rest ih =>
    obtain ⟨⟨hnonneg, hlt⟩, hrest⟩ := List.forall_mem_cons.mp hbounds
    rw [List.flatMap_cons, List.map_append, ih hrest]
    simp [Song.toNat_ofInt hnonneg hlt]

end Stands

/-! ## Rows of literals -/

theorem songLiterals_eq (s : Sequence Float) :
    songLiterals s = (s.bytes.map UInt8.toNat).map (hexLiteral 2) := by
  rw [List.map_map]
  rfl

theorem blockNumbers_eq_map (s : Sequence Float) :
    blockNumbers s = (s.bytes.map UInt8.toNat).map fun n : ℕ => (n : Int) := by
  rw [List.map_map]
  rfl

section

variable {indent : String} {trailing : Bool} {width : ℕ} {ns : List ℕ}

/-- The indent of a row is made of blanks. -/
def IsIndent (indent : String) : Prop :=
  ∀ c ∈ indent.toList, c = ' ' ∨ c = '\t'

instance (indent : String) : Decidable (IsIndent indent) :=
  Decimal.decidableForallMemText (fun c => c = ' ' ∨ c = '\t') indent.toList

theorem IsIndent.gaps (h : IsIndent indent) : ∀ c ∈ indent.toList, isGap c = true := by
  intro c hc
  rcases h c hc with rfl | rfl <;> rfl

theorem IsIndent.not_mem (h : IsIndent indent) {c : Char} (hblank : c ≠ ' ') (htab : c ≠ '\t') :
    c ∉ indent.toList := by
  intro hc
  exact (h c hc).elim hblank htab

/-- Rows of literals hold numeric characters and gaps, and nothing else. -/
theorem not_mem_layoutRows (l : Layout) (h : IsIndent indent) {c : Char}
    (hc : isNumeric c = false) (hgap : isGap c = false) :
    c ∉ (layoutRows l indent trailing (ns.map (hexLiteral width))).toList := by
  simp only [isGap, Bool.or_eq_false_iff, decide_eq_false_iff_not] at hgap
  obtain ⟨⟨⟨hblank, htab⟩, hend⟩, hcomma⟩ := hgap
  exact not_mem_rows (h.not_mem hblank htab) hcomma hblank hend
    fun item hitem => (numeric_of_mem_literals hitem).not_mem hc

theorem isBlock_layoutRows (l : Layout) (h : IsIndent indent) :
    IsBlock (layoutRows l indent trailing (ns.map (hexLiteral width))) := by
  refine isBlock_join fun line hline => ⟨?_, ?_⟩
  · rintro rfl
    obtain ⟨piece, hpiece, comma, hcomma, hempty⟩ := mem_rowLines hline
    have hwords := words_rowLine h.gaps hcomma fun item hitem =>
      isWord_of_mem_literals (mem_of_mem_chunk hpiece hitem)
    rw [← hempty] at hwords
    exact chunk_ne_nil hpiece (List.map_eq_nil_iff.mp (hwords.symm.trans words_nil))
  · refine not_mem_rowLine (h.not_mem (by decide) (by decide)) (by decide) (by decide) ?_ hline
    exact fun item hitem => (numeric_of_mem_literals hitem).not_mem rfl

/-- The words of a body are read as the numbers that were printed. -/
theorem mapM_literal?_layoutRows (l : Layout) (h : IsIndent indent) (hns : ∀ n ∈ ns, n < 2 ^ 63) :
    (words (layoutRows l indent trailing (ns.map (hexLiteral width))).toList).mapM literal? =
      some (ns.map fun n : ℕ => (n : Int)) := by
  rw [layoutRows, words_rows _ _ h.gaps fun item hitem => isWord_of_mem_literals hitem]
  exact mapM_literal?_literals hns

/-- An array is read with the words before its size. -/
theorem readDeclared_layoutRows (l : Layout) {front kind back : List Char} {size : ℕ}
    (hindent : IsIndent indent) (hfront : '[' ∉ front ∧ '\x7b' ∉ front) (hkind : '\x7b' ∉ kind)
    (hns : ∀ n ∈ ns, n < 2 ^ 63) (hsize : size < 2 ^ 63) :
    readDeclared (front ++ '[' :: ((toString size).toList ++ ']' :: (kind ++ '\x7b' ::
      ('\n' :: (layoutRows l indent true (ns.map (hexLiteral width))).toList ++
        '\x7d' :: back)))) =
      some { front := words front, size := size, values := ns.map fun n : ℕ => (n : Int) } := by
  have hinner : '\x7d' ∉
      '\n' :: (layoutRows l indent true (ns.map (hexLiteral width))).toList := by
    rw [List.mem_cons, not_or]
    exact ⟨by decide, not_mem_layoutRows l hindent rfl rfl⟩
  rw [readDeclared, between_size hfront.1, between_body hfront.2 hkind hinner,
    number?_toString hsize, words_gap_cons rfl, mapM_literal?_layoutRows l hindent hns,
    takeWhile_before hfront.1]
  rfl

end

theorem toNat_bytes_lt (s : Sequence Float) : ∀ n ∈ s.bytes.map UInt8.toNat, n < 2 ^ 63 := by
  intro n hn
  obtain ⟨b, -, rfl⟩ := List.mem_map.mp hn
  have hlt : b.toNat < 2 ^ 8 := b.toNat_lt
  omega

theorem isBlock_summaryText (l : Layout) (b : Bounds Float) {comment : String}
    (h : '\n' ∉ comment.toList) : IsBlock (summaryText l b comment) := by
  rw [summaryText_eq]
  exact isBlock_join fun _ hline => ⟨summaryRow_ne_empty hline, not_mem_summaryRow h rfl hline⟩

/-! ## Songs in a listing -/

/-- The song as the reader of a format finds it, with arrays under a name. -/
def Shows (name : String) (s : Sequence Float) (f : Format) (text : List Char) : Prop :=
  match f with
  | .bytes =>
    readTitled (behindBlock text) = some ⟨["Song".toList], byteCount s, blockNumbers s⟩
  | .gpram => readSongDirectives text = some (stepNumbers s, byteCount s)
  | .c =>
    readStatements (behindBlock text) = some
      (⟨["static".toList, "const".toList, "uint8_t".toList, (name ++ "_song").toList],
          byteCount s, blockNumbers s⟩,
        ["static".toList, "const".toList, "uint8_t".toList, (name ++ "_song_len").toList,
          "=".toList], byteCount s)
  | .go =>
    readDeclared (behindBlock text) = some
      ⟨["var".toList, (camelCase name ++ "Song").toList, "=".toList], byteCount s, blockNumbers s⟩
  | .csv =>
    readColumn "repeats" (behindBlock text) = some ((stepNumbers s).map Prod.fst) ∧
      readColumn "index" (behindBlock text) = some ((stepNumbers s).map Prod.snd)
  | .json => readSongItems text = some (stepNumbers s)

section

variable {l : Layout} {s : Sequence Float}

theorem songLength_eq (h : Stands s) : songLength s = toString (2 * s.steps.length) := by
  rw [songLength, h.length_eq]

theorem byteCount_lt (h : Stands s) : 2 * s.steps.length < 2 ^ 63 := by
  have hshort : s.steps.length ≤ 127 := h.short
  omega

/-! ### Bytes -/

theorem shows_renderBytes (l : Layout) (t : Table Float) (h : Stands s) :
    Shows l.name s .bytes (renderBytes l t (some s)).toList := by
  set song := layoutRows l "" false (songLiterals s) with hsong
  have hblock : IsBlock (summaryText l t.bounds "" ++ layoutRows l "" false (valueLiterals t)) := by
    rw [valueLiterals_eq]
    exact (isBlock_summaryText l _ (by decide)).append (isBlock_layoutRows l (by decide))
  have htext : (renderBytes l t (some s)).toList =
      (summaryText l t.bounds "" ++ layoutRows l "" false (valueLiterals t)).toList ++ '\n' ::
        ("Song ".toList ++ '(' :: ((toString (2 * s.steps.length)).toList ++ ' ' ::
          ("bytes):".toList ++ '\n' :: song.toList))) := by
    rw [renderBytes, songPart, songLength_eq h]
    simp [song]
  have hline : '\n' ∉ "Song ".toList ++ '(' :: ((toString (2 * s.steps.length)).toList ++ ' ' ::
      "bytes):".toList) := by
    have hdigits : '\n' ∉ Nat.toDigits 10 (2 * s.steps.length) :=
      (Numeric.toDigits _).not_mem rfl
    simp [hdigits]
  have hcut : "Song ".toList ++ '(' :: ((toString (2 * s.steps.length)).toList ++ ' ' ::
      ("bytes):".toList ++ '\n' :: song.toList)) =
      ("Song ".toList ++ '(' :: ((toString (2 * s.steps.length)).toList ++ ' ' ::
        "bytes):".toList)) ++ '\n' :: song.toList := by
    simp
  rw [Shows, htext, behindBlock_append hblock, readTitled,
    between_eq (by decide) ((Decimal.numeric_nat _).not_mem rfl), number?_toString (byteCount_lt h),
    takeWhile_before (by decide), hcut, dropWhile_before hline, words_gap_cons rfl, hsong,
    songLiterals_eq, mapM_literal?_layoutRows l (by decide) (toNat_bytes_lt s),
    ← blockNumbers_eq_map, byteCount]
  have hword : words "Song ".toList = ["Song".toList] := by decide
  rw [hword]
  simp

/-! ### Assembler -/

theorem byteFor_hexLiteral {n : ℕ} (h : n < 256) (place : String) :
    byteFor place ["write".toList, (hexLiteral 2 n).toList, place.toList] = some (n : Int) := by
  rw [byteFor, if_pos ⟨rfl, rfl⟩, byte?_hexLiteral h]

/-- A directive without its semicolon. -/
def directiveText (n : ℕ) (place : String) : String :=
  "write " ++ hexLiteral 2 n ++ " " ++ place

theorem toList_directiveText (n : ℕ) (place : String) :
    (directiveText n place).toList =
      "write".toList ++ ' ' :: ((hexLiteral 2 n).toList ++ ' ' :: place.toList) := by
  simp [directiveText]

theorem not_mem_directiveText {n : ℕ} {place : String} {c : Char} (hc : isNumeric c = false)
    (hblank : c ≠ ' ') (hverb : c ∉ "write".toList) (hplace : c ∉ place.toList) :
    c ∉ (directiveText n place).toList := by
  have hliteral : c ∉ (hexLiteral 2 n).toList := (numeric_hexLiteral 2 n).not_mem hc
  rw [toList_directiveText, List.mem_append, List.mem_cons, List.mem_append, List.mem_cons]
  rintro (hmem | hmem | hmem | hmem | hmem)
  · exact hverb hmem
  · exact hblank hmem
  · exact hliteral hmem
  · exact hblank hmem
  · exact hplace hmem

/-- A directive has three words. -/
theorem words_directiveText (n : ℕ) {place : String} (hplace : IsWord place.toList) :
    words (directiveText n place).toList =
      ["write".toList, (hexLiteral 2 n).toList, place.toList] := by
  rw [toList_directiveText]
  exact words_directive (isWord_hexLiteral 2 n) hplace

/-- A semicolon ends a directive. -/
theorem words_splitOn_directive {n : ℕ} {place : String} (hplace : IsWord place.toList)
    (hsemicolon : ';' ∉ place.toList) (rest : List Char) :
    (((directiveText n place).toList ++ ';' :: rest).splitOn ';').map words =
      ["write".toList, (hexLiteral 2 n).toList, place.toList] ::
        (rest.splitOn ';').map words := by
  have hnone : ';' ∉ (directiveText n place).toList :=
    not_mem_directiveText rfl (by decide) (by decide) hsemicolon
  rw [List.splitOn_append_cons_self_of_not_mem hnone, List.map_cons, words_directiveText n hplace]

theorem isWord_address : IsWord "gpram-inc-addr".toList :=
  ⟨by decide, by decide⟩

theorem isWord_stack : IsWord "stack-push".toList :=
  ⟨by decide, by decide⟩

/-- The line of a step: two directives and a comment. -/
theorem toList_stepDirectives {step : Step Float} {row : Fin Table.size}
    (h : step.index = row.val) :
    (stepDirectives step).toList =
      ((directiveText step.repeats.toNat "gpram-inc-addr").toList ++ ';' ::
        ((directiveText row.val "gpram-inc-addr").toList ++ [';'])) ++ '#' ::
        (" Duration=" ++ Decimal.fixed 4 step.seconds ++ ", Freq=" ++
          Decimal.fixed 2 step.scaled).toList := by
  have hrow : hexInteger 2 step.index = hexLiteral 2 row.val := by
    rw [h]
    rfl
  rw [stepDirectives, hrow]
  simp [writeDirective, directiveText]

/-- A step is read back from its two directives. -/
theorem readStep_stepDirectives {step : Step Float} {row : Fin Table.size}
    (h : step.index = row.val) :
    readStep (stepDirectives step).toList = some ((step.repeats.toNat : Int), step.index) := by
  have hcount : step.repeats.toNat < 256 := step.repeats.toNat_lt
  have hnone (n : ℕ) : '#' ∉ (directiveText n "gpram-inc-addr").toList :=
    not_mem_directiveText rfl (by decide) (by decide) (by decide)
  have hbefore : '#' ∉ (directiveText step.repeats.toNat "gpram-inc-addr").toList ++ ';' ::
      ((directiveText row.val "gpram-inc-addr").toList ++ [';']) := by
    simp [hnone]
  have hdirectives : directives (stepDirectives step).toList =
      [["write".toList, (hexLiteral 2 step.repeats.toNat).toList, "gpram-inc-addr".toList],
        ["write".toList, (hexLiteral 2 row.val).toList, "gpram-inc-addr".toList]] := by
    rw [directives, toList_stepDirectives h, takeWhile_before hbefore,
      words_splitOn_directive isWord_address (by decide),
      words_splitOn_directive isWord_address (by decide), List.splitOn_nil, List.map_singleton,
      words_nil]
    rfl
  rw [readStep, hdirectives]
  dsimp only
  rw [byteFor_hexLiteral hcount, byteFor_hexLiteral row.isLt, h]
  rfl

theorem readPush_directiveText {n : ℕ} (h : n < 256) :
    readPush ((directiveText n "stack-push").toList ++ [';']) = some (n : Int) := by
  have hnone : '#' ∉ (directiveText n "stack-push").toList ++ [';'] := by
    have htext : '#' ∉ (directiveText n "stack-push").toList :=
      not_mem_directiveText rfl (by decide) (by decide) (by decide)
    simp [htext]
  have hdirectives : directives ((directiveText n "stack-push").toList ++ [';']) =
      [["write".toList, (hexLiteral 2 n).toList, "stack-push".toList]] := by
    rw [directives, List.takeWhile_eq_self_iff.mpr (decide_ne_of_not_mem hnone),
      words_splitOn_directive isWord_stack (by decide), List.splitOn_nil, List.map_singleton,
      words_nil]
    rfl
  rw [readPush, hdirectives]
  exact byteFor_hexLiteral h "stack-push"

/-- The lines of an assembler listing that belong to the song. -/
def songLines (s : Sequence Float) : List String :=
  s.steps.map stepDirectives ++ ["write " ++ hexLiteral 2 s.length.toNat ++ " stack-push;"]

theorem toList_pushLine (n : ℕ) :
    ("write " ++ hexLiteral 2 n ++ " stack-push;").toList =
      (directiveText n "stack-push").toList ++ [';'] := by
  simp [directiveText]

theorem songLine_spec (h : Stands s) {line : String} (hline : line ∈ songLines s) :
    line.toList ≠ [] ∧ '\n' ∉ line.toList := by
  have hnone {place : String} (n : ℕ) (hplace : '\n' ∉ place.toList) :
      '\n' ∉ (directiveText n place).toList :=
    not_mem_directiveText rfl (by decide) (by decide) hplace
  rcases List.mem_append.mp hline with hstep | hpush
  · obtain ⟨step, hmem, rfl⟩ := List.mem_map.mp hstep
    obtain ⟨row, hrow⟩ := h.rows step hmem
    have hfixed (places : ℕ) (x : Float) : '\n' ∉ (Decimal.fixed places x).toList :=
      (Decimal.numeric_fixed places x).not_mem rfl
    have hplace : '\n' ∉ "gpram-inc-addr".toList := by decide
    rw [toList_stepDirectives hrow]
    refine ⟨by simp, ?_⟩
    simp [hnone _ hplace, hfixed]
  · obtain rfl := List.mem_singleton.mp hpush
    have hplace : '\n' ∉ "stack-push".toList := by decide
    rw [toList_pushLine]
    exact ⟨by simp, by simp [hnone _ hplace]⟩

theorem toList_renderGpram_some (l : Layout) (t : Table Float) (s : Sequence Float) :
    (renderGpram l t (some s)).toList =
      (String.join ((gpramLines l t ++ "# Song" :: songLines s).map (· ++ "\n"))).toList := by
  rw [toList_renderGpram, songPart, List.map_append, String.join_append, String.toList_append]
  simp [songLines, List.flatMap_map]

/-- The lines of the song follow the lines of the table. -/
theorem textLines_renderGpram (l : Layout) (t : Table Float) (h : Stands s) :
    textLines (renderGpram l t (some s)).toList =
      (gpramLines l t).map String.toList ++
        "# Song".toList :: ((songLines s).map String.toList ++ [[]]) := by
  have hlines : ∀ line ∈ gpramLines l t ++ "# Song" :: songLines s, '\n' ∉ line.toList := by
    intro line hline
    rcases List.mem_append.mp hline with hline | hline
    · exact (gpramLine_spec hline).1
    rcases List.mem_cons.mp hline with rfl | hline
    · decide
    · exact (songLine_spec h hline).2
  have hjoin := textLines_join hlines []
  rw [List.append_nil] at hjoin
  rw [toList_renderGpram_some, hjoin]
  simp [textLines]

theorem shows_renderGpram (l : Layout) (t : Table Float) (h : Stands s) :
    Shows l.name s .gpram (renderGpram l t (some s)).toList := by
  have hbefore : ∀ line ∈ (gpramLines l t).map String.toList,
      decide (line ≠ "# Song".toList) = true := by
    intro line hline
    obtain ⟨text, htext, rfl⟩ := List.mem_map.mp hline
    exact decide_eq_true (gpramLine_spec htext).2
  have hkeep : ((songLines s).map String.toList).filter (fun line => decide (line ≠ [])) =
      (songLines s).map String.toList := by
    refine List.filter_eq_self.mpr fun line hline => ?_
    obtain ⟨text, htext, rfl⟩ := List.mem_map.mp hline
    exact decide_eq_true (songLine_spec h htext).1
  have hsong : (songLines s).map String.toList =
      s.steps.map (fun step => (stepDirectives step).toList) ++
        [(directiveText s.length.toNat "stack-push").toList ++ [';']] := by
    rw [songLines, List.map_append, List.map_map, List.map_singleton, toList_pushLine]
    rfl
  have hsteps : (s.steps.map fun step => (stepDirectives step).toList).mapM readStep =
      some (stepNumbers s) := by
    refine mapM_map_eq_some fun step hstep => ?_
    obtain ⟨row, hrow⟩ := h.rows step hstep
    exact readStep_stepDirectives hrow
  have hsize : readPush ((directiveText s.length.toNat "stack-push").toList ++ [';']) =
      some (byteCount s) := by
    rw [readPush_directiveText s.length.toNat_lt, h.length_eq, byteCount]
    simp
  rw [Shows, readSongDirectives, textLines_renderGpram l t h, List.dropWhile_append_of_pos hbefore,
    List.dropWhile_cons_of_neg (by simp), List.drop_one, List.tail_cons, List.filter_append, hkeep,
    hsong]
  simp only [List.filter_singleton, ne_eq, not_true_eq_false, decide_false, cond_false,
    List.append_nil, List.getLast?_concat, List.dropLast_concat, Option.bind_some, hsize,
    hsteps]
  rfl

/-! ### Arrays -/

theorem inName_append {name suffix : String} (hname : ∀ c ∈ name.toList, inName c = true)
    (hsuffix : ∀ c ∈ suffix.toList, inName c = true) :
    ∀ c ∈ (name ++ suffix).toList, inName c = true := by
  intro c hc
  rw [String.toList_append] at hc
  exact (List.mem_append.mp hc).elim (hname c) (hsuffix c)

theorem isWord_symbol {name suffix : String} (hname : ∀ c ∈ name.toList, inName c = true)
    (hsuffix : ∀ c ∈ suffix.toList, inName c = true) (hne : suffix ≠ "") :
    IsWord (name ++ suffix).toList :=
  isWord_of_kind (by decide) (by simp [hne]) (inName_append hname hsuffix)

theorem not_mem_of_inName {name : String} (hname : ∀ d ∈ name.toList, inName d = true) (c : Char)
    (hc : inName c = false) : c ∉ name.toList := by
  intro hmem
  rw [hname c hmem] at hc
  cases hc

theorem not_mem_toDigits (n : ℕ) (c : Char) (hc : isNumeric c = false) : c ∉ Nat.toDigits 10 n :=
  (Numeric.toDigits n).not_mem hc

/-- The array of a table: a summary, a line that opens it, its rows, and a line that closes
it. -/
theorem isBlock_array (l : Layout) (t : Table Float) {comment opening indent closing : String}
    (hcomment : '\n' ∉ comment.toList) (hopening : opening ≠ "" ∧ '\n' ∉ opening.toList)
    (hindent : IsIndent indent) (hclosing : closing ≠ "" ∧ '\n' ∉ closing.toList) :
    IsBlock (summaryText l t.bounds comment ++ (opening ++ "\n") ++
      layoutRows l indent true (valueLiterals t) ++ (closing ++ "\n")) := by
  rw [valueLiterals_eq]
  exact (((isBlock_summaryText l _ hcomment).append (isBlock_line hopening.1 hopening.2)).append
    (isBlock_layoutRows l hindent)).append (isBlock_line hclosing.1 hclosing.2)

/-- The table of a C listing. -/
def tableC (l : Layout) (t : Table Float) : String :=
  summaryText l t.bounds "// " ++ ("static const " ++ (if isWide t then "uint16_t" else "uint8_t")
    ++ " " ++ l.name ++ "[" ++ toString t.entries.size ++ "] = \x7b" ++ "\n")
    ++ layoutRows l "    " true (valueLiterals t) ++ ("\x7d;" ++ "\n")

theorem isBlock_tableC (hname : isIdentifier l.name = true) (t : Table Float) :
    IsBlock (tableC l t) := by
  have hsymbol := not_mem_of_inName (fun _ => inName_of_isIdentifier hname) '\n' rfl
  have hkind : '\n' ∉ (if isWide t then "uint16_t" else "uint8_t").toList := by
    split <;> decide
  refine isBlock_array l t (by decide) ⟨?_, ?_⟩ (by decide) ⟨by decide, by decide⟩
  · intro hempty
    simpa using congrArg String.toList hempty
  · simp [hkind, hsymbol, not_mem_toDigits _ '\n' rfl]

/-- The table of a Go listing. -/
def tableGo (l : Layout) (t : Table Float) : String :=
  summaryText l t.bounds "// " ++ ("var " ++ camelCase l.name ++ " = ["
    ++ toString t.entries.size ++ "]" ++ (if isWide t then "uint16" else "uint8") ++ "\x7b" ++ "\n")
    ++ layoutRows l "\t" true (valueLiterals t) ++ ("\x7d" ++ "\n")

theorem inName_camelCase {name : String} (hname : isIdentifier name = true) :
    ∀ c ∈ (camelCase name).toList, inName c = true :=
  fun _ hc => inName_of_isAlphanum (isAlphanum_camelCase hname hc)

theorem isBlock_tableGo (hname : isIdentifier l.name = true) (t : Table Float) :
    IsBlock (tableGo l t) := by
  have hsymbol := not_mem_of_inName (inName_camelCase hname) '\n' rfl
  have hkind : '\n' ∉ (if isWide t then "uint16" else "uint8").toList := by
    split <;> decide
  refine isBlock_array l t (by decide) ⟨?_, ?_⟩ (by decide) ⟨by decide, by decide⟩
  · intro hempty
    simpa using congrArg String.toList hempty
  · simp [hkind, hsymbol, not_mem_toDigits _ '\n' rfl]

/-- The words before the size of the array or before the value of the constant. -/
theorem words_static {w : List Char} (h : IsWord w) :
    words ("static const uint8_t ".toList ++ w) =
      ["static".toList, "const".toList, "uint8_t".toList, w] := by
  have hsplit : "static const uint8_t ".toList ++ w =
      "static".toList ++ ' ' :: ("const".toList ++ ' ' :: ("uint8_t".toList ++ ' ' :: w)) := by
    simp
  rw [hsplit, words_word_blank ⟨by decide, by decide⟩, words_word_blank ⟨by decide, by decide⟩,
    words_word_blank ⟨by decide, by decide⟩, words_of_isWord h]

theorem readConstant_static {w : List Char} {n : ℕ} (h : IsWord w) (hn : n < 2 ^ 63) :
    readConstant ('\n' :: ("static const uint8_t ".toList ++ w ++ " = ".toList ++
      (toString n).toList)) =
      some (["static".toList, "const".toList, "uint8_t".toList, w, "=".toList], (n : Int)) := by
  have hdigits : IsWord (toString n).toList :=
    isWord_of_numeric (by simp) (Decimal.numeric_nat n)
  have hsplit : '\n' :: ("static const uint8_t ".toList ++ w ++ " = ".toList ++
      (toString n).toList) =
      '\n' :: (("static const uint8_t ".toList ++ w) ++ ' ' :: ("=".toList ++ ' ' ::
        (toString n).toList)) := by
    simp
  have hwords : words ('\n' :: ("static const uint8_t ".toList ++ w ++ " = ".toList ++
      (toString n).toList)) =
      ["static".toList, "const".toList, "uint8_t".toList, w, "=".toList, (toString n).toList] := by
    rw [hsplit, words_gap_cons rfl, words_append_gap rfl, words_static h,
      words_word_blank ⟨by decide, by decide⟩, words_of_isWord hdigits]
    rfl
  rw [readConstant, hwords]
  simp only [List.getLast?_cons_cons, List.getLast?_singleton, Option.bind_some,
    number?_toString hn]
  rfl

/-- An array of the bytes of a song. -/
theorem readDeclared_song (l : Layout) {indent : String} {front kind back : List Char}
    (hindent : IsIndent indent) (hfront : '[' ∉ front ∧ '\x7b' ∉ front) (hkind : '\x7b' ∉ kind)
    (h : Stands s) :
    readDeclared (front ++ '[' :: ((toString (2 * s.steps.length)).toList ++ ']' :: (kind ++
      '\x7b' :: ('\n' :: (layoutRows l indent true (songLiterals s)).toList ++
        '\x7d' :: back)))) =
      some ⟨words front, byteCount s, blockNumbers s⟩ := by
  rw [songLiterals_eq, readDeclared_layoutRows l hindent hfront hkind (toNat_bytes_lt s)
    (byteCount_lt h), ← blockNumbers_eq_map, byteCount]
  simp

theorem shows_renderC (hname : isIdentifier l.name = true) (t : Table Float) (h : Stands s) :
    Shows l.name s .c (renderC l t (some s)).toList := by
  set song := (layoutRows l "    " true (songLiterals s)).toList with hsong
  set front := "static const uint8_t ".toList ++ (l.name ++ "_song").toList with hfront
  set array := front ++ '[' :: ((toString (2 * s.steps.length)).toList ++ ']' ::
    (" = ".toList ++ '\x7b' :: ('\n' :: song ++ ['\x7d']))) with harray
  set constant := '\n' :: ("static const uint8_t ".toList ++ (l.name ++ "_song_len").toList ++
    " = ".toList ++ (toString (2 * s.steps.length)).toList) with hconstant
  have htext : (renderC l t (some s)).toList =
      (tableC l t).toList ++ '\n' :: (array ++ ';' :: (constant ++ ';' :: ['\n'])) := by
    rw [renderC, songPart, songLength_eq h]
    simp [tableC, array, constant, song, front]
  have hin : ∀ c ∈ l.name.toList, inName c = true := fun _ => inName_of_isIdentifier hname
  have hout := not_mem_of_inName hin
  have hdigits := not_mem_toDigits (2 * s.steps.length)
  have hrows : ';' ∉ song := by
    rw [hsong, songLiterals_eq]
    exact not_mem_layoutRows l (by decide) rfl rfl
  have harrayEnd : ';' ∉ array := by
    simp [array, front, hout ';' rfl, hdigits ';' rfl, hrows]
  have hconstantEnd : ';' ∉ constant := by
    simp [constant, hout ';' rfl, hdigits ';' rfl]
  have hbrackets : '[' ∉ front ∧ '\x7b' ∉ front := by
    simp [front, hout '[' rfl, hout '\x7b' rfl]
  rw [Shows, htext, behindBlock_append (isBlock_tableC hname t), readStatements,
    List.splitOn_append_cons_self_of_not_mem harrayEnd,
    List.splitOn_append_cons_self_of_not_mem hconstantEnd]
  dsimp only
  rw [harray, readDeclared_song l (by decide) hbrackets (by decide) h, hfront,
    words_static (isWord_symbol hin (by decide) (by decide)), hconstant,
    readConstant_static (isWord_symbol hin (by decide) (by decide)) (byteCount_lt h), byteCount]
  simp

theorem shows_renderGo (hname : isIdentifier l.name = true) (t : Table Float) (h : Stands s) :
    Shows l.name s .go (renderGo l t (some s)).toList := by
  set name := camelCase l.name with hcamel
  set front := "var ".toList ++ (name ++ "Song").toList ++ " = ".toList with hfront
  have hin : ∀ c ∈ name.toList, inName c = true := inName_camelCase hname
  have hout := not_mem_of_inName hin
  have htext : (renderGo l t (some s)).toList =
      (tableGo l t).toList ++ '\n' :: (front ++ '[' :: ((toString (2 * s.steps.length)).toList ++
        ']' :: ("uint8".toList ++ '\x7b' ::
          ('\n' :: (layoutRows l "\t" true (songLiterals s)).toList ++ '\x7d' :: ['\n'])))) := by
    rw [renderGo, songPart, songLength_eq h]
    simp [tableGo, front, name]
  have hbrackets : '[' ∉ front ∧ '\x7b' ∉ front := by
    simp [front, hout '[' rfl, hout '\x7b' rfl]
  have hwords : words front = ["var".toList, (name ++ "Song").toList, "=".toList] := by
    have hsplit : front = "var".toList ++ ' ' :: ((name ++ "Song").toList ++ ' ' ::
        ("=".toList ++ ' ' :: [])) := by
      simp [front]
    rw [hsplit, words_word_blank ⟨by decide, by decide⟩,
      words_word_blank (isWord_symbol hin (by decide) (by decide)),
      words_word_blank ⟨by decide, by decide⟩, words_nil]
  rw [Shows, htext, behindBlock_append (isBlock_tableGo hname t),
    readDeclared_song l (by decide) hbrackets (by decide) h, hwords]

/-! ### Comma-separated values -/

theorem toString_natCast (n : ℕ) : toString (n : Int) = toString n :=
  rfl

theorem number?_index {step : Step Float} {row : Fin Table.size} (h : step.index = row.val) :
    number? (toString step.index).toList = some step.index := by
  have hlt : row.val < 256 := row.isLt
  rw [h, toString_natCast, number?_toString (by omega)]

/-- The names of the columns of a song. -/
def songHeader : List String :=
  ["note", "frequency_hz", "duration_ms", "index", "repeats"]

/-- The cells of a step and its place. -/
def songCells (p : Step Float × ℕ) : List String :=
  [toString p.2, Decimal.plain p.1.scaled, Decimal.plain p.1.note.durationMs,
    toString p.1.index, toString p.1.repeats.toNat]

theorem isNumberRow_songCells (p : Step Float × ℕ) : IsNumberRow (songCells p) := by
  refine ⟨by simp [songCells], fun cell h => ?_⟩
  simp only [songCells, List.mem_cons, List.not_mem_nil, or_false] at h
  rcases h with rfl | rfl | rfl | rfl | rfl
  · exact Decimal.numeric_nat _
  · exact Decimal.numeric_plain _
  · exact Decimal.numeric_plain _
  · exact Decimal.numeric_int _
  · exact Decimal.numeric_nat _

/-- A column of the song is read from the place that the header gives it. -/
theorem readColumn_song {name : String} {v : Step Float → Int}
    (hvalue : ∀ p ∈ s.steps.zipIdx, (((songCells p).map String.toList)[
      (songHeader.map String.toList).idxOf name.toList]?).bind number? = some (v p.1)) :
    readColumn name (String.join ((",".intercalate songHeader ::
      s.steps.zipIdx.map fun p => ",".intercalate (songCells p)).map (· ++ "\n"))).toList =
      some (s.steps.map v) := by
  have hcolumn : readColumn name ((String.join (([] ++ ",".intercalate songHeader ::
      s.steps.zipIdx.map fun p => ",".intercalate (songCells p)).map (· ++ "\n"))).toList ++ []) =
      some (s.steps.zipIdx.map fun p => v p.1) :=
    readColumn_block nofun (by decide) (by decide) (fun p _ => isNumberRow_songCells p) rfl hvalue
  have hsteps : s.steps.zipIdx.map (fun p => v p.1) = s.steps.map v := by
    rw [← Function.comp_def v Prod.fst, ← List.map_map, List.zipIdx_map_fst]
  rw [List.append_nil, List.nil_append, hsteps] at hcolumn
  exact hcolumn

theorem isBlock_csv (l : Layout) (t : Table Float) :
    IsBlock (summaryText l t.bounds "# " ++ String.join ((",".intercalate csvHeader ::
      t.entries.toList.map fun e => ",".intercalate (csvCells t e)).map (· ++ "\n"))) := by
  refine (isBlock_summaryText l _ (by decide)).append (isBlock_join ?_)
  intro line hline
  rcases List.mem_cons.mp hline with rfl | hline
  · exact ⟨by decide, by decide⟩
  · obtain ⟨e, -, rfl⟩ := List.mem_map.mp hline
    have hrow := isNumberRow_csvCells t e
    exact ⟨hrow.line_ne_empty, hrow.not_mem rfl (by decide)⟩

theorem shows_renderCsv (l : Layout) (t : Table Float) (h : Stands s) :
    Shows l.name s .csv (renderCsv l t (some s)).toList := by
  have htext : (renderCsv l t (some s)).toList =
      (summaryText l t.bounds "# " ++ String.join ((",".intercalate csvHeader ::
        t.entries.toList.map fun e => ",".intercalate (csvCells t e)).map (· ++ "\n"))).toList ++
        '\n' :: (String.join ((",".intercalate songHeader ::
          s.steps.zipIdx.map fun p => ",".intercalate (songCells p)).map (· ++ "\n"))).toList := by
    simp [renderCsv, songPart, csvLine, csvHeader, csvCells, songHeader, songCells,
      List.flatMap_map]
  have hrepeats : (songHeader.map String.toList).idxOf "repeats".toList = 4 := by decide
  have hindex : (songHeader.map String.toList).idxOf "index".toList = 3 := by decide
  rw [Shows, htext, behindBlock_append (isBlock_csv l t), stepNumbers, List.map_map, List.map_map]
  constructor
  · refine readColumn_song fun p _ => ?_
    have hlt : p.1.repeats.toNat < 2 ^ 8 := p.1.repeats.toNat_lt
    have hcell : ((songCells p).map String.toList)[4]? =
        some (toString p.1.repeats.toNat).toList := rfl
    rw [hrepeats, hcell, Option.bind_some, number?_toString (by omega)]
    rfl
  · refine readColumn_song fun p hp => ?_
    obtain ⟨row, hrow⟩ := h.rows p.1 (List.fst_mem_of_mem_zipIdx hp)
    have hcell : ((songCells p).map String.toList)[3]? = some (toString p.1.index).toList := rfl
    rw [hindex, hcell, Option.bind_some, number?_index hrow]
    rfl

/-! ### JSON -/

theorem member?_song (l : Layout) (t : Table Float) (h : s.steps ≠ []) :
    member? "song" (JsonText.tree (documentJson l t (some s))) =
      some (.arr (JsonText.treeItems (s.steps.map stepJson))) := by
  have hsome : s.steps.isEmpty = false := by simpa using h
  unfold documentJson
  rw [JsonText.tree, hsome]
  cases l.summary with
  | false =>
    simp only [Bool.false_eq_true, if_false, List.nil_append, List.cons_append,
      JsonText.treeMembers, JsonText.tree]
    rfl
  | true =>
    simp only [Bool.false_eq_true, if_true, if_false, List.nil_append, List.cons_append,
      JsonText.treeMembers, JsonText.tree]
    rfl

/-- The two fields of an item that the firmware needs. -/
theorem member?_stepJson (step : Step Float) :
    member? "repeats" (JsonText.tree (stepJson step)) =
        some (.bare (toString (step.repeats.toNat : Int)).toList) ∧
      member? "index" (JsonText.tree (stepJson step)) =
        some (.bare (toString step.index).toList) := by
  rw [stepJson, JsonText.tree]
  simp only [JsonText.treeMembers, JsonText.tree]
  exact ⟨rfl, rfl⟩

theorem shows_renderJson {t : Table Float} {text : String} (h : Stands s)
    (htext : renderJson l t (some s) = .ok text) : Shows l.name s .json text.toList := by
  obtain ⟨-, rfl⟩ := renderJson_eq_ok_iff.mp htext
  have hitems : items? (.arr (JsonText.treeItems (s.steps.map stepJson))) =
      some ((s.steps.map stepJson).map JsonText.tree) := by
    rw [items?, treeItems_eq_map]
  rw [Shows, readSongItems, JsonText.read_indented]
  change ((member? "song" (JsonText.tree (documentJson l t (some s)))).bind items?).bind _ = _
  rw [member?_song l t h.some_step, Option.bind_some, hitems, Option.bind_some, List.map_map]
  refine mapM_map_eq_some fun step hstep => ?_
  obtain ⟨row, hrow⟩ := h.rows step hstep
  have hcount : step.repeats.toNat < 2 ^ 8 := step.repeats.toNat_lt
  have hrepeats : number? (toString (step.repeats.toNat : Int)).toList =
      some (step.repeats.toNat : Int) := by
    rw [toString_natCast, number?_toString (by omega)]
  obtain ⟨hrepeated, hindexed⟩ := member?_stepJson step
  rw [Function.comp_apply, hrepeated, hindexed, Option.bind_some, Option.bind_some, numberAt?,
    numberAt?, hrepeats, number?_index hrow]
  rfl

/-! ## All formats -/

theorem shows_render {t : Table Float} {text : String} (hname : isIdentifier l.name = true)
    (h : Stands s) (htext : render l t (some s) = .ok text) :
    Shows l.name s l.format text.toList := by
  obtain ⟨format, name, perLine, summary⟩ := l
  cases format with
  | bytes =>
    obtain rfl := Except.ok.inj htext
    exact shows_renderBytes _ t h
  | gpram =>
    obtain rfl := Except.ok.inj htext
    exact shows_renderGpram _ t h
  | c =>
    obtain rfl := Except.ok.inj htext
    exact shows_renderC hname t h
  | go =>
    obtain rfl := Except.ok.inj htext
    exact shows_renderGo hname t h
  | csv =>
    obtain rfl := Except.ok.inj htext
    exact shows_renderCsv _ t h
  | json => exact shows_renderJson h htext

end

/-- A listing carries its song. Take a song that was compiled, any table to list it with, and a
request for a format under a name that can stand, with rows of any length. There is a listing,
a JSON document if and only if its numbers are finite; and the reader of the format finds the
song in it: its bytes with their number in three formats, and the count and the row of each
step in the others, of which the bytes are made. -/
theorem listings_carry_songs {ls : LogScale Float} {t t' : Table Float} {scale : Float}
    {notes : List (Note Float)} {s : Sequence Float} {r : Request} {f : Format}
    (hs : compile ls t' scale notes = .ok s) (hasks : r.Asks f) (hname : ¬ r.BadName) :
    (s.steps.length = notes.length ∧
      List.Forall₂ (fun n step => Song.compileNote ls t' scale n = .ok step) notes s.steps) ∧
    (byteCount s = 2 * notes.length ∧ (s.bytes.length : Int) = byteCount s) ∧
    blockNumbers s = (stepNumbers s).flatMap (fun p => [p.1, p.2]) ∧
    ((∃ text, r.text t (some s) = .ok (f, text)) ↔
      (f = .json → ∀ x ∈ shownNumbers t (some s), Binary64.isFinite x = true)) ∧
    ∀ text, r.text t (some s) = .ok (f, text) →
      Shows (r.inFormat f).name s f text.toList := by
  obtain ⟨hstands, hlength⟩ := stands_of_compile hs
  obtain ⟨-, -, hsteps, -⟩ := Song.compile_eq_ok_iff.mp hs
  have htext {text : String} :
      r.text t (some s) = .ok (f, text) ↔ render (r.inFormat f) t (some s) = .ok text := by
    rw [Request.text_of_asks hasks hname]
    cases render (r.inFormat f) t (some s) with
    | error fault => exact iff_of_false nofun nofun
    | ok written => simp [Except.map]
  refine ⟨⟨hlength, Song.compileFrom_eq_ok_iff.mp hsteps⟩, ⟨?_, ?_⟩, hstands.blockNumbers_eq,
    ?_, ?_⟩
  · rw [byteCount, hlength]
  · rw [Song.length_bytes, byteCount]
    simp
  · simp only [htext]
    exact exists_render_iff
  · intro text h
    have hidentifier := isIdentifier_of_checkName (Request.checkName_inFormat hname f)
    exact shows_render hidentifier hstands (htext.mp h)

/-- A rest and a tone, listed as directives and as an array under a name of its own, with three
values in a row. -/
theorem restAndTone_listed :
    ∃ s, compile ⟨id, id⟩ Table.HalfHertz.table (ofInt 1) Song.restAndTone = .ok s ∧
      (blockNumbers s = [11, 0, 51, 108] ∧ byteCount s = 4) ∧
      (∃ text, ({ format := "gpram" } : Request).text Table.HalfHertz.table (some s) =
          .ok (.gpram, text) ∧ Shows "delay_table" s .gpram text.toList) ∧
      ∃ text, ({ format := "c", name := "tones", perLine := 3 } : Request).text
          Table.HalfHertz.table (some s) = .ok (.c, text) ∧
        Shows "tones" s .c text.toList := by
  have hbytes : (compile ⟨id, id⟩ Table.HalfHertz.table (ofInt 1) Song.restAndTone).toOption.map
      blockNumbers = some [11, 0, 51, 108] := by
    decide +kernel
  cases hs : compile ⟨id, id⟩ Table.HalfHertz.table (ofInt 1) Song.restAndTone with
  | error fault =>
    rw [hs] at hbytes
    cases hbytes
  | ok s =>
    rw [hs] at hbytes
    have hassembler := listings_carry_songs (t := Table.HalfHertz.table)
      (r := { format := "gpram" }) (f := .gpram) hs (.inl rfl) fun hbad => hbad.1 rfl
    have harray := listings_carry_songs (t := Table.HalfHertz.table)
      (r := { format := "c", name := "tones", perLine := 3 }) (f := .c) hs (.inl rfl)
      fun hbad => hbad.2 (checkName_eq_ok_iff.mpr ⟨by decide, by decide, by decide +kernel⟩)
    obtain ⟨text, htext⟩ := hassembler.2.2.2.1.mpr nofun
    obtain ⟨code, hcode⟩ := harray.2.2.2.1.mpr nofun
    exact ⟨s, rfl, ⟨Option.some.inj hbytes, harray.2.1.1⟩,
      ⟨text, htext, hassembler.2.2.2.2 text htext⟩, code, hcode, harray.2.2.2.2 code hcode⟩

end StepTone.Listing
