/-
StepTone.Proofs.ListingValues — every format carries the same table.

A listing is read with the reader of its format. What is read are the register values of
the table, all of them and in the order of the rows, whatever else stands in the listing.

* `readValues` — the values of a listing in a format.
* `readRows_renderBytes`, `readDirectives_renderGpram`, `readArray_renderC`,
  `readArray_renderGo`, `readColumn_renderCsv` — one format each.
* `listings_carry_values` — a request, from its fields to the values in its listing.
-/
import Mathlib
import StepTone.Listing.Write
import StepTone.Proofs.ListingDocument
import StepTone.Proofs.StoredValues
import StepTone.Proofs.SymbolText
import StepTone.Proofs.TextShape

namespace StepTone.Listing

open Decimal (isNumeric Numeric)
open Firmware (Bounds)
open Song (Sequence)

/-! ## Readers of all formats -/

/-- The values of a listing for registers of a width. -/
def readValues (f : Format) (w : Table.Width) (text : List Char) : Option (List Int) :=
  match f with
  | .bytes => readRows text
  | .gpram => readDirectives w text
  | .c | .go => readArray text
  | .csv => readColumn "value" text
  | .json => readEntries text

/-! ## Characters -/

/-- A character of a number, or one that stands between the numbers of a sentence. -/
def isProse (c : Char) : Bool :=
  isNumeric c || c = ' ' || c = ':' || c = ','

/-- A text of such characters. -/
def Prose (text : List Char) : Prop :=
  ∀ c ∈ text, isProse c = true

instance (text : List Char) : Decidable (Prose text) :=
  Decimal.decidableForallMemText (isProse · = true) text

theorem Prose.append {xs ys : List Char} (hx : Prose xs) (hy : Prose ys) : Prose (xs ++ ys) :=
  fun c hc => (List.mem_append.mp hc).elim (hx c) (hy c)

theorem Prose.not_mem {xs : List Char} {c : Char} (h : Prose xs) (hc : isProse c = false) :
    c ∉ xs :=
  fun hmem => Bool.false_ne_true (hc.symm.trans (h c hmem))

theorem prose_of_numeric {xs : List Char} (h : Numeric xs) : Prose xs := by
  intro c hc
  simp [isProse, h c hc]

/-! ## Summaries -/

/-- The lines of a summary, each behind a comment sign. -/
def summaryRows (l : Layout) (b : Bounds Float) (comment : String) : List String :=
  if l.summary then (summaryLines b).map (comment ++ ·) else []

theorem summaryText_eq (l : Layout) (b : Bounds Float) (comment : String) :
    summaryText l b comment = String.join ((summaryRows l b comment).map (· ++ "\n")) := by
  rw [summaryText, summaryRows]
  split
  · rw [List.map_map]
    rfl
  · rfl

theorem exists_of_mem_summaryRows {l : Layout} {b : Bounds Float} {comment line : String}
    (h : line ∈ summaryRows l b comment) : ∃ text ∈ summaryLines b, line = comment ++ text := by
  rw [summaryRows] at h
  split at h
  · obtain ⟨text, htext, rfl⟩ := List.mem_map.mp h
    exact ⟨text, htext, rfl⟩
  · exact absurd h List.not_mem_nil

/-- A summary line starts with a letter and is a sentence. -/
theorem summaryLine_spec {b : Bounds Float} {text : String} (h : text ∈ summaryLines b) :
    (text.toList.head? = some 'T' ∨ text.toList.head? = some 'F') ∧ Prose text.toList := by
  have hfixed (places : ℕ) (x : Float) : Prose (Decimal.fixed places x).toList :=
    prose_of_numeric (Decimal.numeric_fixed places x)
  rcases List.mem_cons.mp h with rfl | h
  · refine ⟨.inl (by simp), ?_⟩
    simp only [String.toList_append]
    exact ((((by decide : Prose "T min: ".toList).append (hfixed _ _)).append (by decide)).append
      (hfixed _ _)).append (by decide)
  · rw [List.mem_singleton.mp h]
    refine ⟨.inr (by simp), ?_⟩
    simp only [String.toList_append]
    exact ((((by decide : Prose "F min: ".toList).append (hfixed _ _)).append (by decide)).append
      (hfixed _ _)).append (by decide)

theorem not_mem_summaryRow {l : Layout} {b : Bounds Float} {comment line : String} {c : Char}
    (hcomment : c ∉ comment.toList) (hc : isProse c = false)
    (h : line ∈ summaryRows l b comment) : c ∉ line.toList := by
  obtain ⟨text, htext, rfl⟩ := exists_of_mem_summaryRows h
  rw [String.toList_append, List.mem_append]
  rintro (hmem | hmem)
  · exact hcomment hmem
  · exact (summaryLine_spec htext).2.not_mem hc hmem

theorem not_mem_summaryText (l : Layout) (b : Bounds Float) {comment : String} {c : Char}
    (hcomment : c ∉ comment.toList) (hc : isProse c = false) (hend : c ≠ '\n') :
    c ∉ (summaryText l b comment).toList := by
  rw [summaryText_eq, String.toList_join, List.mem_flatMap]
  rintro ⟨row, hrow, hmem⟩
  obtain ⟨line, hline, rfl⟩ := List.mem_map.mp hrow
  rw [String.toList_append, List.mem_append] at hmem
  rcases hmem with hmem | hmem
  · exact not_mem_summaryRow hcomment hc hline hmem
  · exact hend (List.mem_singleton.mp hmem)

theorem summaryRow_ne_empty {l : Layout} {b : Bounds Float} {comment line : String}
    (h : line ∈ summaryRows l b comment) : line ≠ "" := by
  obtain ⟨text, htext, rfl⟩ := exists_of_mem_summaryRows h
  intro hempty
  have hlist := congrArg String.toList hempty
  rw [String.toList_append] at hlist
  have htail : text.toList = [] := (List.append_eq_nil_iff.mp hlist).2
  rcases (summaryLine_spec htext).1 with hhead | hhead <;> simp [htail] at hhead

/-- Lines that are passed over at the start of a listing leave the lines behind them. -/
theorem filter_skipped {skipped body : List String} {keep : List Char → Bool}
    (hskip : ∀ line ∈ skipped, keep line.toList = false)
    (hkeep : ∀ line ∈ body, keep line.toList = true) :
    ((skipped ++ body).map String.toList).filter keep = body.map String.toList := by
  have hnone : (skipped.map String.toList).filter keep = [] := by
    rw [List.filter_map, List.map_eq_nil_iff, List.filter_eq_nil_iff]
    exact fun line hline => Bool.eq_false_iff.mp (hskip line hline)
  have hall : (body.map String.toList).filter keep = body.map String.toList := by
    rw [List.filter_map, List.filter_eq_self.mpr]
    exact hkeep
  rw [List.map_append, List.filter_append, hnone, hall, List.nil_append]

/-! ## Rows -/

section

variable {indent : String} {trailing : Bool} {perLine : ℕ} {items : List String} {c : Char}

theorem not_mem_rowLine (hindent : c ∉ indent.toList) (hcomma : c ≠ ',') (hblank : c ≠ ' ')
    (hitems : ∀ item ∈ items, c ∉ item.toList) {line : String}
    (h : line ∈ rowLines indent trailing (chunks perLine items)) : c ∉ line.toList := by
  obtain ⟨piece, hpiece, comma, hends, rfl⟩ := mem_rowLines h
  have hcommas : c ∉ comma.toList := by
    rcases hends with rfl | rfl
    · simpa using hcomma
    · simp
  have hsep : c ∉ ", ".toList := by
    simp [hcomma, hblank]
  rw [String.toList_append, String.toList_append, String.toList_intercalate, List.mem_append,
    List.mem_append]
  rintro ((hmem | hmem) | hmem)
  · exact hindent hmem
  · refine Text.not_mem_intercalate hsep ?_ hmem
    intro part hpart
    obtain ⟨item, hitem, rfl⟩ := List.mem_map.mp hpart
    exact hitems item (mem_of_mem_chunk hpiece hitem)
  · exact hcommas hmem

theorem not_mem_rows (hindent : c ∉ indent.toList) (hcomma : c ≠ ',') (hblank : c ≠ ' ')
    (hend : c ≠ '\n') (hitems : ∀ item ∈ items, c ∉ item.toList) :
    c ∉ (rows indent perLine trailing items).toList := by
  rw [rows, String.toList_join, List.mem_flatMap]
  rintro ⟨row, hrow, hmem⟩
  obtain ⟨line, hline, rfl⟩ := List.mem_map.mp hrow
  rw [String.toList_append, List.mem_append] at hmem
  rcases hmem with hmem | hmem
  · exact not_mem_rowLine hindent hcomma hblank hitems hline hmem
  · exact hend (List.mem_singleton.mp hmem)

end

/-! ## Literals -/

theorem valueLiterals_eq (t : Table Float) :
    valueLiterals t =
      (t.values.map UInt16.toNat).map (hexLiteral (if isWide t then 4 else 2)) := by
  rw [List.map_map]
  rfl

theorem numeric_of_mem_valueLiterals {t : Table Float} {item : String}
    (h : item ∈ valueLiterals t) : Numeric item.toList :=
  numeric_of_mem_literals (valueLiterals_eq t ▸ h)

theorem isWord_of_mem_valueLiterals {t : Table Float} {item : String}
    (h : item ∈ valueLiterals t) : IsWord item.toList :=
  isWord_of_mem_literals (valueLiterals_eq t ▸ h)

theorem mapM_literal?_valueLiterals (t : Table Float) :
    ((valueLiterals t).map String.toList).mapM literal? =
      some (t.values.map fun v => (v.toNat : Int)) := by
  rw [valueLiterals_eq, mapM_literal?_literals, List.map_map]
  · rfl
  · intro n hn
    obtain ⟨v, _, rfl⟩ := List.mem_map.mp hn
    have hlt : v.toNat < 2 ^ 16 := v.toNat_lt
    omega

/-! ## Bytes -/

/-- A row without an indent starts with a literal. -/
theorem isPrefixOf_rowLine {t : Table Float} {perLine : ℕ} {line : String}
    (h : line ∈ rowLines "" false (chunks perLine (valueLiterals t))) :
    "0x".toList.isPrefixOf line.toList = true := by
  obtain ⟨piece, hpiece, comma, _, rfl⟩ := mem_rowLines h
  cases piece with
  | nil => exact absurd rfl (chunk_ne_nil hpiece)
  | cons item rest =>
    obtain ⟨v, _, rfl⟩ := List.mem_map.mp (mem_of_mem_chunk hpiece List.mem_cons_self)
    cases rest with
    | nil => simp
    | cons next more => simp

theorem not_isPrefixOf_summaryRow {l : Layout} {b : Bounds Float} {line : String}
    (h : line ∈ summaryRows l b "") : "0x".toList.isPrefixOf line.toList = false := by
  obtain ⟨text, htext, rfl⟩ := exists_of_mem_summaryRows h
  rw [String.empty_append]
  cases hlist : text.toList with
  | nil => rfl
  | cons c rest =>
    have hhead := (summaryLine_spec htext).1
    rw [hlist, List.head?_cons, Option.some_inj, Option.some_inj] at hhead
    rcases hhead with rfl | rfl <;> rfl

/-- A part about the song that starts with an empty line ends the block before it, and so
does the end of the text. -/
theorem textLines_songPart {f : Sequence Float → String}
    (h : ∀ s, (f s).toList.head? = some '\n') (s : Option (Sequence Float)) :
    ∃ more, textLines (songPart s f).toList = [] :: more := by
  cases s with
  | none => exact ⟨[], rfl⟩
  | some s =>
    obtain ⟨rest, hrest⟩ := List.head?_eq_some_iff.mp (h s)
    refine ⟨textLines rest, ?_⟩
    rw [songPart, hrest]
    exact textLines_line List.not_mem_nil rest

theorem readRows_renderBytes (l : Layout) (t : Table Float) (s : Option (Sequence Float)) :
    readRows (renderBytes l t s).toList = some (t.values.map fun v => (v.toNat : Int)) := by
  set lines := rowLines "" false (chunks l.perLine.toInt.toNat (valueLiterals t)) with hrows
  set song := songPart s fun s =>
    "\nSong (" ++ songLength s ++ " bytes):\n" ++ layoutRows l "" false (songLiterals s)
  have htext : (renderBytes l t s).toList =
      (String.join ((summaryRows l t.bounds "" ++ lines).map (· ++ "\n"))).toList ++
        song.toList := by
    rw [renderBytes, summaryText_eq, layoutRows, rows, String.toList_append, String.toList_append,
      List.map_append, String.join_append, String.toList_append]
  obtain ⟨more, hmore⟩ : ∃ more, textLines song.toList = [] :: more :=
    textLines_songPart (fun s => by simp) s
  have hlines : ∀ line ∈ summaryRows l t.bounds "" ++ lines, line ≠ "" ∧ '\n' ∉ line.toList := by
    intro line hline
    rcases List.mem_append.mp hline with hsummary | hrow
    · exact ⟨summaryRow_ne_empty hsummary, not_mem_summaryRow (by decide) rfl hsummary⟩
    · refine ⟨?_, not_mem_rowLine (by decide) (by decide) (by decide) ?_ hrow⟩
      · rintro rfl
        exact absurd (isPrefixOf_rowLine hrow) (by decide)
      · exact fun item hitem => (numeric_of_mem_valueLiterals hitem).not_mem rfl
  have hwords : (lines.flatMap fun line => words line.toList) =
      (valueLiterals t).map String.toList := by
    rw [hrows, words_rowLines (by decide), flatten_chunks]
    exact fun piece hpiece item hitem =>
      isWord_of_mem_valueLiterals (mem_of_mem_chunk hpiece hitem)
  rw [readRows, htext, block_join hlines hmore,
    filter_skipped (fun _ => not_isPrefixOf_summaryRow) (fun _ => isPrefixOf_rowLine),
    List.flatMap_map, hwords, mapM_literal?_valueLiterals]

/-! ## Assembler -/

/-- The bytes of a register value, the low one first. -/
def registerBytes (wide : Bool) (v : UInt16) : List ℕ :=
  if wide then [v.toNat % 256, v.toNat / 256] else [v.toNat]

theorem valueDirectives_eq (wide : Bool) (v : UInt16) :
    valueDirectives wide v =
      (registerBytes wide v).map fun n => writeDirective (hexLiteral 2 n) := by
  cases wide <;> rfl

theorem toList_writeDirective (literal : String) :
    (writeDirective literal).toList =
      "write".toList ++ ' ' :: (literal.toList ++ ' ' :: "gpram-inc-addr;".toList) := by
  simp [writeDirective]

theorem readDirective_writeDirective {n : ℕ} (h : n < 256) :
    readDirective (writeDirective (hexLiteral 2 n)).toList = some (n : Int) := by
  have hplace : IsWord "gpram-inc-addr;".toList := ⟨by decide, by decide⟩
  rw [readDirective, toList_writeDirective, words_directive (isWord_hexLiteral 2 n) hplace]
  dsimp only
  rw [if_pos ⟨rfl, rfl⟩, byte?_hexLiteral h]

theorem pairBytes_registerBytes (values : List UInt16) :
    pairBytes ((values.flatMap (registerBytes true)).map fun n : ℕ => (n : Int)) =
      some (values.map fun v => (v.toNat : Int)) := by
  induction values with
  | nil => rfl
  | cons v rest ih =>
    have hpair : ((v.toNat % 256 : ℕ) : Int) + 256 * ((v.toNat / 256 : ℕ) : Int) = v.toNat := by
      omega
    rw [List.flatMap_cons, List.map_append]
    change (pairBytes ((rest.flatMap (registerBytes true)).map fun n : ℕ => (n : Int))).map _ = _
    rw [ih, hpair]
    rfl

/-- The part about the song adds no directives to the table. -/
theorem takeWhile_songPart (s : Option (Sequence Float)) (f : Sequence Float → String) :
    (textLines (songPart s fun s => "# Song\n" ++ f s).toList).takeWhile (· ≠ "# Song".toList) =
      if s.isSome then [] else [[]] := by
  cases s with
  | none => rfl
  | some s =>
    have hline : (songPart (some s) fun s => "# Song\n" ++ f s).toList =
        "# Song".toList ++ '\n' :: (f s).toList := by
      simp [songPart]
    rw [hline, textLines_line (by decide)]
    rfl

theorem registerBytes_lt {t : Table Float} (h : t.Lawful) {n : ℕ}
    (hn : n ∈ t.values.flatMap (registerBytes (isWide t))) : n < 256 := by
  obtain ⟨v, hv, hn⟩ := List.mem_flatMap.mp hn
  have hmax := UInt16.le_iff_toNat_le.mp (h.le_max_of_mem_values hv)
  have hlt : v.toNat < 65536 := v.toNat_lt
  rw [Table.Width.max] at hmax
  rw [registerBytes, isWide] at hn
  by_cases hwide : t.options.width = .sixteen
  · simp only [hwide, decide_true, if_true, List.mem_cons, List.not_mem_nil, or_false] at hn
    omega
  · rw [if_neg hwide] at hmax
    simp only [hwide, decide_false, Bool.false_eq_true, if_false, List.mem_singleton] at hn
    have hsmall : (255 : UInt16).toNat = 255 := rfl
    omega

/-- The directives of a table are its bytes, one a line. -/
theorem mapM_readDirective {t : Table Float} (h : t.Lawful) :
    ((t.values.flatMap (valueDirectives (isWide t))).map String.toList).mapM readDirective =
      some ((t.values.flatMap (registerBytes (isWide t))).map fun n : ℕ => (n : Int)) := by
  rw [funext (valueDirectives_eq (isWide t)), ← List.map_flatMap, List.map_map]
  exact mapM_map_eq_some fun n hn => readDirective_writeDirective (registerBytes_lt h hn)

/-- A directive is a line of its own that is neither a comment nor the title of the song. -/
theorem directive_spec {wide : Bool} {values : List UInt16} {line : String}
    (h : line ∈ values.flatMap (valueDirectives wide)) :
    line.toList.head? = some 'w' ∧ '\n' ∉ line.toList := by
  obtain ⟨v, _, hline⟩ := List.mem_flatMap.mp h
  rw [valueDirectives_eq] at hline
  obtain ⟨n, _, rfl⟩ := List.mem_map.mp hline
  have hliteral : '\n' ∉ (hexLiteral 2 n).toList := (numeric_hexLiteral 2 n).not_mem rfl
  rw [toList_writeDirective]
  refine ⟨rfl, ?_⟩
  rw [List.mem_append, List.mem_cons, List.mem_append, List.mem_cons]
  rintro (hmem | hmem | hmem | hmem | hmem)
  · exact absurd hmem (by decide)
  · exact absurd hmem (by decide)
  · exact hliteral hmem
  · exact absurd hmem (by decide)
  · exact absurd hmem (by decide)

/-- A commented summary line is not the title of the song. -/
theorem summaryComment_spec {l : Layout} {b : Bounds Float} {line : String}
    (h : line ∈ summaryRows l b "# ") :
    line.toList.head? = some '#' ∧ line.toList ≠ "# Song".toList := by
  obtain ⟨text, htext, rfl⟩ := exists_of_mem_summaryRows h
  have hlist : ("# " ++ text).toList = '#' :: ' ' :: text.toList := by
    simp
  rw [hlist]
  refine ⟨rfl, fun heq => ?_⟩
  have htitle : text.toList = "Song".toList := (List.cons.inj (List.cons.inj heq).2).2
  rcases (summaryLine_spec htext).1 with hhead | hhead <;> rw [htitle] at hhead <;> cases hhead

/-- The lines of an assembler listing before the song. -/
def gpramLines (l : Layout) (t : Table Float) : List String :=
  summaryRows l t.bounds "# " ++ t.values.flatMap (valueDirectives (isWide t))

theorem gpramLine_spec {l : Layout} {t : Table Float} {line : String}
    (h : line ∈ gpramLines l t) : '\n' ∉ line.toList ∧ line.toList ≠ "# Song".toList := by
  rcases List.mem_append.mp h with hsummary | hline
  · exact ⟨not_mem_summaryRow (by decide) rfl hsummary, (summaryComment_spec hsummary).2⟩
  · refine ⟨(directive_spec hline).2, fun heq => ?_⟩
    have hhead := (directive_spec hline).1
    rw [heq] at hhead
    cases hhead

theorem toList_renderGpram (l : Layout) (t : Table Float) (s : Option (Sequence Float)) :
    (renderGpram l t s).toList =
      (String.join ((gpramLines l t).map (· ++ "\n"))).toList ++
        (songPart s fun s => "# Song\n" ++ (String.join (s.steps.map fun step =>
          stepDirectives step ++ "\n") ++ "write " ++ hexLiteral 2 s.length.toNat ++
            " stack-push;\n")).toList := by
  rw [renderGpram, summaryText_eq, gpramLines, String.toList_append, String.toList_append,
    List.map_append, String.join_append, String.toList_append]
  simp only [String.append_assoc]

theorem readDirectives_renderGpram (l : Layout) {t : Table Float} (h : t.Lawful)
    (s : Option (Sequence Float)) :
    readDirectives t.options.width (renderGpram l t s).toList =
      some (t.values.map fun v => (v.toNat : Int)) := by
  have hbefore : ∀ line ∈ (gpramLines l t).map String.toList,
      decide (line ≠ "# Song".toList) = true := by
    intro line hline
    obtain ⟨text, htext, rfl⟩ := List.mem_map.mp hline
    exact decide_eq_true (gpramLine_spec htext).2
  have hskip : ∀ line ∈ summaryRows l t.bounds "# ",
      (line.toList ≠ [] && line.toList.head? ≠ some '#') = false := by
    intro line hline
    simp [(summaryComment_spec hline).1]
  have hkeep : ∀ line ∈ t.values.flatMap (valueDirectives (isWide t)),
      (line.toList ≠ [] && line.toList.head? ≠ some '#') = true := by
    intro line hline
    have hhead := (directive_spec hline).1
    have hne : line.toList ≠ [] := by
      intro hnil
      rw [hnil] at hhead
      cases hhead
    simp [hhead, hne]
  -- without a song an empty line is left behind the last line end, which is no directive
  have hrest (f : Sequence Float → String) :
      ((textLines (songPart s fun s => "# Song\n" ++ f s).toList).takeWhile
        (· ≠ "# Song".toList)).filter (fun line => line ≠ [] && line.head? ≠ some '#') = [] := by
    rw [takeWhile_songPart]
    cases s <;> rfl
  rw [readDirectives, toList_renderGpram, textLines_join fun _ hline => (gpramLine_spec hline).1,
    List.takeWhile_append_of_pos hbefore, List.filter_append, hrest, List.append_nil, gpramLines,
    filter_skipped hskip hkeep, mapM_readDirective h]
  by_cases hwide : t.options.width = .sixteen
  · have hbytes : isWide t = true := decide_eq_true hwide
    rw [hbytes]
    exact (if_pos hwide).trans (pairBytes_registerBytes t.values)
  · have hbytes : isWide t = false := decide_eq_false hwide
    rw [hbytes]
    refine (if_neg hwide).trans ?_
    rw [List.map_flatMap]
    exact congrArg some List.map_eq_flatMap.symm

/-! ## Arrays -/

section

variable {front kind inner back : List Char} {size : ℕ}

/-- The size of a declaration, between brackets. -/
theorem between_size (hfront : '[' ∉ front) :
    between '[' ']' (front ++ '[' :: ((toString size).toList ++ ']' :: back)) =
      (toString size).toList :=
  between_eq hfront ((Decimal.numeric_nat size).not_mem rfl) _

/-- The body of a declaration, between braces. -/
theorem between_body (hfront : '\x7b' ∉ front) (hkind : '\x7b' ∉ kind) (hinner : '\x7d' ∉ inner) :
    between '\x7b' '\x7d' (front ++ '[' :: ((toString size).toList ++ ']' ::
      (kind ++ '\x7b' :: (inner ++ '\x7d' :: back)))) = inner := by
  have hbrace : '\x7b' ∉ Nat.toDigits 10 size := (Numeric.toDigits size).not_mem rfl
  have hbefore : '\x7b' ∉ front ++ '[' :: ((toString size).toList ++ ']' :: kind) := by
    simp [hfront, hbrace, hkind]
  have hsplit : front ++ '[' :: ((toString size).toList ++ ']' ::
      (kind ++ '\x7b' :: (inner ++ '\x7d' :: back))) =
      (front ++ '[' :: ((toString size).toList ++ ']' :: kind)) ++
        '\x7b' :: (inner ++ '\x7d' :: back) := by
    simp
  rw [hsplit]
  exact between_eq hbefore hinner back

/-- A declaration with a size in brackets and a body in braces. -/
theorem readArray_eq {values : List Int} (hfront : '[' ∉ front ∧ '\x7b' ∉ front)
    (hkind : '\x7b' ∉ kind) (hinner : '\x7d' ∉ inner)
    (hvalues : (words inner).mapM literal? = some values) (hsize : values.length = size)
    (hlt : size < 2 ^ 63) :
    readArray (front ++ '[' :: ((toString size).toList ++ ']' ::
      (kind ++ '\x7b' :: (inner ++ '\x7d' :: back)))) = some values := by
  rw [readArray, between_size hfront.1, between_body hfront.2 hkind hinner,
    number?_toString hlt, hvalues]
  exact if_pos (by rw [hsize])

end

/-- The body of an array is read as the values, whatever blanks stand before the rows. -/
theorem readArray_layoutRows (l : Layout) (t : Table Float) {indent : String}
    {front kind back : List Char} (hindent : indent = "    " ∨ indent = "\t")
    (hfront : '[' ∉ front ∧ '\x7b' ∉ front) (hkind : '\x7b' ∉ kind) :
    readArray (front ++ '[' :: ((toString Table.size).toList ++ ']' :: (kind ++ '\x7b' ::
      ('\n' :: (layoutRows l indent true (valueLiterals t)).toList ++ '\x7d' :: back)))) =
      some (t.values.map fun v => (v.toNat : Int)) := by
  have hgaps : ∀ c ∈ indent.toList, isGap c = true := by
    rcases hindent with rfl | rfl <;> decide
  have hinner : '\x7d' ∉ '\n' :: (layoutRows l indent true (valueLiterals t)).toList := by
    rw [List.mem_cons, not_or]
    refine ⟨by decide, not_mem_rows ?_ (by decide) (by decide) (by decide) ?_⟩
    · rcases hindent with rfl | rfl <;> decide
    · exact fun item hitem => (numeric_of_mem_valueLiterals hitem).not_mem rfl
  refine readArray_eq hfront hkind hinner ?_ (by rw [List.length_map, Table.length_values]) (by decide)
  rw [words_gap_cons rfl, layoutRows,
    words_rows _ _ hgaps fun item hitem => isWord_of_mem_valueLiterals hitem]
  exact mapM_literal?_valueLiterals t

/-- No bracket stands in a summary, nor in the words of a language, nor in a name. -/
theorem bracket_not_mem {c : Char} (hc : c = '[' ∨ c = '\x7b') (l : Layout) (b : Bounds Float)
    {text : String} (htext : ∀ d ∈ text.toList, inName d = true ∨ d = ' ' ∨ d = '=') :
    c ∉ (summaryText l b "// " ++ text).toList := by
  rw [String.toList_append, List.mem_append]
  rintro (hmem | hmem)
  · rcases hc with rfl | rfl <;>
      exact not_mem_summaryText l b (by decide) rfl (by decide) hmem
  · have hd := htext c hmem
    rcases hc with rfl | rfl <;> revert hd <;> decide

theorem readArray_renderC {l : Layout} (hname : isIdentifier l.name = true) (t : Table Float)
    (s : Option (Sequence Float)) :
    readArray (renderC l t s).toList = some (t.values.map fun v => (v.toNat : Int)) := by
  set kind := if isWide t then "uint16_t" else "uint8_t" with hkind
  set front := (summaryText l t.bounds "// " ++ ("static const " ++ kind ++ " " ++ l.name)).toList
    with hfront
  set song := songPart s fun s =>
      "\nstatic const uint8_t " ++ l.name ++ "_song[" ++ songLength s ++ "] = \x7b\n"
        ++ layoutRows l "    " true (songLiterals s) ++ "\x7d;\n"
        ++ "static const uint8_t " ++ l.name ++ "_song_len = " ++ songLength s ++ ";\n"
  have htext : (renderC l t s).toList =
      front ++ '[' :: ((toString Table.size).toList ++ ']' :: (" = ".toList ++ '\x7b' ::
        ('\n' :: (layoutRows l "    " true (valueLiterals t)).toList ++
          '\x7d' :: (";\n".toList ++ song.toList)))) := by
    rw [hfront]
    simp [renderC, kind, song]
  have hwords : ∀ d ∈ ("static const " ++ kind ++ " " ++ l.name).toList,
      inName d = true ∨ d = ' ' ∨ d = '=' := by
    intro d hd
    simp only [String.toList_append, List.mem_append] at hd
    rcases hd with ((hd | hd) | hd) | hd
    · exact (by decide : ∀ d ∈ "static const ".toList, inName d = true ∨ d = ' ' ∨ d = '=') d hd
    · have hkinds : ∀ d ∈ kind.toList, inName d = true := by
        rw [hkind]
        split <;> decide
      exact .inl (hkinds d hd)
    · exact .inr (.inl (List.mem_singleton.mp hd))
    · exact .inl (inName_of_isIdentifier hname hd)
  rw [htext]
  exact readArray_layoutRows l t (.inl rfl)
    ⟨bracket_not_mem (.inl rfl) l _ hwords, bracket_not_mem (.inr rfl) l _ hwords⟩ (by decide)

theorem readArray_renderGo {l : Layout} (hname : isIdentifier l.name = true) (t : Table Float)
    (s : Option (Sequence Float)) :
    readArray (renderGo l t s).toList = some (t.values.map fun v => (v.toNat : Int)) := by
  set kind := if isWide t then "uint16" else "uint8" with hkind
  set front := (summaryText l t.bounds "// " ++ ("var " ++ camelCase l.name ++ " = ")).toList
    with hfront
  set song := songPart s fun s =>
      "\nvar " ++ camelCase l.name ++ "Song = [" ++ songLength s ++ "]uint8\x7b\n"
        ++ layoutRows l "\t" true (songLiterals s) ++ "\x7d\n"
  have htext : (renderGo l t s).toList =
      front ++ '[' :: ((toString Table.size).toList ++ ']' :: (kind.toList ++ '\x7b' ::
        ('\n' :: (layoutRows l "\t" true (valueLiterals t)).toList ++
          '\x7d' :: ("\n".toList ++ song.toList)))) := by
    rw [hfront]
    simp [renderGo, kind, song]
  have hwords : ∀ d ∈ ("var " ++ camelCase l.name ++ " = ").toList,
      inName d = true ∨ d = ' ' ∨ d = '=' := by
    intro d hd
    simp only [String.toList_append, List.mem_append] at hd
    rcases hd with (hd | hd) | hd
    · exact (by decide : ∀ d ∈ "var ".toList, inName d = true ∨ d = ' ' ∨ d = '=') d hd
    · have hletter := isAlphanum_camelCase hname hd
      exact .inl (inName_of_isAlphanum hletter)
    · exact (by decide : ∀ d ∈ " = ".toList, inName d = true ∨ d = ' ' ∨ d = '=') d hd
  have hkinds : '\x7b' ∉ kind.toList := by
    rw [hkind]
    split <;> decide
  rw [htext]
  exact readArray_layoutRows l t (.inr rfl)
    ⟨bracket_not_mem (.inl rfl) l _ hwords, bracket_not_mem (.inr rfl) l _ hwords⟩ hkinds

/-! ## Comma-separated values -/

theorem splitOn_csv {cells : List String} (hne : cells ≠ [])
    (h : ∀ cell ∈ cells, ',' ∉ cell.toList) :
    (",".intercalate cells).toList.splitOn ',' = cells.map String.toList := by
  rw [String.toList_intercalate]
  refine List.splitOn_intercalate ',' ?_ (by simpa using hne)
  intro part hpart
  obtain ⟨cell, hcell, rfl⟩ := List.mem_map.mp hpart
  exact h cell hcell

/-- A row of numbers: more than one of them, and nothing else. -/
structure IsNumberRow (cells : List String) : Prop where
  several : 2 ≤ cells.length
  numeric : ∀ cell ∈ cells, Numeric cell.toList

namespace IsNumberRow

variable {cells : List String}

/-- What no number holds is not in the line of the numbers, commas apart. -/
theorem not_mem {c : Char} (h : IsNumberRow cells) (hc : isNumeric c = false) (hcomma : c ≠ ',') :
    c ∉ (",".intercalate cells).toList := by
  rw [String.toList_intercalate]
  refine Text.not_mem_intercalate (by simpa using hcomma) ?_
  intro part hpart
  obtain ⟨cell, hcell, rfl⟩ := List.mem_map.mp hpart
  exact (h.numeric cell hcell).not_mem hc

theorem ne_nil (h : IsNumberRow cells) : cells ≠ [] := by
  rintro rfl
  exact absurd h.several (by decide)

theorem splitOn_eq (h : IsNumberRow cells) :
    (",".intercalate cells).toList.splitOn ',' = cells.map String.toList :=
  splitOn_csv h.ne_nil fun cell hcell => (h.numeric cell hcell).not_mem rfl

/-- The line of the numbers is not empty, since it holds a comma. -/
theorem line_ne_empty (h : IsNumberRow cells) : ",".intercalate cells ≠ "" := by
  intro hempty
  have hsplit := congrArg List.length h.splitOn_eq
  rw [hempty, List.length_map] at hsplit
  have hseveral := h.several
  simp at hsplit
  omega

end IsNumberRow

/-- A column of a block: lines to be passed over, a line with the names of the columns, and
rows of numbers. -/
theorem readColumn_block {α : Type} {skipped names : List String} {xs : List α}
    {cells : α → List String} {v : α → Int} {rest : List Char} {more : List (List Char)}
    {name : String}
    (hskipped : ∀ line ∈ skipped,
      line ≠ "" ∧ '\n' ∉ line.toList ∧ line.toList.head? = some '#')
    (hnames : names ≠ [] ∧ ∀ cell ∈ names, ',' ∉ cell.toList)
    (hheader : ",".intercalate names ≠ "" ∧ '\n' ∉ (",".intercalate names).toList ∧
      (",".intercalate names).toList.head? ≠ some '#')
    (hcells : ∀ x ∈ xs, IsNumberRow (cells x)) (hrest : textLines rest = [] :: more)
    (hvalue : ∀ x ∈ xs, (((cells x).map String.toList)[
      (names.map String.toList).idxOf name.toList]?).bind number? = some (v x)) :
    readColumn name ((String.join ((skipped ++ ",".intercalate names ::
      xs.map fun x => ",".intercalate (cells x)).map (· ++ "\n"))).toList ++ rest) =
      some (xs.map v) := by
  set rows := xs.map fun x => ",".intercalate (cells x) with hrows
  have hlines : ∀ line ∈ skipped ++ ",".intercalate names :: rows,
      line ≠ "" ∧ '\n' ∉ line.toList := by
    intro line hline
    rcases List.mem_append.mp hline with hline | hline
    · exact ⟨(hskipped line hline).1, (hskipped line hline).2.1⟩
    rcases List.mem_cons.mp hline with rfl | hline
    · exact ⟨hheader.1, hheader.2.1⟩
    · obtain ⟨x, hx, rfl⟩ := List.mem_map.mp hline
      exact ⟨(hcells x hx).line_ne_empty, (hcells x hx).not_mem rfl (by decide)⟩
  have hskip : ∀ line ∈ skipped, decide (line.toList.head? ≠ some '#') = false := by
    intro line hline
    simp [(hskipped line hline).2.2]
  have hkeep : ∀ line ∈ ",".intercalate names :: rows,
      decide (line.toList.head? ≠ some '#') = true := by
    intro line hline
    rw [decide_eq_true_iff]
    rcases List.mem_cons.mp hline with rfl | hline
    · exact hheader.2.2
    · obtain ⟨x, hx, rfl⟩ := List.mem_map.mp hline
      intro hhead
      exact (hcells x hx).not_mem rfl (by decide) (List.mem_of_head? hhead)
  rw [readColumn, block_join hlines hrest, filter_skipped hskip hkeep, List.map_cons]
  dsimp only
  rw [splitOn_csv hnames.1 hnames.2, hrows, List.map_map]
  refine mapM_map_eq_some fun x hx => ?_
  rw [Function.comp_apply, (hcells x hx).splitOn_eq]
  exact hvalue x hx

/-- The names of the columns. -/
def csvHeader : List String :=
  ["index", "frequency_hz", "exact_delay", "delay", "value", "clamped"]

/-- The cells of a row of the table. -/
def csvCells (t : Table Float) (e : Table.Entry Float) : List String :=
  [toString e.index, Decimal.fixed 4 e.frequency, Decimal.fixed 4 e.exact,
    toString e.delay.toNat, toString (t.encode e.delay).toNat, truth e.clamped]

theorem isNumberRow_csvCells (t : Table Float) (e : Table.Entry Float) :
    IsNumberRow (csvCells t e) := by
  refine ⟨by simp [csvCells], fun cell h => ?_⟩
  simp only [csvCells, List.mem_cons, List.not_mem_nil, or_false] at h
  rcases h with rfl | rfl | rfl | rfl | rfl | rfl
  · exact Decimal.numeric_nat _
  · exact Decimal.numeric_fixed _ _
  · exact Decimal.numeric_fixed _ _
  · exact Decimal.numeric_nat _
  · exact Decimal.numeric_nat _
  · cases e.clamped <;> decide

/-- A summary behind a comment sign is passed over. -/
theorem summaryRow_skipped {l : Layout} {b : Bounds Float} {line : String}
    (h : line ∈ summaryRows l b "# ") :
    line ≠ "" ∧ '\n' ∉ line.toList ∧ line.toList.head? = some '#' :=
  ⟨summaryRow_ne_empty h, not_mem_summaryRow (by decide) rfl h, (summaryComment_spec h).1⟩

theorem readColumn_renderCsv (l : Layout) (t : Table Float) (s : Option (Sequence Float)) :
    readColumn "value" (renderCsv l t s).toList =
      some (t.values.map fun v => (v.toNat : Int)) := by
  set song := songPart s fun s =>
      "\n" ++ csvLine ["note", "frequency_hz", "duration_ms", "index", "repeats"]
        ++ String.join (s.steps.zipIdx.map fun p =>
          csvLine [toString p.2, Decimal.plain p.1.scaled, Decimal.plain p.1.note.durationMs,
            toString p.1.index, toString p.1.repeats.toNat])
  have htext : (renderCsv l t s).toList =
      (String.join ((summaryRows l t.bounds "# " ++ ",".intercalate csvHeader ::
        t.entries.toList.map fun e => ",".intercalate (csvCells t e)).map (· ++ "\n"))).toList ++
        song.toList := by
    rw [renderCsv, summaryText_eq, List.map_append, String.join_append]
    simp [csvLine, csvHeader, csvCells, song, List.flatMap_map]
  obtain ⟨more, hmore⟩ : ∃ more, textLines song.toList = [] :: more :=
    textLines_songPart (fun s => by simp) s
  have hcolumn : (csvHeader.map String.toList).idxOf "value".toList = 4 := by decide
  rw [htext, readColumn_block (v := fun e => ((t.encode e.delay).toNat : Int))
    (fun _ => summaryRow_skipped) (by decide) (by decide)
    (fun e _ => isNumberRow_csvCells t e) hmore, Table.values, List.map_map]
  · rfl
  · intro e _
    have hlt : (t.encode e.delay).toNat < 2 ^ 16 := UInt16.toNat_lt _
    have hcell : ((csvCells t e).map String.toList)[4]? =
        some (toString (t.encode e.delay).toNat).toList := rfl
    rw [hcolumn, hcell, Option.bind_some, number?_toString (by omega)]

/-! ## Requests -/

theorem ofExactName?_name (f : Format) : Format.ofExactName? f.name = some f := by
  cases f <;> decide

theorem name_ne_empty (f : Format) : f.name ≠ "" := by
  cases f <;> decide

theorem checkName_symbol {r : Request} (h : r.name = "" ∨ checkName r.name = .ok ()) :
    checkName (if r.name = "" then "delay_table" else r.name) = .ok () := by
  by_cases hempty : r.name = ""
  · rw [if_pos hempty, checkName, if_neg (by decide), if_neg (by decide +kernel)]
  · rw [if_neg hempty]
    exact h.resolve_left hempty

/-- A request for a format under a name that can stand has a layout. -/
theorem exists_layout {r : Request} {f : Format}
    (hformat : r.format = f.name ∨ r.format = "" ∧ f = .bytes)
    (hname : r.name = "" ∨ checkName r.name = .ok ()) :
    ∃ l, r.layout = .ok l ∧ l.format = f ∧ isIdentifier l.name = true := by
  have hsymbol := checkName_symbol hname
  have hidentifier := isIdentifier_of_checkName hsymbol
  rw [Request.layout]
  rcases hformat with hformat | ⟨hformat, rfl⟩
  · have hne : r.format ≠ "" := hformat ▸ name_ne_empty f
    rw [if_neg hne, hformat, ofExactName?_name]
    simp only [hsymbol]
    exact ⟨_, rfl, rfl, hidentifier⟩
  · rw [if_pos hformat]
    simp only [hsymbol]
    exact ⟨_, rfl, rfl, hidentifier⟩

/-- The text of a layout, if it has one, is read as the values of the table. -/
theorem readValues_render {l : Layout} {t : Table Float} {s : Option (Sequence Float)}
    {text : String} (hlawful : t.Lawful) (hname : isIdentifier l.name = true)
    (h : render l t s = .ok text) :
    readValues l.format t.options.width text.toList =
      some (t.values.map fun v => (v.toNat : Int)) := by
  obtain ⟨format, name, perLine, summary⟩ := l
  cases format with
  | bytes =>
    obtain rfl := Except.ok.inj h
    exact readRows_renderBytes _ t s
  | gpram =>
    obtain rfl := Except.ok.inj h
    exact readDirectives_renderGpram _ hlawful s
  | c =>
    obtain rfl := Except.ok.inj h
    exact readArray_renderC hname t s
  | go =>
    obtain rfl := Except.ok.inj h
    exact readArray_renderGo hname t s
  | csv =>
    obtain rfl := Except.ok.inj h
    exact readColumn_renderCsv _ t s
  | json => exact readEntries_renderJson h

/-- Only a document can fail to be written, and only for a number that is not finite. -/
theorem exists_render_iff {l : Layout} {t : Table Float} {s : Option (Sequence Float)} :
    (∃ text, render l t s = .ok text) ↔
      (l.format = .json → ∀ x ∈ shownNumbers t s, Binary64.isFinite x = true) := by
  obtain ⟨format, name, perLine, summary⟩ := l
  cases format with
  | json =>
    constructor
    · rintro ⟨text, h⟩ _
      exact (renderJson_eq_ok_iff.mp h).1
    · intro h
      exact ⟨_, renderJson_eq_ok_iff.mpr ⟨h rfl, rfl⟩⟩
  | _ => exact iff_of_true ⟨_, rfl⟩ nofun

theorem text_of_layout {r : Request} {l : Layout} (h : r.layout = .ok l) (t : Table Float)
    (s : Option (Sequence Float)) :
    r.text t s = (render l t s).map fun text => (l.format, text) := by
  rw [Request.text, h]
  change (render l t s >>= fun text => pure (l.format, text)) = _
  cases render l t s <;> rfl

theorem text_eq_ok_iff {r : Request} {l : Layout} {t : Table Float} {s : Option (Sequence Float)}
    {text : String} (h : r.layout = .ok l) :
    r.text t s = .ok (l.format, text) ↔ render l t s = .ok text := by
  rw [text_of_layout h]
  cases render l t s with
  | error fault => exact iff_of_false nofun nofun
  | ok written => simp [Except.map]

/-- A listing carries the values of its table. For a table that keeps its laws, a request
that names a format and a name that can stand gives a listing in that format, a JSON
document if and only if its numbers are finite; and the reader of the format finds the 256
register values in the listing, in the order of the rows. -/
theorem listings_carry_values {t : Table Float} (hcheck : t.check = .ok ())
    (s : Option (Sequence Float)) {r : Request} {f : Format}
    (hformat : r.format = f.name ∨ r.format = "" ∧ f = .bytes)
    (hname : r.name = "" ∨ checkName r.name = .ok ()) :
    t.values.length = 256 ∧
    ((∃ text, r.text t s = .ok (f, text)) ↔
      (f = .json → ∀ x ∈ shownNumbers t s, Binary64.isFinite x = true)) ∧
    ∀ text, r.text t s = .ok (f, text) →
      readValues f t.options.width text.toList = some (t.values.map fun v => (v.toNat : Int)) := by
  obtain ⟨l, hlayout, rfl, hidentifier⟩ := exists_layout hformat hname
  refine ⟨Table.length_values t, ?_, ?_⟩
  · simp only [text_eq_ok_iff hlayout]
    exact exists_render_iff
  · intro text h
    exact readValues_render (Table.check_eq_ok_iff.mp hcheck) hidentifier
      ((text_eq_ok_iff hlayout).mp h)

/-- The table of the usual constants, listed as a document. -/
theorem halfHertz_document : Table.HalfHertz.table.check = .ok () ∧
    ∃ text, ({ format := "json" } : Request).text Table.HalfHertz.table none = .ok (.json, text) ∧
      readValues .json Table.HalfHertz.table.options.width text.toList =
        some (Table.HalfHertz.table.values.map fun v => (v.toNat : Int)) := by
  have hmade := Table.made_of_generate Table.HalfHertz.generate_eq
  have hcheck := Table.check_eq_ok_iff.mpr hmade.lawful
  have hlisted := listings_carry_values hcheck none (r := { format := "json" }) (f := .json)
    (.inl rfl) (.inl rfl)
  have hfinite : ∀ x ∈ shownNumbers Table.HalfHertz.table none, Binary64.isFinite x = true := by
    refine forall_mem_shownNumbers.mpr ⟨⟨by decide +kernel, ?_⟩, nofun⟩
    intro e he
    obtain ⟨i, hi, rfl⟩ := Vector.getElem_of_mem (Vector.mem_toList_iff.mp he)
    exact (hmade.within_frequency ⟨i, hi⟩).isFinite (by norm_num)
  obtain ⟨text, htext⟩ := hlisted.2.1.mpr fun _ => hfinite
  exact ⟨hcheck, text, htext, hlisted.2.2 text htext⟩

end StepTone.Listing
