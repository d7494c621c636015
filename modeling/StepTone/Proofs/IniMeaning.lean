/-
StepTone.Proofs.IniMeaning — the settings of an INI text, line by line.

A text is read block by block: a block is merged into its section when the next header or
the end of the text closes it. The meaning of a text does without blocks that are open or
closed: a line assigns to an option of the section whose header stands last before it, and
the last assignment counts.

* `Outline` — which lines of a text are headers, and which are options.
* `Outline.Assigns`, `Outline.LastValue`, `Outline.CaseClear` — the meaning of a text.
* `held?_take`, `names_take` — a line acts on the settings as if its block were closed.
* `held?_draft`, `pairwise_names_draft` — so a draft holds what its lines mean.
* `ofIni_means` — the settings of a text are what its lines mean.
-/
import Mathlib.Data.List.Induction
import StepTone.Proofs.IniLines
import StepTone.Proofs.SettingsStore

namespace StepTone.Settings

/-! ## The meaning of a text -/

/-- Which lines of a text are headers, and which are options. -/
structure Outline where
  header : Nat → String → Prop
  option : Nat → String → String → Prop

namespace Outline

/-- The outline of a text, by the numbers of its lines. -/
def ofText (text : String) : Outline where
  header i name := ∃ raw, (text.toList.splitOn '\n')[i]? = some raw ∧ IsHeader raw name
  option i key value := ∃ raw, (text.toList.splitOn '\n')[i]? = some raw ∧ IsOption raw key value

variable (o : Outline)

/-- Line `i` stands in the block that line `j` opens, a block of the section `name`: line
`j` is its header, and there is no header in between. -/
def InBlock (j i : Nat) (name : String) : Prop :=
  j < i ∧ o.header j name ∧ ∀ m n, j < m → m < i → ¬ o.header m n

/-- Line `i` gives an option of a section a value. -/
def Assigns (i : Nat) (name key value : String) : Prop :=
  ∃ j given, o.InBlock j i name ∧ o.option i given value ∧ Text.lower given = key

/-- The last line that gives an option of a section a value gives it this one. -/
def LastValue (name key value : String) : Prop :=
  ∃ i, o.Assigns i name key value ∧ ∀ i', i < i' → ∀ value', ¬ o.Assigns i' name key value'

/-- No block holds two keys that differ only in case. -/
def CaseClear : Prop :=
  ∀ j name i i' key value key' value', o.InBlock j i name → o.InBlock j i' name →
    o.option i key value → o.option i' key' value' → Text.lower key = Text.lower key' →
    key = key'

/-- The section `a` has a header before all those of the section `b`. -/
def HeadedBefore (a b : String) : Prop :=
  ∃ i, o.header i a ∧ ∀ i', o.header i' b → i < i'

/-- The outline of lines that have been read. -/
def ofLines (lines : List Line) : Outline where
  header i name := lines[i]? = some (.header name)
  option i key value := lines[i]? = some (.option key value)

/-! ## One more line -/

theorem getElem?_concat_eq_some_iff {lines : List Line} {line l : Line} {i : Nat} :
    (lines ++ [line])[i]? = some l ↔ lines[i]? = some l ∨ i = lines.length ∧ line = l := by
  rcases Nat.lt_trichotomy i lines.length with h | rfl | h
  · simp [List.getElem?_append_left h, Nat.ne_of_lt h]
  · simp
  · simp [List.getElem?_append_right (Nat.le_of_lt h), Nat.ne_of_gt h, List.getElem?_eq_none,
      Nat.le_of_lt h, show 1 ≤ i - lines.length by omega]

theorem lt_length_of_getElem? {lines : List Line} {l : Line} {i : Nat}
    (h : lines[i]? = some l) : i < lines.length :=
  (List.getElem?_eq_some_iff.mp h).1

variable {lines : List Line} {line : Line} {i j : Nat} {name key value : String}

theorem inBlock_concat (hi : i ≤ lines.length) :
    (ofLines (lines ++ [line])).InBlock j i name ↔ (ofLines lines).InBlock j i name := by
  have hheader {m : Nat} (hm : m < i) (n : String) :
      (ofLines (lines ++ [line])).header m n ↔ (ofLines lines).header m n := by
    simp only [ofLines, getElem?_concat_eq_some_iff, or_iff_left_iff_imp]
    rintro ⟨rfl, -⟩
    omega
  constructor
  · rintro ⟨hj, hhead, hbetween⟩
    exact ⟨hj, (hheader hj name).mp hhead, fun m n hjm hmi => mt (hheader hmi n).mpr
      (hbetween m n hjm hmi)⟩
  · rintro ⟨hj, hhead, hbetween⟩
    exact ⟨hj, (hheader hj name).mpr hhead, fun m n hjm hmi => mt (hheader hmi n).mp
      (hbetween m n hjm hmi)⟩

/-- After a line that is no header, the open block is the one from before. -/
theorem inBlock_end_concat (h : ∀ n, line ≠ .header n) :
    (ofLines (lines ++ [line])).InBlock j (lines ++ [line]).length name ↔
      (ofLines lines).InBlock j lines.length name := by
  have hend : (ofLines (lines ++ [line])).InBlock j lines.length name ↔
      (ofLines lines).InBlock j lines.length name := inBlock_concat (Nat.le_refl _)
  rw [← hend]
  have hlast (n : String) : ¬ (ofLines (lines ++ [line])).header lines.length n := by
    simpa [ofLines] using h n
  constructor
  · rintro ⟨hj, hhead, hbetween⟩
    have hne : j ≠ lines.length := by
      rintro rfl
      exact hlast name hhead
    simp only [List.length_append, List.length_singleton] at hj hbetween
    exact ⟨by omega, hhead, fun m n hjm hm => hbetween m n hjm (by omega)⟩
  · rintro ⟨hj, hhead, hbetween⟩
    refine ⟨by simp; omega, hhead, fun m n hjm hm => ?_⟩
    by_cases hmlen : m = lines.length
    · exact hmlen ▸ hlast n
    · simp only [List.length_append, List.length_singleton] at hm
      exact hbetween m n hjm (by omega)

/-- After a header, the open block is the one that it opens. -/
theorem inBlock_end_header {n : String} :
    (ofLines (lines ++ [Line.header n])).InBlock j (lines ++ [Line.header n]).length name ↔
      j = lines.length ∧ name = n := by
  constructor
  · rintro ⟨hj, hhead, hbetween⟩
    simp only [List.length_append, List.length_singleton] at hj hbetween
    have hlen : j = lines.length := by
      by_contra hne
      exact hbetween lines.length n (by omega) (by omega) (by simp [ofLines])
    subst hlen
    exact ⟨rfl, by simpa [ofLines, eq_comm] using hhead⟩
  · rintro ⟨rfl, rfl⟩
    refine ⟨by simp, by simp [ofLines], fun m n' hjm hm => ?_⟩
    simp only [List.length_append, List.length_singleton] at hm
    omega

/-- The last line gives the option of the section the value. -/
def EndAssigns (lines : List Line) (line : Line) (name key value : String) : Prop :=
  ∃ j given, (ofLines lines).InBlock j lines.length name ∧ line = .option given value ∧
    Text.lower given = key

theorem assigns_concat : (ofLines (lines ++ [line])).Assigns i name key value ↔
    (ofLines lines).Assigns i name key value ∨
      i = lines.length ∧ EndAssigns lines line name key value := by
  constructor
  · rintro ⟨j, given, hblock, hoption, hkey⟩
    rcases getElem?_concat_eq_some_iff.mp hoption with hold | ⟨rfl, hline⟩
    · have hi := lt_length_of_getElem? hold
      exact .inl ⟨j, given, (inBlock_concat (Nat.le_of_lt hi)).mp hblock, hold, hkey⟩
    · exact .inr ⟨rfl, j, given, (inBlock_concat (Nat.le_refl _)).mp hblock, hline, hkey⟩
  · rintro (⟨j, given, hblock, hoption, hkey⟩ | ⟨rfl, j, given, hblock, hline, hkey⟩)
    · have hi := lt_length_of_getElem? hoption
      exact ⟨j, given, (inBlock_concat (Nat.le_of_lt hi)).mpr hblock,
        getElem?_concat_eq_some_iff.mpr (.inl hoption), hkey⟩
    · exact ⟨j, given, (inBlock_concat (Nat.le_refl _)).mpr hblock,
        getElem?_concat_eq_some_iff.mpr (.inr ⟨rfl, hline⟩), hkey⟩

theorem lt_length_of_assigns (h : (ofLines lines).Assigns i name key value) :
    i < lines.length := by
  obtain ⟨j, given, -, hoption, -⟩ := h
  exact lt_length_of_getElem? hoption

theorem lastValue_concat_of_endAssigns {v : String} (h : EndAssigns lines line name key v) :
    (ofLines (lines ++ [line])).LastValue name key value ↔ value = v := by
  constructor
  · rintro ⟨i, hassigns, hlast⟩
    rcases assigns_concat.mp hassigns with hold | ⟨rfl, j, given, -, hline, -⟩
    · exact absurd (assigns_concat.mpr (.inr ⟨rfl, h⟩)) (hlast _ (lt_length_of_assigns hold) v)
    · obtain ⟨j', given', -, hline', -⟩ := h
      exact (Line.option.inj (hline.symm.trans hline')).2
  · rintro rfl
    refine ⟨lines.length, assigns_concat.mpr (.inr ⟨rfl, h⟩), fun i' hi' value' hassigns => ?_⟩
    rcases assigns_concat.mp hassigns with hold | ⟨rfl, -⟩
    · have hlt := lt_length_of_assigns hold
      omega
    · omega

theorem lastValue_concat_of_not (h : ∀ v, ¬ EndAssigns lines line name key v) :
    (ofLines (lines ++ [line])).LastValue name key value ↔
      (ofLines lines).LastValue name key value := by
  have hassigns (i : Nat) (v : String) : (ofLines (lines ++ [line])).Assigns i name key v ↔
      (ofLines lines).Assigns i name key v := by
    rw [assigns_concat]
    exact or_iff_left fun hend => h v hend.2
  simp only [LastValue, hassigns]

theorem CaseClear.of_concat (h : (ofLines (lines ++ [line])).CaseClear) :
    (ofLines lines).CaseClear := by
  intro j name i i' key value key' value' hi hi' hoption hoption' hlower
  refine h j name i i' key value key' value' ?_ ?_ ?_ ?_ hlower
  · exact (inBlock_concat (Nat.le_of_lt (lt_length_of_getElem? hoption))).mpr hi
  · exact (inBlock_concat (Nat.le_of_lt (lt_length_of_getElem? hoption'))).mpr hi'
  · exact getElem?_concat_eq_some_iff.mpr (.inl hoption)
  · exact getElem?_concat_eq_some_iff.mpr (.inl hoption')

theorem HeadedBefore.concat {a b : String} (h : (ofLines lines).HeadedBefore a b) :
    (ofLines (lines ++ [line])).HeadedBefore a b := by
  obtain ⟨i, hi, hbefore⟩ := h
  refine ⟨i, getElem?_concat_eq_some_iff.mpr (.inl hi), fun i' hi' => ?_⟩
  rcases getElem?_concat_eq_some_iff.mp hi' with hold | ⟨rfl, -⟩
  · exact hbefore i' hold
  · exact lt_length_of_getElem? hi

end Outline

/-! ## What a line does to a draft -/

namespace Options

theorem lookup_reverse {o : Options} (h : o.keys.Nodup) (k : String) :
    o.reverse.lookup k = o.lookup k :=
  (lookup_eq_of_perm o.reverse_perm.symm h k).symm

/-- Where no other key has the same lower case, setting a key and lowering it can change
places. -/
theorem lowered_put {block : Options} {key : String}
    (h : ∀ k ∈ block.keys, Text.lower k = Text.lower key → k = key) (value : String) :
    (block.put key value).lowered = block.lowered.put (Text.lower key) value := by
  induction block with
  | nil => rfl
  | cons p rest ih =>
    obtain ⟨a, v⟩ := p
    obtain ⟨ha, hrest⟩ := List.forall_mem_cons.mp h
    by_cases hak : a = key
    · subst hak
      simp [put]
    · have hlower : Text.lower a ≠ Text.lower key := mt ha hak
      simp [put, hak, hlower, ih hrest]

end Options

namespace Draft

variable {d : Draft} {name : String} {block : Options}

/-- A header leaves what is held as it is, and adds its section. -/
theorem close_take_header (d : Draft) (n : String) :
    (d.take (.header n)).close = d.close.add n [] := rfl

theorem close_of_block (h : d.block = some (name, block)) :
    d.close = d.settings.add name block := by
  rw [close, h]

theorem close_take_option (h : d.block = some (name, block)) (key value : String) :
    (d.take (.option key value)).close = d.settings.add name (block.put key value) := by
  simp [take, close, h]

theorem take_option_of_none (h : d.block = none) (key value : String) :
    d.take (.option key value) = d := by
  obtain ⟨settings, block⟩ := d
  simp only at h
  simp [take, h]

/-- An option line acts at once on the section of its block, provided that its key stands
in the block only as it is written here. -/
theorem held?_take_option (h : d.block = some (name, block)) (hn : block.lowered.keys.Nodup)
    {key : String} (hclear : ∀ k ∈ block.keys, Text.lower k = Text.lower key → k = key)
    (value n k : String) : (d.take (.option key value)).close.held? n k =
      if n = name ∧ k = Text.lower key then some value else d.close.held? n k := by
  have hput : (block.put key value).lowered.keys.Nodup := by
    rw [Options.lowered_put hclear]
    exact Options.nodup_put hn _ _
  rw [close_take_option h, close_of_block h, held?_add, held?_add, Options.lookup_reverse hput,
    Options.lookup_reverse hn, Options.lowered_put hclear, Options.lookup_put]
  by_cases hname : n = name
  · by_cases hk : k = Text.lower key
    · simp [hname, hk]
    · simp [hname, hk]
  · simp [hname]

theorem held?_take_header (d : Draft) (m n k : String) :
    (d.take (.header m)).close.held? n k = d.close.held? n k := by
  rw [close_take_header, held?_add]
  simp

theorem names_take (d : Draft) (line : Line) : (d.take line).close.names =
    match line with
    | .header n => if n ∈ d.close.names then d.close.names else d.close.names ++ [n]
    | _ => d.close.names := by
  cases line with
  | blank => rfl
  | header n => exact names_add d.close n []
  | option key value =>
    cases hblock : d.block with
    | none => rw [take_option_of_none hblock]
    | some b =>
      obtain ⟨n, block⟩ := b
      rw [close_take_option hblock, close_of_block hblock, names_add, names_add]

end Draft

/-! ## What a draft holds -/

section

open Outline

/-- The draft after lines. -/
def draft (lines : List Line) : Draft :=
  lines.foldl Draft.take {}

theorem draft_concat (lines : List Line) (line : Line) :
    draft (lines ++ [line]) = (draft lines).take line := by
  simp [draft]

variable {lines : List Line}

/-- The open block is the one that the end of the lines stands in. -/
theorem block_draft {name : String} : (draft lines).block.map Prod.fst = some name ↔
    ∃ j, (ofLines lines).InBlock j lines.length name := by
  induction lines using List.reverseRecOn with
  | nil => simp [draft, InBlock]
  | append_singleton lines line ih =>
    rw [draft_concat]
    cases line with
    | blank =>
      rw [exists_congr fun j => inBlock_end_concat (j := j) (by simp)]
      exact ih
    | header n =>
      rw [exists_congr fun j => inBlock_end_header (j := j)]
      simp [Draft.take, eq_comm]
    | option key value =>
      rw [exists_congr fun j => inBlock_end_concat (j := j) (by simp), ← ih]
      simp [Draft.take, Function.comp_def]

/-- The keys of the open block stand in option lines of that block. -/
theorem option_of_mem_keys {name key : String} {block : Options}
    (h : (draft lines).block = some (name, block)) (hkey : key ∈ block.keys) :
    ∃ j i value, (ofLines lines).InBlock j lines.length name ∧
      (ofLines lines).InBlock j i name ∧ (ofLines lines).option i key value := by
  induction lines using List.reverseRecOn generalizing block with
  | nil => simp [draft] at h
  | append_singleton lines line ih =>
    have keep (hline : ∀ n, line ≠ .header n) {block : Options}
        (h : (draft lines).block = some (name, block)) (hkey : key ∈ block.keys) :
        ∃ j i value, (ofLines (lines ++ [line])).InBlock j (lines ++ [line]).length name ∧
          (ofLines (lines ++ [line])).InBlock j i name ∧
          (ofLines (lines ++ [line])).option i key value := by
      obtain ⟨j, i, value, hend, hblock, hoption⟩ := ih h hkey
      have hi := lt_length_of_getElem? hoption
      exact ⟨j, i, value, (inBlock_end_concat hline).mpr hend,
        (inBlock_concat (Nat.le_of_lt hi)).mpr hblock,
        getElem?_concat_eq_some_iff.mpr (.inl hoption)⟩
    rw [draft_concat] at h
    cases line with
    | blank => exact keep (by simp) h hkey
    | header n =>
      obtain ⟨rfl, rfl⟩ := Prod.mk.inj (Option.some.inj h)
      simp at hkey
    | option given value =>
      simp only [Draft.take, Option.map_eq_some_iff] at h
      obtain ⟨⟨n, old⟩, hold, hpair⟩ := h
      obtain ⟨rfl, rfl⟩ := Prod.mk.inj hpair
      rcases Options.mem_keys_put.mp hkey with rfl | hkey
      · obtain ⟨j, hend⟩ := block_draft.mp (show (draft lines).block.map Prod.fst = some n by
          rw [hold]; rfl)
        exact ⟨j, lines.length, value, (inBlock_end_concat (by simp)).mpr hend,
          (inBlock_concat (Nat.le_refl _)).mpr hend,
          getElem?_concat_eq_some_iff.mpr (.inr ⟨rfl, rfl⟩)⟩
      · exact keep (by simp) hold hkey

/-- A key of the open block and that of an option line after it are one, if they are one
in lower case. -/
theorem key_eq_of_caseClear {given value name : String} {block : Options}
    (hclear : (ofLines (lines ++ [.option given value])).CaseClear)
    (h : (draft lines).block = some (name, block)) {key : String} (hkey : key ∈ block.keys)
    (hlower : Text.lower key = Text.lower given) : key = given := by
  obtain ⟨j, i, v, hend, hblock, hoption⟩ := option_of_mem_keys h hkey
  have hi := lt_length_of_getElem? hoption
  exact hclear j name i lines.length key v given value
    ((inBlock_concat (Nat.le_of_lt hi)).mpr hblock) ((inBlock_concat (Nat.le_refl _)).mpr hend)
    (getElem?_concat_eq_some_iff.mpr (.inl hoption))
    (getElem?_concat_eq_some_iff.mpr (.inr ⟨rfl, rfl⟩)) hlower

theorem nodup_lowered_draft (hclear : (ofLines lines).CaseClear) {name : String}
    {block : Options} (h : (draft lines).block = some (name, block)) :
    block.lowered.keys.Nodup := by
  induction lines using List.reverseRecOn generalizing block with
  | nil => simp [draft] at h
  | append_singleton lines line ih =>
    rw [draft_concat] at h
    cases line with
    | blank => exact ih hclear.of_concat h
    | header n =>
      obtain ⟨rfl, rfl⟩ := Prod.mk.inj (Option.some.inj h)
      simp
    | option given value =>
      simp only [Draft.take, Option.map_eq_some_iff] at h
      obtain ⟨⟨n, old⟩, hold, hpair⟩ := h
      obtain ⟨rfl, rfl⟩ := Prod.mk.inj hpair
      rw [Options.lowered_put fun key hkey => key_eq_of_caseClear hclear hold hkey]
      exact Options.nodup_put (ih hclear.of_concat hold) _ _

/-- Once its open block is closed, a draft holds the last values of its lines. -/
theorem held?_draft (hclear : (ofLines lines).CaseClear) {name key value : String} :
    (draft lines).close.held? name key = some value ↔
      (ofLines lines).LastValue name key value := by
  induction lines using List.reverseRecOn with
  | nil => simp [draft, Draft.close, held?, section?, LastValue, Assigns, InBlock, ofLines]
  | append_singleton lines line ih =>
    replace ih := ih hclear.of_concat
    rw [draft_concat]
    cases line with
    | blank =>
      rw [lastValue_concat_of_not (by rintro v ⟨j, given, -, hline, -⟩; cases hline)]
      exact ih
    | header n =>
      rw [lastValue_concat_of_not (by rintro v ⟨j, given, -, hline, -⟩; cases hline),
        Draft.held?_take_header]
      exact ih
    | option given v =>
      cases hblock : (draft lines).block with
      | none =>
        rw [Draft.take_option_of_none hblock, lastValue_concat_of_not ?_, ih]
        rintro v ⟨j, -, hend, -⟩
        have hopen := block_draft.mpr ⟨j, hend⟩
        simp [hblock] at hopen
      | some b =>
        obtain ⟨n, block⟩ := b
        have hopen : (draft lines).block.map Prod.fst = some n := by simp [hblock]
        rw [Draft.held?_take_option hblock (nodup_lowered_draft hclear.of_concat hblock)
          fun k hk => key_eq_of_caseClear hclear hblock hk]
        by_cases htarget : name = n ∧ key = Text.lower given
        · obtain ⟨rfl, rfl⟩ := htarget
          obtain ⟨j, hend⟩ := block_draft.mp hopen
          rw [if_pos ⟨rfl, rfl⟩, lastValue_concat_of_endAssigns ⟨j, given, hend, rfl, rfl⟩]
          simp [eq_comm]
        · rw [if_neg htarget, lastValue_concat_of_not ?_, ih]
          rintro v' ⟨j, given', hend, hline, hkey⟩
          obtain ⟨rfl, rfl⟩ := Line.option.inj hline
          have hname := block_draft.mpr ⟨j, hend⟩
          rw [hopen] at hname
          exact htarget ⟨(Option.some.inj hname).symm, hkey.symm⟩

theorem mem_names_draft {name : String} :
    name ∈ (draft lines).close.names ↔ ∃ i, (ofLines lines).header i name := by
  induction lines using List.reverseRecOn with
  | nil => simp [draft, Draft.close, names, ofLines]
  | append_singleton lines line ih =>
    have hheader : (∃ i, (ofLines (lines ++ [line])).header i name) ↔
        (∃ i, (ofLines lines).header i name) ∨ line = .header name := by
      simp only [ofLines, getElem?_concat_eq_some_iff, exists_or, exists_eq_left]
    rw [draft_concat, Draft.names_take, hheader, ← ih]
    cases line with
    | blank => simp
    | option key value => simp
    | header n =>
      by_cases hn : n ∈ (draft lines).close.names
      · simp only [if_pos hn, Line.header.injEq]
        exact ⟨.inl, fun h => h.elim id fun he => he ▸ hn⟩
      · simp [if_neg hn, eq_comm]

/-- Sections stand in the order of their first headers. -/
theorem pairwise_names_draft :
    (draft lines).close.names.Pairwise (ofLines lines).HeadedBefore := by
  induction lines using List.reverseRecOn with
  | nil => simp [draft, Draft.close, names]
  | append_singleton lines line ih =>
    have hold : (draft lines).close.names.Pairwise (ofLines (lines ++ [line])).HeadedBefore :=
      ih.imp HeadedBefore.concat
    rw [draft_concat, Draft.names_take]
    cases line with
    | blank => exact hold
    | option key value => exact hold
    | header n =>
      by_cases hn : n ∈ (draft lines).close.names
      · simpa only [if_pos hn] using hold
      · simp only [if_neg hn, List.pairwise_append, List.pairwise_singleton, List.mem_singleton,
          forall_eq, true_and]
        refine ⟨hold, fun a ha => ?_⟩
        obtain ⟨i, hi⟩ := mem_names_draft.mp ha
        refine ⟨i, getElem?_concat_eq_some_iff.mpr (.inl hi), fun i' hi' => ?_⟩
        rcases getElem?_concat_eq_some_iff.mp hi' with hfirst | ⟨rfl, -⟩
        · exact absurd (mem_names_draft.mpr ⟨i', hfirst⟩) hn
        · exact lt_length_of_getElem? hi

end

/-! ## The whole text -/

theorem takeLines_eq_ok {d : Draft} {number : Nat} {raws : List (List Char)} {s : Settings}
    (h : takeLines d number raws = .ok s) :
    ∃ lines, List.Forall₂ Says raws lines ∧ s = (lines.foldl Draft.take d).close := by
  fun_induction takeLines d number raws with
  | case1 d number =>
    cases h
    exact ⟨[], .nil, rfl⟩
  | case2 => cases h
  | case3 => cases h
  | case4 d number raw rest hshort line hline ih =>
    obtain ⟨lines, hsaid, rfl⟩ := ih h
    exact ⟨line :: lines, .cons (readLine_eq_ok_iff.mp hline).1 hsaid, rfl⟩

/-- The settings of a text are those of what its lines say. -/
theorem ofIni_eq_ok {text : String} {s : Settings} (h : ofIni text = .ok s) :
    ∃ lines, List.Forall₂ Says (text.toList.splitOn '\n') lines ∧ s = (draft lines).close := by
  obtain ⟨lines, hsaid, rfl⟩ := takeLines_eq_ok h
  obtain ⟨tail, rfl | rfl, hsplit⟩ := splitOn_eq_linesFrom text.toList
  · exact ⟨lines, by rwa [hsplit, List.append_nil], rfl⟩
  · refine ⟨lines ++ [.blank], ?_, by rw [draft_concat]; rfl⟩
    rw [hsplit]
    exact List.rel_append hsaid (.cons rfl .nil)

theorem forall₂_getElem? {raws : List (List Char)} {lines : List Line}
    (h : List.Forall₂ Says raws lines) (i : Nat) (line : Line) :
    (∃ raw, raws[i]? = some raw ∧ Says raw line) ↔ lines[i]? = some line := by
  induction h generalizing i with
  | nil => simp
  | cons hsaid _ ih =>
    cases i with
    | zero =>
      simp only [List.getElem?_cons_zero, Option.some.injEq, exists_eq_left']
      exact ⟨fun h => hsaid.unique h, fun h => h ▸ hsaid⟩
    | succ i => simpa using ih i

theorem ofText_eq_ofLines {text : String} {lines : List Line}
    (h : List.Forall₂ Says (text.toList.splitOn '\n') lines) :
    Outline.ofText text = Outline.ofLines lines := by
  simp only [Outline.ofText, Outline.ofLines, Outline.mk.injEq]
  constructor
  · funext i name
    exact propext (forall₂_getElem? h i (.header name))
  · funext i key value
    exact propext (forall₂_getElem? h i (.option key value))

/-- The settings of a text are what its lines mean: an option of a section has the value
of the last line that assigns it, there is a section for each name in a header and no
other, and sections stand in the order of their first headers. -/
theorem ofIni_means {text : String} {s : Settings} (h : ofIni text = .ok s)
    (hclear : (Outline.ofText text).CaseClear) :
    (∀ name key value,
      (∃ sec, s.section? name = some sec ∧ sec.options.lookup key = some value) ↔
        (Outline.ofText text).LastValue name key value) ∧
    (∀ name, (∃ sec, s.section? name = some sec) ↔ ∃ i, (Outline.ofText text).header i name) ∧
    (∀ name, name ∈ s.names ↔ ∃ i, (Outline.ofText text).header i name) ∧
    s.names.Nodup ∧ s.names.Pairwise (Outline.ofText text).HeadedBefore := by
  have hfresh := fresh_ofIni h
  obtain ⟨lines, hsaid, rfl⟩ := ofIni_eq_ok h
  rw [ofText_eq_ofLines hsaid] at hclear ⊢
  refine ⟨fun name key value => ?_, fun name => ?_, fun name => mem_names_draft,
    hfresh.names_nodup, pairwise_names_draft⟩
  · rw [← held?_draft hclear, held?, Option.bind_eq_some_iff]
  · rw [← mem_names_draft, ← isSome_section?_iff, Option.isSome_iff_exists]

/-- Two blocks of one section, with one key in two cases. -/
def twoBlocks : String := "[A]\nK: 1 # one\n[ a ]\nk = 2\n"

/-- What the lines of the two blocks say. -/
def twoBlocksLines : List Line :=
  [.header "a", .option "K" "1", .header "a", .option "k" "2", .blank]

theorem says_twoBlocks : List.Forall₂ Says (twoBlocks.toList.splitOn '\n') twoBlocksLines := by
  have hsplit : twoBlocks.toList.splitOn '\n' = ["[A]".toList, "K: 1 # one".toList,
      "[ a ]".toList, "k = 2".toList, []] := by
    decide
  have hsaid {raw : List Char} {line : Line} (h : readLine true raw = .ok line) : Says raw line :=
    (readLine_eq_ok_iff.mp h).1
  rw [hsplit]
  refine .cons (hsaid ?_) (.cons (hsaid ?_) (.cons (hsaid ?_) (.cons (hsaid ?_)
    (.cons (hsaid ?_) .nil))))
  all_goals decide

theorem caseClear_twoBlocks : (Outline.ofText twoBlocks).CaseClear := by
  rw [ofText_eq_ofLines says_twoBlocks]
  have hoption {i : Nat} {key value : String}
      (h : (Outline.ofLines twoBlocksLines).option i key value) :
      i = 1 ∧ key = "K" ∨ i = 3 ∧ key = "k" := by
    match i with
    | 0 | 2 | 4 => simp [Outline.ofLines, twoBlocksLines] at h
    | 1 | 3 =>
      simp only [Outline.ofLines, twoBlocksLines, List.getElem?_cons_succ,
        List.getElem?_cons_zero, Option.some.injEq, Line.option.injEq] at h
      simp [h.1]
    | i + 5 => simp [Outline.ofLines, twoBlocksLines] at h
  -- the second header stands between the two options
  have hapart {j : Nat} {name : String} (h : (Outline.ofLines twoBlocksLines).InBlock j 1 name)
      (h' : (Outline.ofLines twoBlocksLines).InBlock j 3 name) : False :=
    h'.2.2 2 "a" (Nat.lt_succ_of_lt h.1) (by decide) rfl
  intro j name i i' key value key' value' hi hi' hkey hkey' _
  rcases hoption hkey with ⟨rfl, rfl⟩ | ⟨rfl, rfl⟩
  · rcases hoption hkey' with ⟨rfl, rfl⟩ | ⟨rfl, rfl⟩
    · rfl
    · exact (hapart hi hi').elim
  · rcases hoption hkey' with ⟨rfl, rfl⟩ | ⟨rfl, rfl⟩
    · exact (hapart hi' hi).elim
    · rfl

/-- The later of the two blocks counts, though its key is in another case. -/
theorem twoBlocks_mean : ∃ s, ofIni twoBlocks = .ok s ∧
    (Outline.ofText twoBlocks).CaseClear ∧ s.names = ["a"] ∧
    (Outline.ofText twoBlocks).LastValue "a" "k" "2" ∧
    ¬ (Outline.ofText twoBlocks).LastValue "a" "k" "1" := by
  have h : ofIni twoBlocks = .ok { sections := [{ name := "a", options := [("k", "2")] }] } := by
    decide
  have hmeans := (ofIni_means h caseClear_twoBlocks).1
  refine ⟨_, h, caseClear_twoBlocks, rfl, (hmeans "a" "k" "2").mp ⟨_, rfl, rfl⟩, ?_⟩
  rw [← hmeans]
  rintro ⟨_, ⟨⟩, hvalue⟩
  simp at hvalue

end StepTone.Settings
