/-
StepTone.Proofs.NotationAgreement — a document gives one profile in both notations.

A TOML document of plain tables can be written as an INI text: its tables in ascending
order, each as a header and a line for every option. The two loaders trim, lower and order
differently, but for such a document they end in settings that are alike.

* `iniText` — tables as an INI text.
* `Portable` — documents that INI can express; `Written` — the tables such a text has.
* `ofIni_iniText`, `ofToml_eq_ok` — what the two loaders make of the tables.
* `notations_agree` — the same profile, or the same fault, from both.
-/
import Mathlib.Data.List.Perm.Basic
import StepTone.Proofs.AlikeSettings
import StepTone.Proofs.IniMeaning

namespace StepTone.Settings

open Toml (Value Members)

/-! ## Writing tables as INI -/

/-- Names of tables, each with its options. -/
abbrev Tables := List (String × Options)

/-- The lines of a text: a header for each table, and a line for each of its options. -/
def iniLines (tables : Tables) : List String :=
  tables.flatMap fun (name, options) =>
    ("[" ++ name ++ "]") :: options.map fun (key, text) => key ++ ": " ++ text

/-- The text itself; each line has its end. -/
def iniText (tables : Tables) : String :=
  String.ofList ((iniLines tables).flatMap fun line => line.toList ++ ['\n'])

/-! ## Documents that can be written -/

/-- A text that stands in one line and holds no comment. -/
structure OneLine (text : String) : Prop where
  no_comment : '#' ∉ text.toList
  no_end : '\n' ∉ text.toList

/-- A name that is read as it is written. -/
structure PlainName (name : String) : Prop extends OneLine name where
  lower : Text.lower name = name
  trim : Text.trim name = name
  ne_empty : name ≠ ""

/-- A key that is read as it is written. -/
structure PlainKey (key : String) : Prop extends PlainName key where
  no_colon : ':' ∉ key.toList
  no_equals : '=' ∉ key.toList
  no_bracket : key.toList.head? ≠ some '['

instance (text : String) : Decidable (OneLine text) :=
  decidable_of_iff ('#' ∉ text.toList ∧ '\n' ∉ text.toList)
    ⟨fun h => ⟨h.1, h.2⟩, fun h => ⟨h.no_comment, h.no_end⟩⟩

instance (name : String) : Decidable (PlainName name) :=
  decidable_of_iff (OneLine name ∧ Text.lower name = name ∧ Text.trim name = name ∧ name ≠ "")
    ⟨fun h => ⟨h.1, h.2.1, h.2.2.1, h.2.2.2⟩, fun h => ⟨h.toOneLine, h.lower, h.trim, h.ne_empty⟩⟩

instance (key : String) : Decidable (PlainKey key) :=
  decidable_of_iff (PlainName key ∧ ':' ∉ key.toList ∧ '=' ∉ key.toList ∧
      key.toList.head? ≠ some '[')
    ⟨fun h => ⟨h.1, h.2.1, h.2.2.1, h.2.2.2⟩,
      fun h => ⟨h.toPlainName, h.no_colon, h.no_equals, h.no_bracket⟩⟩

/-- A document of tables whose names, keys and texts can stand in an INI text. -/
structure Portable (root : Members) : Prop where
  names_nodup : (root.map Prod.fst).Nodup
  names : ∀ entry ∈ root, PlainName entry.1
  tables : ∀ entry ∈ root, ∃ members, entry.2 = .table members ∧ (members.map Prod.fst).Nodup ∧
    ∀ member ∈ members, PlainKey member.1 ∧
      ∃ text, optionText member.2 = .ok text ∧ OneLine text

/-- The option is the member, with its value as a text. -/
def IsText (member : String × Value) (option : String × String) : Prop :=
  option.1 = member.1 ∧ optionText member.2 = .ok option.2

/-- The table is the entry of a document, with the values of its members as texts. -/
def IsTable (entry : String × Value) (table : String × Options) : Prop :=
  table.1 = entry.1 ∧ ∃ members, entry.2 = .table members ∧ List.Forall₂ IsText members table.2

/-- The same table, with its options in any order. -/
def Reordered (table table' : String × Options) : Prop :=
  table.1 = table'.1 ∧ table.2.Perm table'.2

/-- The tables of a document in ascending order of their names, each with its options in
any order. -/
structure Written (root : Members) (tables : Tables) : Prop where
  ascending : (tables.map Prod.fst).Pairwise (· < ·)
  texts : ∃ order tables', order.Perm root ∧ List.Forall₂ IsTable order tables' ∧
    List.Forall₂ Reordered tables tables'

/-! ## Lines -/

theorem content_of_no_comment {line : List Char} (h : '#' ∉ line) :
    content line = Text.trimChars line := by
  rw [content, List.takeWhile_eq_self_iff.mpr]
  intro c hc
  simpa using ne_of_mem_of_not_mem hc h

theorem says_header {name : String} (h : PlainName name) :
    Says ("[" ++ name ++ "]").toList (.header name) := by
  refine ⟨name.toList, ?_, ?_, h.ne_empty⟩
  · have hline : ("[" ++ name ++ "]").toList = '[' :: (name.toList ++ ']' :: []) := by
      simp [String.toList_append]
    have hcomment : '#' ∉ '[' :: (name.toList ++ ']' :: []) := by
      simpa using h.no_comment
    rw [hline, content_of_no_comment hcomment, Text.trimChars_cons (by decide),
      Text.trimEnd_append_cons (by decide)]
    rfl
  · rw [String.ofList_toList, h.trim, h.lower]

theorem PlainName.trimChars_eq {name : String} (h : PlainName name) :
    Text.trimChars name.toList = name.toList := by
  have htrim := congrArg String.toList h.trim
  rwa [Text.trim, String.toList_ofList] at htrim

theorem says_option {key text : String} (hkey : PlainKey key) (htext : OneLine text) :
    Says (key ++ ": " ++ text).toList (.option key (Text.trim text)) := by
  cases hchars : key.toList with
  | nil => exact absurd (String.toList_eq_nil_iff.mp hchars) hkey.ne_empty
  | cons c rest =>
    have hblank : Text.isBlank c = false :=
      Text.isBlank_of_trimChars_eq_self (hchars ▸ hkey.trimChars_eq)
    have hline : (key ++ ": " ++ text).toList = c :: (rest ++ ':' :: ' ' :: text.toList) := by
      simp [String.toList_append, hchars]
    have hcomment : '#' ∉ (key ++ ": " ++ text).toList := by
      simpa [String.toList_append] using ⟨hkey.no_comment, htext.no_comment⟩
    have hsign : ∀ c ∈ key.toList, c ≠ ':' ∧ c ≠ '=' := fun c hc =>
      ⟨ne_of_mem_of_not_mem hc hkey.no_colon, ne_of_mem_of_not_mem hc hkey.no_equals⟩
    refine ⟨key.toList, ':', Text.trimEnd (' ' :: text.toList), ?_, .inl rfl, hsign,
      by simp [hchars], hkey.no_bracket, by rw [String.ofList_toList, hkey.trim], ?_⟩
    · rw [content_of_no_comment hcomment, hline, Text.trimChars_cons hblank,
        Text.trimEnd_append_cons (by decide), hchars, List.cons_append]
    · rw [Text.trim_ofList, Text.trimChars_trimEnd, Text.trimChars_cons_blank (by decide),
        Text.trim]

/-- What the lines of a text say. -/
def saidBy (tables : Tables) : List Line :=
  tables.flatMap fun (name, options) =>
    .header name :: options.trimmed.map fun (key, text) => .option key text

/-- Tables whose names, keys and texts are read as they are written. -/
structure Readable (tables : Tables) : Prop where
  names : ∀ table ∈ tables, PlainName table.1
  keys_nodup : ∀ table ∈ tables, table.2.keys.Nodup
  options : ∀ table ∈ tables, ∀ option ∈ table.2, PlainKey option.1 ∧ OneLine option.2

theorem Readable.of_cons {table : String × Options} {tables : Tables}
    (h : Readable (table :: tables)) : Readable tables where
  names := fun t ht => h.names t (List.mem_cons_of_mem _ ht)
  keys_nodup := fun t ht => h.keys_nodup t (List.mem_cons_of_mem _ ht)
  options := fun t ht => h.options t (List.mem_cons_of_mem _ ht)

theorem says_iniLines {tables : Tables} (h : Readable tables) :
    List.Forall₂ Says ((iniLines tables).map String.toList) (saidBy tables) := by
  induction tables with
  | nil => exact .nil
  | cons table rest ih =>
    obtain ⟨name, options⟩ := table
    simp only [iniLines, saidBy, List.flatMap_cons, List.map_append, List.map_cons]
    refine List.rel_append (.cons (says_header (h.names _ List.mem_cons_self)) ?_) (ih h.of_cons)
    simp only [Options.trimmed, List.map_map, List.forall₂_map_left_iff,
      List.forall₂_map_right_iff, List.forall₂_same]
    intro option hoption
    obtain ⟨hkey, htext⟩ := h.options _ List.mem_cons_self option hoption
    exact says_option hkey htext

theorem linesFrom_ended {lines : List String} (h : ∀ line ∈ lines, '\n' ∉ line.toList) :
    linesFrom [] (lines.flatMap fun line => line.toList ++ ['\n']) = lines.map String.toList := by
  induction lines with
  | nil => rfl
  | cons line rest ih =>
    obtain ⟨hline, hrest⟩ := List.forall_mem_cons.mp h
    rw [List.flatMap_cons, List.append_assoc, List.singleton_append, linesFrom_line hline,
      ih hrest, List.map_cons]

theorem linesFrom_iniText {tables : Tables} (h : Readable tables) :
    linesFrom [] (iniText tables).toList = (iniLines tables).map String.toList := by
  rw [iniText, String.toList_ofList]
  refine linesFrom_ended fun line hline => ?_
  simp only [iniLines, List.mem_flatMap, List.mem_cons, List.mem_map] at hline
  obtain ⟨table, htable, rfl | ⟨option, hoption, rfl⟩⟩ := hline
  · simpa [String.toList_append] using (h.names table htable).no_end
  · obtain ⟨hkey, htext⟩ := h.options table htable option hoption
    simpa [String.toList_append] using ⟨hkey.no_end, htext.no_end⟩

/-! ## The two loaders -/

/-- In a block, lines of any kind are taken as what they say. -/
theorem takeLines_of_says {raws : List (List Char)} {lines : List Line}
    (h : List.Forall₂ Says raws lines) (hshort : ∀ raw ∈ raws, byteLength raw < lineLimit)
    {d : Draft} (hd : d.block.isSome = true) (number : Nat) :
    takeLines d number raws = .ok (lines.foldl Draft.take d).close := by
  induction h generalizing d number with
  | nil => rfl
  | @cons raw line raws lines hsaid _ ih =>
    obtain ⟨hraw, hraws⟩ := List.forall_mem_cons.mp hshort
    have hline : readLine d.block.isSome raw = .ok line :=
      readLine_eq_ok_iff.mpr ⟨hsaid, by simp [hd]⟩
    have hopen : (d.take line).block.isSome = true := by
      cases line with
      | blank => exact hd
      | header name => rfl
      | option key value => simpa [Draft.take] using hd
    rw [takeLines, if_neg (Nat.not_le_of_lt hraw), hline]
    exact ih hraws hopen (number + 1)

theorem ofIni_eq_draft {tables : Tables} (h : Readable tables)
    (hshort : ∀ line ∈ iniLines tables, byteLength line.toList < lineLimit) :
    ofIni (iniText tables) = .ok (draft (saidBy tables)).close := by
  have hsaid := says_iniLines h
  have hbytes : ∀ raw ∈ (iniLines tables).map String.toList, byteLength raw < lineLimit := by
    simpa using hshort
  rw [ofIni, linesFrom_iniText h, draft]
  cases tables with
  | nil => rfl
  | cons table rest =>
    -- the first line is a header, so all others stand in a block
    simp only [iniLines, saidBy, List.flatMap_cons, List.cons_append, List.map_cons]
      at hsaid hbytes ⊢
    obtain ⟨hshort, hbytes⟩ := List.forall_mem_cons.mp hbytes
    cases hsaid with
    | cons hheader hrest =>
      rw [takeLines, if_neg (Nat.not_le_of_lt hshort),
        readLine_eq_ok_iff.mpr ⟨hheader, by simp⟩]
      exact takeLines_of_says hrest hbytes rfl 2

/-- The lines of a table put its options into the open block. -/
theorem foldl_take_options {s : Settings} {name : String} (block : Options) {o : Options}
    (h : (block ++ o).keys.Nodup) :
    (o.map fun (key, text) => Line.option key text).foldl Draft.take
      { settings := s, block := some (name, block) } =
    { settings := s, block := some (name, block ++ o) } := by
  induction o generalizing block with
  | nil => simp
  | cons p rest ih =>
    obtain ⟨key, text⟩ := p
    have hkey : key ∉ block.keys := by
      intro hmem
      rw [Options.keys_append] at h
      exact List.disjoint_of_nodup_append h hmem List.mem_cons_self
    rw [List.map_cons, List.foldl_cons]
    simp only [Draft.take, Option.map_some, Options.put_of_not_mem hkey]
    rw [ih _ (by simpa using h), List.append_assoc, List.singleton_append]

/-- The settings with tables added one after the other. -/
def addAll (s : Settings) (tables : Tables) : Settings :=
  tables.foldl (fun s (name, options) => s.add name options) s

theorem close_saidBy {tables : Tables} (h : ∀ table ∈ tables, table.2.keys.Nodup) (d : Draft) :
    ((saidBy tables).foldl Draft.take d).close =
      d.close.addAll (tables.map fun (name, options) => (name, options.trimmed)) := by
  induction tables generalizing d with
  | nil => rfl
  | cons table rest ih =>
    obtain ⟨name, options⟩ := table
    obtain ⟨hkeys, hrest⟩ := List.forall_mem_cons.mp h
    simp only [saidBy, List.flatMap_cons, List.foldl_append, List.foldl_cons, Draft.take]
    rw [foldl_take_options [] (by simpa using hkeys)]
    exact ih hrest _

/-- A table with a new name becomes a section as it is. -/
theorem add_of_not_mem {s : Settings} {name : String} {o : Options} (hname : name ∉ s.names)
    (hkeys : o.keys.Nodup) (hlower : ∀ key ∈ o.keys, Text.lower key = key) :
    s.add name o = { s with sections := s.sections ++ [{ name, options := o }] } := by
  have hlowered : o.lowered = o := by
    have hmap : o.map (fun p => (Text.lower p.1, p.2)) = o.map id :=
      List.map_congr_left fun p hp => by rw [hlower p.1 (List.mem_map.mpr ⟨p, hp, rfl⟩)]; rfl
    exact hmap.trans o.map_id
  have hmerge : Options.merge [] o = o := by
    rw [Options.merge_eq_append (by simpa [hlowered] using hkeys), hlowered, List.nil_append]
  rw [add, if_neg (mt isSome_section?_iff.mp hname), Section.merge, hmerge]

/-- A section for each table. -/
def ofTables (tables : Tables) : Settings where
  sections := tables.map fun (name, options) => { name, options }

theorem addAll_eq_ofTables {tables : Tables} (hnames : (tables.map Prod.fst).Nodup)
    (hkeys : ∀ table ∈ tables, table.2.keys.Nodup ∧ ∀ key ∈ table.2.keys, Text.lower key = key) :
    addAll {} tables = ofTables tables := by
  induction tables using List.reverseRecOn with
  | nil => rfl
  | append_singleton tables table ih =>
    obtain ⟨name, options⟩ := table
    obtain ⟨hkeys, hlast⟩ := List.forall_mem_append.mp hkeys
    obtain ⟨hoptions, hlower⟩ := hlast _ List.mem_cons_self
    rw [List.map_append] at hnames
    have hname : name ∉ (ofTables tables).names := by
      intro hmem
      refine List.disjoint_of_nodup_append hnames ?_ List.mem_cons_self
      simpa [ofTables, names, Function.comp_def] using hmem
    have hstep : addAll {} (tables ++ [(name, options)]) = (addAll {} tables).add name options := by
      simp [addAll]
    rw [hstep, ih hnames.of_append_left hkeys, add_of_not_mem hname hoptions hlower]
    simp [ofTables]

theorem map_eq_ok_iff {ε α β : Type} {e : Except ε α} {f : α → β} {b : β} :
    e.map f = .ok b ↔ ∃ a, e = .ok a ∧ f a = b := by
  cases e with
  | ok a => simp [Except.map]
  | error err => simp [Except.map]

theorem tableOptions_eq_ok_iff {table : String} {members : Members} {o : Options} :
    tableOptions table members = .ok o ↔ List.Forall₂ IsText members o := by
  induction members generalizing o with
  | nil => simp [tableOptions, eq_comm]
  | cons member rest ih =>
    obtain ⟨key, value⟩ := member
    cases hvalue : optionText value with
    | error bad => simp [tableOptions, List.forall₂_cons_left_iff, IsText, hvalue]
    | ok text =>
      simp only [tableOptions, hvalue, map_eq_ok_iff, ih]
      constructor
      · rintro ⟨more, hmore, rfl⟩
        exact .cons ⟨rfl, hvalue⟩ hmore
      · rintro (_ | ⟨⟨hkey, htext⟩, hmore⟩)
        obtain rfl := hkey
        obtain rfl := Except.ok.inj (hvalue.symm.trans htext)
        exact ⟨_, hmore, rfl⟩

theorem addTables_eq_ok {s : Settings} {order : Members} {tables : Tables}
    (hlower : ∀ entry ∈ order, Text.lower entry.1 = entry.1)
    (h : List.Forall₂ IsTable order tables) : s.addTables order = .ok (s.addAll tables) := by
  induction h generalizing s with
  | nil => rfl
  | @cons entry table order tables hentry _ ih =>
    obtain ⟨name, value⟩ := entry
    obtain ⟨tableName, options⟩ := table
    obtain ⟨rfl, members, rfl, htexts⟩ := hentry
    obtain ⟨hname, hrest⟩ := List.forall_mem_cons.mp hlower
    rw [addTables, tableOptions_eq_ok_iff.mpr htexts]
    simp only [hname]
    exact ih hrest

/-! ## Written tables -/

section

variable {α β : Type} {R : α → β → Prop}

theorem exists_forall₂ {l : List α} (h : ∀ a ∈ l, ∃ b, R a b) : ∃ l', List.Forall₂ R l l' := by
  induction l with
  | nil => exact ⟨[], .nil⟩
  | cons a rest ih =>
    obtain ⟨⟨b, hb⟩, hrest⟩ := List.forall_mem_cons.mp h
    obtain ⟨more, hmore⟩ := ih hrest
    exact ⟨b :: more, .cons hb hmore⟩

theorem exists_of_mem_forall₂ {l : List α} {l' : List β} (h : List.Forall₂ R l l') {b : β}
    (hb : b ∈ l') : ∃ a ∈ l, R a b := by
  induction h with
  | nil => simp at hb
  | @cons a b' _ _ hab _ ih =>
    rcases List.mem_cons.mp hb with rfl | hb
    · exact ⟨a, List.mem_cons_self, hab⟩
    · obtain ⟨a', ha', hab'⟩ := ih hb
      exact ⟨a', List.mem_cons_of_mem _ ha', hab'⟩

end

theorem map_fst_of_forall₂ {β γ : Type} {R : String × β → String × γ → Prop}
    (hR : ∀ a b, R a b → b.1 = a.1) {l : List (String × β)} {l' : List (String × γ)}
    (h : List.Forall₂ R l l') : l'.map Prod.fst = l.map Prod.fst := by
  induction h with
  | nil => rfl
  | cons hab _ ih => rw [List.map_cons, List.map_cons, hR _ _ hab, ih]

variable {root : Members} {tables : Tables}

/-- The tables of a document that can be written are read as they are written. -/
theorem readable_of_isTable {order : Members} (hroot : Portable root) (hperm : order.Perm root)
    (h : List.Forall₂ IsTable order tables) : Readable tables := by
  have hentry {table : String × Options} (htable : table ∈ tables) :
      PlainName table.1 ∧ table.2.keys.Nodup ∧
        ∀ option ∈ table.2, PlainKey option.1 ∧ OneLine option.2 := by
    obtain ⟨entry, hentry, hname, members, hmembers, htexts⟩ := exists_of_mem_forall₂ h htable
    replace hentry := hperm.mem_iff.mp hentry
    obtain ⟨members', hmembers', hnodup, hplain⟩ := hroot.tables entry hentry
    obtain rfl := Value.table.inj (hmembers.symm.trans hmembers')
    refine ⟨hname ▸ hroot.names entry hentry, ?_, fun option hoption => ?_⟩
    · rwa [Options.keys, map_fst_of_forall₂ (fun _ _ h => h.1) htexts]
    · obtain ⟨member, hmember, hkey, htext⟩ := exists_of_mem_forall₂ htexts hoption
      obtain ⟨hplainKey, text, htext', hline⟩ := hplain member hmember
      obtain rfl := Except.ok.inj (htext.symm.trans htext')
      exact ⟨hkey ▸ hplainKey, hline⟩
  exact ⟨fun _ ht => (hentry ht).1, fun _ ht => (hentry ht).2.1, fun _ ht => (hentry ht).2.2⟩

theorem Readable.of_reordered {tables' : Tables} (h : Readable tables')
    (hsame : List.Forall₂ Reordered tables tables') : Readable tables := by
  have hother {table : String × Options} (htable : table ∈ tables) :
      ∃ table' ∈ tables', Reordered table table' :=
    exists_of_mem_forall₂ hsame.flip htable
  refine ⟨fun table htable => ?_, fun table htable => ?_, fun table htable option hoption => ?_⟩
  · obtain ⟨table', htable', hname, -⟩ := hother htable
    exact hname ▸ h.names table' htable'
  · obtain ⟨table', htable', -, hperm⟩ := hother htable
    exact (hperm.map Prod.fst).nodup_iff.mpr (h.keys_nodup table' htable')
  · obtain ⟨table', htable', -, hperm⟩ := hother htable
    exact h.options table' htable' option (hperm.mem_iff.mp hoption)

theorem Readable.lower_keys (h : Readable tables) {table : String × Options}
    (htable : table ∈ tables) : ∀ key ∈ table.2.keys, Text.lower key = key := by
  intro key hkey
  obtain ⟨option, hoption, rfl⟩ := List.mem_map.mp hkey
  exact (h.options table htable option hoption).1.lower

/-- The settings of a written text. -/
theorem ofIni_iniText (h : Readable tables) (hnames : (tables.map Prod.fst).Nodup)
    (hshort : ∀ line ∈ iniLines tables, byteLength line.toList < lineLimit) :
    ofIni (iniText tables) =
      .ok (ofTables (tables.map fun (name, options) => (name, options.trimmed))) := by
  rw [ofIni_eq_draft h hshort, draft, close_saidBy h.keys_nodup]
  refine congrArg Except.ok (addAll_eq_ofTables ?_ ?_)
  · simpa [Function.comp_def] using hnames
  · rw [List.forall_mem_map]
    intro table htable
    rw [Options.keys_trimmed]
    exact ⟨h.keys_nodup table htable, h.lower_keys htable⟩

/-- The settings of a document, from its tables in ascending order. -/
theorem ofToml_eq_ok {order : Members} (hroot : Portable root) (hperm : order.Perm root)
    (hascending : (tables.map Prod.fst).Pairwise (· < ·))
    (h : List.Forall₂ IsTable order tables) : ofToml root = .ok (ofTables tables) := by
  have hreadable := readable_of_isTable hroot hperm h
  have hnames := map_fst_of_forall₂ (fun _ _ h => h.1) h
  have hlower : ∀ entry ∈ order, Text.lower entry.1 = entry.1 :=
    fun entry hentry => (hroot.names entry (hperm.mem_iff.mp hentry)).lower
  rw [ofToml, mergeSort_eq_of_ascending hroot.names_nodup hperm (hnames ▸ hascending),
    addTables_eq_ok hlower h, addAll_eq_ofTables (hascending.imp ne_of_lt)]
  exact fun table htable => ⟨hreadable.keys_nodup table htable, hreadable.lower_keys htable⟩

theorem exists_written (h : Portable root) : ∃ tables, Written root tables := by
  have hsorted := List.mergeSort_perm root fun a b => decide (a.1 ≤ b.1)
  obtain ⟨tables, htables⟩ : ∃ tables, List.Forall₂ IsTable
      (root.mergeSort fun a b => decide (a.1 ≤ b.1)) tables := by
    refine exists_forall₂ fun entry hentry => ?_
    obtain ⟨members, hmembers, -, hplain⟩ := h.tables entry (hsorted.mem_iff.mp hentry)
    obtain ⟨options, hoptions⟩ : ∃ options, List.Forall₂ IsText members options := by
      refine exists_forall₂ fun member hmember => ?_
      obtain ⟨-, text, htext, -⟩ := hplain member hmember
      exact ⟨(member.1, text), rfl, htext⟩
    exact ⟨(entry.1, options), rfl, members, hmembers, hoptions⟩
  refine ⟨tables, ?_, _, tables, hsorted, htables, List.forall₂_same.mpr fun _ _ => ⟨rfl, .rfl⟩⟩
  rw [map_fst_of_forall₂ (fun _ _ h => h.1) htables]
  exact ascending_mergeSort h.names_nodup

theorem alike_of_reordered {tables' : Tables} (h : Readable tables)
    (hsame : List.Forall₂ Reordered tables tables') :
    (ofTables (tables.map fun (name, options) => (name, options.trimmed))).Alike
      (ofTables tables') := by
  refine ⟨rfl, ?_⟩
  simp only [ofTables, List.map_map, List.forall₂_map_left_iff, List.forall₂_map_right_iff]
  refine ((List.forall₂_and_left _ _).mpr ⟨h.keys_nodup, hsame⟩).imp ?_
  rintro table table' ⟨hnodup, hname, hperm⟩
  have htrimmed : table.2.trimmed.trimmed = table.2.trimmed := by
    simp [Options.trimmed, Function.comp_def]
  exact ⟨hname, rfl, by simpa using hnodup, htrimmed ▸ hperm.map _⟩

/-- A document that INI can express can be written as INI, and each of its texts gives
the same profile as the document, or the same fault. -/
theorem notations_agree (h : Portable root) :
    (∃ tables, Written root tables) ∧
    ∀ tables, Written root tables →
      (∀ line ∈ iniLines tables, byteLength line.toList < lineLimit) →
      ∃ s t, ofIni (iniText tables) = .ok s ∧ ofToml root = .ok t ∧
        (Profile.ofSettings.run s).1 = (Profile.ofSettings.run t).1 := by
  refine ⟨exists_written h, fun tables hwritten hshort => ?_⟩
  obtain ⟨hascending, order, tables', hperm, htables, hsame⟩ := hwritten
  have hreadable := (readable_of_isTable h hperm htables).of_reordered hsame
  have hnames : tables'.map Prod.fst = tables.map Prod.fst :=
    map_fst_of_forall₂ (fun _ _ h => h.1.symm) hsame
  exact ⟨_, _, ofIni_iniText hreadable (hascending.imp ne_of_lt) hshort,
    ofToml_eq_ok h hperm (hnames ▸ hascending) htables,
    (uniform_ofSettings _ _ (alike_of_reordered hreadable hsame)).1⟩

/-- A document of two tables, not in order. -/
def wideCsv : Members :=
  [("table", .table [("register_bits", .integer 16)]),
    ("output", .table [("summary", .boolean false), ("format", .string " CSV ")])]

/-- The tables in order, with the options of the first one in another order. -/
def wideCsvTables : Tables :=
  [("output", [("format", " CSV "), ("summary", "false")]), ("table", [("register_bits", "16")])]

theorem portable_wideCsv : Portable wideCsv where
  names_nodup := by decide
  names := by
    have hnames : ∀ name ∈ wideCsv.map Prod.fst, PlainName name := by decide
    exact fun entry hentry => hnames entry.1 (List.mem_map_of_mem hentry)
  tables := by
    refine List.forall_mem_cons.mpr ⟨⟨_, rfl, by decide, ?_⟩,
      List.forall_mem_cons.mpr ⟨⟨_, rfl, by decide, ?_⟩, by simp⟩⟩
    · exact List.forall_mem_cons.mpr ⟨⟨by decide, "16", rfl, by decide⟩, by simp⟩
    · exact List.forall_mem_cons.mpr ⟨⟨by decide, "false", rfl, by decide⟩,
        List.forall_mem_cons.mpr ⟨⟨by decide, " CSV ", rfl, by decide⟩, by simp⟩⟩

theorem written_wideCsv : Written wideCsv wideCsvTables where
  ascending := by decide
  texts := by
    refine ⟨wideCsv.reverse, [("output", [("summary", "false"), ("format", " CSV ")]),
      ("table", [("register_bits", "16")])], List.reverse_perm _, ?_, ?_⟩
    · exact .cons ⟨rfl, _, rfl, .cons ⟨rfl, rfl⟩ (.cons ⟨rfl, rfl⟩ .nil)⟩
        (.cons ⟨rfl, _, rfl, .cons ⟨rfl, rfl⟩ .nil⟩ .nil)
    · exact .cons ⟨rfl, .swap _ _ _⟩ (.cons ⟨rfl, .refl _⟩ .nil)

theorem wideCsv_agrees : Portable wideCsv ∧ Written wideCsv wideCsvTables ∧
    iniText wideCsvTables =
      "[output]\nformat:  CSV \nsummary: false\n[table]\nregister_bits: 16\n" ∧
    ∃ s t, ofIni (iniText wideCsvTables) = .ok s ∧ ofToml wideCsv = .ok t ∧
      (Profile.ofSettings.run s).1 = (Profile.ofSettings.run t).1 :=
  ⟨portable_wideCsv, written_wideCsv, by decide,
    (notations_agree portable_wideCsv).2 wideCsvTables written_wideCsv (by decide)⟩

end StepTone.Settings
