/-
StepTone.Proofs.RecordFields — the fields of a record are the last values written.

An entry is made by a chain of calls, each of which writes values under names. What a record
shows of them is settled by the last value of each name: the order of the calls is not seen,
nor how the values were spread over them. And an entry is not touched by what is derived
from it later.

* `Fields.write`, `get?_write` — fields after values were written one after the other.
* `Link`, `chain`, `lastWritten` — a chain of calls, and the last values that it writes.
* `Shows`, `shows_chain` — the last values in ascending order, each name once.
* `exists_textLine_eq`, `exists_document_eq` — where the fields stand in a line.
* `Session`, `Session.linesOf` — entries that are derived while others are written.
* `records_follow_last_writes` — the records of all chains, in both layouts.
-/
import Mathlib
import StepTone.Journal.Family
import StepTone.Proofs.JsonReading
import StepTone.Proofs.NamedValues

namespace StepTone.Journal

/-! ## Fields that are written one after the other -/

namespace Fields

/-- The names that have a value. -/
def names (f : Fields) : List String :=
  f.bindings.map Prod.fst

/-- The fields after values were written under names, one after the other. -/
def write (f : Fields) (writes : List (String × Datum)) : Fields :=
  writes.foldl (fun f w => f.set w.1 w.2) f

theorem write_append (f : Fields) (writes more : List (String × Datum)) :
    f.write (writes ++ more) = (f.write writes).write more :=
  List.foldl_append

theorem get?_set (f : Fields) (key : String) (value : Datum) (k : String) :
    (f.set key value).get? k = if k = key then some value else f.get? k := by
  rw [get?, set, List.lookup_append]
  by_cases hk : k = key
  · subst hk
    have hnone : (f.bindings.filter (·.1 ≠ k)).lookup k = none := by
      rw [List.lookup_eq_none_iff]
      intro p hp
      have hp : p.1 ≠ k := by simpa using (List.mem_filter.mp hp).2
      simpa using hp.symm
    rw [hnone, if_pos rfl]
    simp
  · rw [lookup_filter_ne hk, if_neg hk, List.lookup_cons, beq_false_of_ne hk]
    exact Option.or_none

theorem nodup_set {f : Fields} (h : f.names.Nodup) (key : String) (value : Datum) :
    (f.set key value).names.Nodup := by
  have hnames : (f.set key value).names = f.names.filter (· ≠ key) ++ [key] := by
    rw [names, set, names, List.map_append, List.filter_map]
    rfl
  rw [hnames, List.nodup_append]
  refine ⟨h.filter _, List.nodup_singleton key, ?_⟩
  intro a ha b hb
  rw [List.mem_singleton.mp hb]
  simpa using (List.mem_filter.mp ha).2

/-- The last value that is written under a name counts, and else the one from before. -/
theorem get?_write (f : Fields) (writes : List (String × Datum)) (k : String) :
    (f.write writes).get? k = (writes.reverse.lookup k).or (f.get? k) := by
  induction writes generalizing f with
  | nil => rfl
  | cons w rest ih =>
    obtain ⟨key, value⟩ := w
    have hlast : [(key, value)].lookup k = if k = key then some value else none := by
      by_cases hk : k = key
      · simp [hk]
      · simp [List.lookup_cons, beq_false_of_ne hk, hk]
    have hset : (f.set key value).get? k = ([(key, value)].lookup k).or (f.get? k) := by
      rw [get?_set, hlast]
      by_cases hk : k = key
      · simp [hk]
      · simp [hk]
    calc (f.write ((key, value) :: rest)).get? k
        = ((f.set key value).write rest).get? k := rfl
      _ = (rest.reverse.lookup k).or (([(key, value)].lookup k).or (f.get? k)) := by
        rw [ih, hset]
      _ = (((key, value) :: rest).reverse.lookup k).or (f.get? k) := by
        rw [List.reverse_cons, List.lookup_append, Option.or_assoc]

theorem nodup_write {f : Fields} (h : f.names.Nodup) (writes : List (String × Datum)) :
    (f.write writes).names.Nodup := by
  induction writes generalizing f with
  | nil => exact h
  | cons w rest ih => exact ih (nodup_set h w.1 w.2)

/-! ### As a record shows them -/

theorem sorted_perm (f : Fields) : f.sorted.Perm f.bindings :=
  List.mergeSort_perm _ _

theorem isEmpty_sorted (f : Fields) : f.sorted.isEmpty = f.isEmpty := by
  rw [isEmpty, Bool.eq_iff_iff, List.isEmpty_iff, List.isEmpty_iff]
  exact ⟨fun h => (h ▸ f.sorted_perm).nil_eq.symm, fun h => (h ▸ f.sorted_perm).eq_nil⟩

theorem mem_sorted_iff {f : Fields} (h : f.names.Nodup) {key : String} {value : Datum} :
    (key, value) ∈ f.sorted ↔ f.get? key = some value :=
  f.sorted_perm.mem_iff.trans (lookup_eq_some_iff h).symm

theorem sorted_eq_of_get? {f g : Fields} (hf : f.names.Nodup) (hg : g.names.Nodup)
    (h : ∀ key, f.get? key = g.get? key) : f.sorted = g.sorted :=
  mergeSort_eq_of_perm hf (perm_of_lookup hf hg h)

end Fields

/-! ## Chains of calls -/

/-- One call of a chain that makes an entry. -/
inductive Link where
  | field (key : String) (value : Datum)
  | fields (more : Fields)
  | error (text : String)

/-- The entry after one more call. -/
def Link.apply (e : Entry) : Link → Entry
  | .field key value => e.withField key value
  | .fields more => e.withFields more
  | .error text => e.withError text

/-- The values that a call writes, in the order that it writes them. -/
def Link.writes : Link → List (String × Datum)
  | .field key value => [(key, value)]
  | .fields more => more.bindings
  | .error text => [("error", .text text)]

/-- The entry that a chain of calls on a logger ends in. -/
def chain (logger : String) (links : List Link) : Entry :=
  links.foldl Link.apply { logger }

/-- The last value that a chain writes under a name. -/
def lastWritten (key : String) (links : List Link) : Option Datum :=
  (links.flatMap Link.writes).reverse.lookup key

/-- What is said through an entry. -/
def Entry.record (e : Entry) (level : Level) (message : String) : Record :=
  { level, message, fields := e.fields }

theorem Link.fields_apply (e : Entry) (link : Link) :
    (link.apply e).fields = e.fields.write link.writes := by
  cases link with
  | field key value => rfl
  | fields more => rfl
  | error text => rfl

theorem fields_foldl_apply (e : Entry) (links : List Link) :
    (links.foldl Link.apply e).fields = e.fields.write (links.flatMap Link.writes) := by
  induction links generalizing e with
  | nil => rfl
  | cons link rest ih =>
    rw [List.foldl_cons, ih, Link.fields_apply, List.flatMap_cons, Fields.write_append]

section

variable (logger : String) (links : List Link)

theorem nodup_chain : (chain logger links).fields.names.Nodup := by
  have hnone : ({} : Fields).names.Nodup := List.nodup_nil
  rw [chain, fields_foldl_apply]
  exact Fields.nodup_write hnone _

/-- An entry holds the last values of its chain, and nothing else. -/
theorem get?_chain (key : String) :
    (chain logger links).fields.get? key = lastWritten key links := by
  rw [chain, fields_foldl_apply, Fields.get?_write]
  exact Option.or_none

end

/-- The last values that a chain writes, in ascending order of their names, each name once. -/
structure Shows (links : List Link) (shown : List (String × Datum)) : Prop where
  ascending : (shown.map Prod.fst).Pairwise (· < ·)
  last : ∀ key value, (key, value) ∈ shown ↔ lastWritten key links = some value

theorem shows_chain (logger : String) (links : List Link) :
    Shows links (chain logger links).fields.sorted := by
  have hnodup := nodup_chain logger links
  refine ⟨ascending_mergeSort hnodup, fun key value => ?_⟩
  rw [Fields.mem_sorted_iff hnodup, get?_chain]

/-- Chains with the same last values are shown alike. -/
theorem sorted_chain_congr (logger : String) {a b : List Link}
    (h : ∀ key, lastWritten key a = lastWritten key b) :
    (chain logger a).fields.sorted = (chain logger b).fields.sorted := by
  refine Fields.sorted_eq_of_get? (nodup_chain logger a) (nodup_chain logger b) fun key => ?_
  rw [get?_chain, get?_chain, h]

/-! ## Lines -/

/-- The fields at the end of a text line, as they are shown. -/
def textOf (shown : List (String × Datum)) : String :=
  if shown.isEmpty then ""
  else " \x7b" ++ ", ".intercalate (shown.map fun field => field.1 ++ "=" ++ field.2.display)
    ++ "\x7d"

/-- The fields at the end of a document, as they are shown. -/
def membersOf (shown : List (String × Datum)) : List (String × JsonValue) :=
  if shown.isEmpty then []
  else [("fields", .obj (shown.map fun field => (field.1, jsonOf field.2)))]

section

variable (l : Logger) (stamp : Stamp) (level : Level) (message : String)

/-- A text line without its fields, up to its end. -/
theorem exists_textLine_eq : ∃ front, ∀ f : Fields,
    l.textLine stamp { level, message, fields := f } = front ++ textOf f.sorted ++ "\n" := by
  have htext (f : Fields) : Logger.fieldsText f = textOf f.sorted := by
    rw [Logger.fieldsText, textOf, Fields.isEmpty_sorted]
  simp only [Logger.textLine, htext]
  exact ⟨_, fun _ => rfl⟩

theorem firstUndefinedMember?_nonempty (key text : String) :
    JsonValue.firstUndefinedMember? (Logger.nonempty key text) = none := by
  rw [Logger.nonempty]
  split
  · rfl
  · rfl

theorem firstUndefinedMember?_append (members more : List (String × JsonValue)) :
    JsonValue.firstUndefinedMember? (members ++ more) =
      (JsonValue.firstUndefinedMember? members).or (JsonValue.firstUndefinedMember? more) := by
  induction members with
  | nil => rfl
  | cons member rest ih =>
    obtain ⟨key, v⟩ := member
    rw [List.cons_append, JsonValue.firstUndefinedMember?, JsonValue.firstUndefinedMember?, ih,
      Option.or_assoc]

/-- A document without its fields, in which there is no number at all. -/
theorem exists_document_eq : ∃ front, JsonValue.firstUndefinedMember? front = none ∧
    ∀ f : Fields, l.document stamp { level, message, fields := f } =
      .obj (front ++ membersOf f.sorted) := by
  refine ⟨[("timestamp", .str stamp.instant), ("level", .str level.name)]
    ++ Logger.nonempty "logger" l.component ++ [("message", .str message)]
    ++ Logger.nonempty "caller" (l.place stamp), ?_, fun f => ?_⟩
  · simp only [firstUndefinedMember?_append, firstUndefinedMember?_nonempty, Option.or_none]
    rfl
  · rw [membersOf, Fields.isEmpty_sorted]
    rfl

/-- A line is what it is for the fields as they are shown. -/
theorem textLine_congr {f g : Fields} (h : f.sorted = g.sorted) :
    l.textLine stamp { level, message, fields := f } =
      l.textLine stamp { level, message, fields := g } := by
  obtain ⟨front, hfront⟩ := exists_textLine_eq l stamp level message
  rw [hfront, hfront, h]

theorem jsonLine_congr {f g : Fields} (h : f.sorted = g.sorted) :
    l.jsonLine stamp { level, message, fields := f } =
      l.jsonLine stamp { level, message, fields := g } := by
  obtain ⟨front, -, hfront⟩ := exists_document_eq l stamp level message
  rw [Logger.jsonLine, Logger.jsonLine, hfront, hfront, h]

end

/-- A text line shows fields: it is the line of a record without any, with the fields before
its end. -/
def TextShows (plain line : String) (shown : List (String × Datum)) : Prop :=
  ∃ front, plain = front ++ "\n" ∧ line = front ++ textOf shown ++ "\n"

/-- A JSON line shows fields: read as a document, it is that of a record without any, with
the fields as its last member. -/
def JsonShows (plain line : String) (shown : List (String × Datum)) : Prop :=
  ∃ front, JsonText.read plain.toList = some (.obj front) ∧
    JsonText.read line.toList = some (.obj (front ++ JsonText.treeMembers (membersOf shown)))

theorem textShows_textLine (l : Logger) (stamp : Stamp) (level : Level) (message : String)
    (f : Fields) : TextShows (l.textLine stamp { level, message })
      (l.textLine stamp { level, message, fields := f }) f.sorted := by
  obtain ⟨front, hfront⟩ := exists_textLine_eq l stamp level message
  have hnone : textOf ({} : Fields).sorted = "" := by
    rw [textOf, Fields.isEmpty_sorted]
    rfl
  refine ⟨front, ?_, hfront f⟩
  rw [hfront, hnone, String.append_empty]

theorem firstUndefinedMember?_eq_none {members : List (String × JsonValue)}
    (h : ∀ member ∈ members, member.2.firstUndefined? = none) :
    JsonValue.firstUndefinedMember? members = none := by
  induction members with
  | nil => rfl
  | cons member rest ih =>
    obtain ⟨hmember, hrest⟩ := List.forall_mem_cons.mp h
    obtain ⟨key, v⟩ := member
    rw [JsonValue.firstUndefinedMember?, hmember, ih hrest]
    rfl

theorem firstUndefinedMember?_membersOf {shown : List (String × Datum)}
    (h : ∀ field ∈ shown, (jsonOf field.2).firstUndefined? = none) :
    JsonValue.firstUndefinedMember? (membersOf shown) = none := by
  have hfields : JsonValue.firstUndefinedMember?
      (shown.map fun field => (field.1, jsonOf field.2)) = none := by
    refine firstUndefinedMember?_eq_none fun member hmember => ?_
    obtain ⟨field, hfield, rfl⟩ := List.mem_map.mp hmember
    exact h field hfield
  rw [membersOf]
  split
  · rfl
  · rw [JsonValue.firstUndefinedMember?, JsonValue.firstUndefined?, hfields]
    rfl

theorem treeMembers_append (members more : List (String × JsonValue)) :
    JsonText.treeMembers (members ++ more) =
      JsonText.treeMembers members ++ JsonText.treeMembers more := by
  induction members with
  | nil => rfl
  | cons member rest ih =>
    obtain ⟨key, v⟩ := member
    rw [List.cons_append, JsonText.treeMembers, JsonText.treeMembers, ih]
    rfl

/-- A line whose document has a number for everything is read as that document. -/
theorem read_jsonLine {l : Logger} {stamp : Stamp} {r : Record}
    {members : List (String × JsonValue)} (hdocument : l.document stamp r = .obj members)
    (hdefined : JsonValue.firstUndefinedMember? members = none) :
    JsonText.read (l.jsonLine stamp r).toList = some (.obj (JsonText.treeMembers members)) := by
  have hnone : (l.document stamp r).firstUndefined? = none := by
    rw [hdocument, JsonValue.firstUndefined?, hdefined]
  rw [Logger.jsonLine, hnone, JsonText.read_compact, hdocument, JsonText.tree]

theorem jsonShows_jsonLine (l : Logger) (stamp : Stamp) (level : Level) (message : String)
    {f : Fields} (h : ∀ field ∈ f.sorted, (jsonOf field.2).firstUndefined? = none) :
    JsonShows (l.jsonLine stamp { level, message })
      (l.jsonLine stamp { level, message, fields := f }) f.sorted := by
  obtain ⟨front, hdefined, hfront⟩ := exists_document_eq l stamp level message
  have hnone : membersOf ({} : Fields).sorted = [] := by
    rw [membersOf, Fields.isEmpty_sorted]
    rfl
  have hplain := hfront {}
  rw [hnone, List.append_nil] at hplain
  refine ⟨JsonText.treeMembers front, read_jsonLine hplain hdefined, ?_⟩
  rw [← treeMembers_append]
  refine read_jsonLine (hfront f) ?_
  rw [firstUndefinedMember?_append, hdefined, firstUndefinedMember?_membersOf h]
  rfl

/-! ## Entries that are derived while others are written -/

/-- What a program does with loggers and with entries, which are numbered in the order in
which they are made. -/
inductive Move where
  /-- An entry without fields is made. -/
  | start (logger : String)
  /-- A further entry is derived from one that was made. -/
  | extend (entry : Nat) (link : Link)
  /-- Something is done with the loggers themselves. -/
  | act (action : Action)
  /-- An entry is written. -/
  | log (entry : Nat) (stamp : Stamp) (level : Level) (message : String)

namespace Move

/-- The move makes an entry. -/
def derives : Move → Bool
  | .start _ | .extend _ _ => true
  | .act _ | .log _ _ _ _ => false

/-- The entry that the move writes. -/
def entry? : Move → Option Nat
  | .log i _ _ _ => some i
  | .start _ | .extend _ _ | .act _ => none

end Move

/-- The loggers of a family, and the entries that were made. -/
structure Session where
  family : Family
  entries : List Entry := []

namespace Session

/-- The session after a move, and what was written. A move with an entry that was not made
does nothing. -/
def step (s : Session) : Move → Session × List Written
  | .start logger => ({ s with entries := s.entries ++ [{ logger }] }, [])
  | .extend i link => ({ s with entries := s.entries ++ (s.entries[i]?.map link.apply).toList }, [])
  | .act a => ({ s with family := (s.family.step a).1 }, (s.family.step a).2)
  | .log i stamp level message =>
    (s, (s.entries[i]?.elim [] fun e => (s.family.step (e.log stamp level message)).2))

/-- The session after moves. -/
def after (s : Session) (moves : List Move) : Session :=
  moves.foldl (fun s m => (s.step m).1) s

/-- What is written through one entry over a run of moves. -/
def linesOf (i : Nat) (s : Session) : List Move → List Written
  | [] => []
  | m :: rest => (if m.entry? = some i then (s.step m).2 else []) ++ linesOf i (s.step m).1 rest

variable {s t : Session} {i : Nat} {e : Entry}

/-- Entries are added and never changed. -/
theorem exists_entries_step (s : Session) (m : Move) :
    ∃ more, (s.step m).1.entries = s.entries ++ more := by
  cases m with
  | start logger => exact ⟨_, rfl⟩
  | extend j link => exact ⟨_, rfl⟩
  | act a => exact ⟨[], (List.append_nil _).symm⟩
  | log j stamp level message => exact ⟨[], (List.append_nil _).symm⟩

theorem getElem?_step (h : s.entries[i]? = some e) (m : Move) :
    (s.step m).1.entries[i]? = some e := by
  obtain ⟨more, hmore⟩ := exists_entries_step s m
  obtain ⟨hlt, -⟩ := List.getElem?_eq_some_iff.mp h
  rw [hmore, List.getElem?_append_left hlt, h]

theorem getElem?_after (h : s.entries[i]? = some e) (moves : List Move) :
    (s.after moves).entries[i]? = some e := by
  induction moves generalizing s with
  | nil => exact h
  | cons m rest ih => exact ih (getElem?_step h m)

theorem family_step_of_derives {m : Move} (h : m.derives = true) :
    (s.step m).1.family = s.family := by
  cases m with
  | start logger => rfl
  | extend j link => rfl
  | act a => cases h
  | log j stamp level message => cases h

/-- A move that makes no entry does the same with the loggers and with an entry in any two
sessions that agree on these. -/
theorem step_congr {m : Move} (hm : m.derives = false) (hfamily : s.family = t.family)
    (hs : s.entries[i]? = some e) (ht : t.entries[i]? = some e) :
    (s.step m).1.family = (t.step m).1.family ∧
      (m.entry? = some i → (s.step m).2 = (t.step m).2) := by
  cases m with
  | start logger => cases hm
  | extend j link => cases hm
  | act a =>
    refine ⟨?_, nofun⟩
    simp only [step, hfamily]
  | log j stamp level message =>
    refine ⟨hfamily, fun hentry => ?_⟩
    obtain rfl : j = i := Option.some.inj hentry
    simp only [step, hs, ht, hfamily]

/-- What is written through an entry is the same without the moves that make others. -/
theorem linesOf_eq_of_agree (hfamily : s.family = t.family) (hs : s.entries[i]? = some e)
    (ht : t.entries[i]? = some e) (moves : List Move) :
    s.linesOf i moves = t.linesOf i (moves.filter fun m => !m.derives) := by
  induction moves generalizing s t with
  | nil => rfl
  | cons m rest ih =>
    cases hm : m.derives with
    | true =>
      -- only the first session takes this move, and it writes nothing
      have hentry : m.entry? ≠ some i := by
        cases m with
        | start logger => nofun
        | extend j link => nofun
        | act a => cases hm
        | log j stamp level message => cases hm
      rw [List.filter_cons_of_neg (by simp [hm]), linesOf, if_neg hentry, List.nil_append]
      exact ih ((family_step_of_derives hm).trans hfamily) (getElem?_step hs m) ht
    | false =>
      obtain ⟨hfamily', hlines⟩ := step_congr hm hfamily hs ht
      have hrest := ih hfamily' (getElem?_step hs m) (getElem?_step ht m)
      rw [List.filter_cons_of_pos (by simp [hm]), linesOf, linesOf, hrest]
      by_cases hentry : m.entry? = some i
      · rw [if_pos hentry, if_pos hentry, hlines hentry]
      · rw [if_neg hentry, if_neg hentry]

end Session

/-! ## Records -/

/-- Chains of calls on one logger that write the same last values give the same record in
both layouts. The record shows these values, each name once and in ascending order: before
the end of the text line, and as the last member of the JSON document if JSON has a number
for all of them. And whatever is derived while an entry is used, it stays as it was made, and
what is written through it is what would be written if nothing had been derived. -/
theorem records_follow_last_writes :
    (∀ (logger : String) (a b : List Link), (∀ key, lastWritten key a = lastWritten key b) →
      ∀ (l : Logger) (stamp : Stamp) (level : Level) (message : String),
        l.textLine stamp ((chain logger a).record level message) =
          l.textLine stamp ((chain logger b).record level message) ∧
        l.jsonLine stamp ((chain logger a).record level message) =
          l.jsonLine stamp ((chain logger b).record level message)) ∧
    (∀ (logger : String) (links : List Link), ∃ shown, Shows links shown ∧
      ∀ (l : Logger) (stamp : Stamp) (level : Level) (message : String),
        TextShows (l.textLine stamp { level, message })
          (l.textLine stamp ((chain logger links).record level message)) shown ∧
        ((∀ field ∈ shown, (jsonOf field.2).firstUndefined? = none) →
          JsonShows (l.jsonLine stamp { level, message })
            (l.jsonLine stamp ((chain logger links).record level message)) shown)) ∧
    ∀ (s : Session) (i : Nat) (e : Entry) (moves : List Move), s.entries[i]? = some e →
      (s.after moves).entries[i]? = some e ∧
      s.linesOf i moves = s.linesOf i (moves.filter fun m => !m.derives) := by
  refine ⟨?_, ?_, ?_⟩
  · intro logger a b h l stamp level message
    have hsorted := sorted_chain_congr logger h
    exact ⟨textLine_congr l stamp level message hsorted,
      jsonLine_congr l stamp level message hsorted⟩
  · intro logger links
    refine ⟨_, shows_chain logger links, fun l stamp level message => ⟨?_, fun hdefined => ?_⟩⟩
    · exact textShows_textLine l stamp level message _
    · exact jsonShows_jsonLine l stamp level message hdefined
  · intro s i e moves he
    exact ⟨Session.getElem?_after he moves, Session.linesOf_eq_of_agree rfl he he moves⟩

/-! ### Two chains -/

/-- Two fields, and the same two in another order, one of which is written twice. -/
def lettersDown : List Link :=
  [.field "zeta" (.int 1), .field "alpha" (.int 2)]

def lettersUp : List Link :=
  [.fields ⟨[("alpha", .int 9), ("zeta", .int 1)]⟩, .field "alpha" (.int 2)]

theorem lastWritten_lettersDown (key : String) : lastWritten key lettersDown =
    if key = "alpha" then some (.int 2) else if key = "zeta" then some (.int 1) else none := by
  by_cases halpha : key = "alpha"
  · subst halpha
    rfl
  · by_cases hzeta : key = "zeta"
    · subst hzeta
      rfl
    · simp [lastWritten, lettersDown, Link.writes, List.lookup_cons, halpha, hzeta,
        beq_false_of_ne]

theorem lastWritten_lettersUp (key : String) :
    lastWritten key lettersUp = lastWritten key lettersDown := by
  by_cases halpha : key = "alpha"
  · subst halpha
    rfl
  · simp [lastWritten, lettersUp, lettersDown, Link.writes, List.lookup_cons, halpha,
      beq_false_of_ne]

def speller : Logger where
  component := "test"
  sink := { name := "a" }

def evening : Stamp := ⟨"20:00", "evening", "here"⟩

theorem textLine_lettersDown :
    speller.textLine evening ((chain "test" lettersDown).record .info "fields") =
      "20:00 [INFO ] test: fields \x7balpha=2, zeta=1\x7d\n" := by
  have hsorted : (chain "test" lettersDown).fields.sorted =
      [("alpha", .int 2), ("zeta", .int 1)] :=
    mergeSort_eq_of_ascending (by decide) (List.Perm.swap _ _ _) (by decide)
  simp only [Logger.textLine, Logger.fieldsText, Entry.record, hsorted]
  decide +kernel

/-- An entry was made of the first chain. -/
def spelled : Session where
  family := .ofLogger "test" speller
  entries := [chain "test" lettersDown]

/-- Another one is derived from it before it is written, and both are. -/
def respelled : List Move :=
  [.extend 0 (.field "alpha" (.int 7)), .log 0 evening .info "fields", .log 1 evening .info "fields"]

theorem records_of_letters :
    (∀ key, lastWritten key lettersUp = lastWritten key lettersDown) ∧
    speller.textLine evening ((chain "test" lettersUp).record .info "fields") =
      "20:00 [INFO ] test: fields \x7balpha=2, zeta=1\x7d\n" ∧
    speller.jsonLine evening ((chain "test" lettersUp).record .info "fields") =
      speller.jsonLine evening ((chain "test" lettersDown).record .info "fields") ∧
    (∃ shown, Shows lettersDown shown ∧
      JsonShows (speller.jsonLine evening { level := .info, message := "fields" })
        (speller.jsonLine evening ((chain "test" lettersDown).record .info "fields")) shown) ∧
    spelled.linesOf 0 respelled =
      [⟨"a", "20:00 [INFO ] test: fields \x7balpha=2, zeta=1\x7d\n"⟩] := by
  obtain ⟨hsame, hshown, hsessions⟩ := records_follow_last_writes
  obtain ⟨htext, hjson⟩ := hsame "test" lettersUp lettersDown lastWritten_lettersUp speller evening
    .info "fields"
  obtain ⟨shown, hshows, hlines⟩ := hshown "test" lettersDown
  have hdefined : ∀ field ∈ shown, (jsonOf field.2).firstUndefined? = none := by
    rintro ⟨key, value⟩ hfield
    have hlast := (hshows.last key value).mp hfield
    rw [lastWritten_lettersDown] at hlast
    split_ifs at hlast <;> cases hlast <;> rfl
  refine ⟨lastWritten_lettersUp, ?_, hjson, ⟨shown, hshows, ?_⟩, ?_⟩
  · rw [htext, textLine_lettersDown]
  · exact (hlines speller evening .info "fields").2 hdefined
  · have hline : spelled.linesOf 0 (respelled.filter fun m => !m.derives) =
        [⟨"a", speller.textLine evening ((chain "test" lettersDown).record .info "fields")⟩] := rfl
    rw [(hsessions spelled 0 _ respelled rfl).2, hline, textLine_lettersDown]

end StepTone.Journal
