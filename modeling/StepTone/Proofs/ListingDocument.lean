/-
StepTone.Proofs.ListingDocument — the JSON document of a table.

* `readEntries` — the register values of a document.
* `shownNumbers` — the numbers of a document other than integers.
* `renderJson_eq_ok_iff` — a document is written exactly if these numbers are finite.
* `readEntries_renderJson` — the values of a table are read from its document.
-/
import StepTone.Listing.Render
import StepTone.Proofs.JsonReading
import StepTone.Proofs.ListingReading

namespace StepTone.Listing

open Song (Sequence)

/-! ## The reader -/

/-- The member of an object with a name. -/
def member? (name : String) : JsonText.Tree → Option JsonText.Tree
  | .obj members => members.lookup name.toList
  | _ => none

/-- The items of an array. -/
def items? : JsonText.Tree → Option (List JsonText.Tree)
  | .arr items => some items
  | _ => none

/-- The number that stands in a document. -/
def numberAt? : JsonText.Tree → Option Int
  | .bare raw => number? raw
  | _ => none

/-- The field `value` of each entry of a document. -/
def readEntries (text : List Char) : Option (List Int) := do
  let document ← JsonText.read text
  let entries ← (member? "entries" document).bind items?
  entries.mapM fun entry => (member? "value" entry).bind numberAt?

/-! ## Numbers that can be written -/

/-- The steps of a song, none without a song. -/
def songSteps (s : Option (Sequence Float)) : List (Song.Step Float) :=
  match s with
  | some s => s.steps
  | none => []

/-- The numbers of a document other than integers. -/
def shownNumbers (t : Table Float) (s : Option (Sequence Float)) : List Float :=
  [t.bounds.tMin * 1000, t.bounds.tMax * 1000, t.bounds.fMin, t.bounds.fMax] ++ t.frequencies
    ++ (songSteps s).flatMap fun step => [step.scaled, step.note.durationMs]

/-- The numbers that a document shows: four bounds, a frequency for each row, and two
numbers for each step of the song. -/
theorem forall_mem_shownNumbers {p : Float → Prop} {t : Table Float}
    {s : Option (Sequence Float)} :
    (∀ x ∈ shownNumbers t s, p x) ↔
      ((p (t.bounds.tMin * 1000) ∧ p (t.bounds.tMax * 1000) ∧ p t.bounds.fMin ∧ p t.bounds.fMax) ∧
        ∀ e ∈ t.entries.toList, p e.frequency) ∧
      ∀ step ∈ songSteps s, p step.scaled ∧ p step.note.durationMs := by
  rw [shownNumbers, List.forall_mem_append, List.forall_mem_append, Table.frequencies,
    List.forall_mem_map, List.forall_mem_flatMap]
  simp

@[simp]
theorem firstUndefined?_real {x : Float} :
    (JsonValue.real x).firstUndefined? = none ↔ Binary64.isFinite x = true := by
  rw [JsonValue.firstUndefined?]
  split
  · exact iff_of_true rfl ‹_›
  · exact iff_of_false (Option.some_ne_none x) ‹_›

@[simp]
theorem firstUndefined?_arr {items : List JsonValue} :
    (JsonValue.arr items).firstUndefined? = none ↔ ∀ v ∈ items, v.firstUndefined? = none := by
  rw [JsonValue.firstUndefined?]
  induction items with
  | nil => simp [JsonValue.firstUndefinedItem?]
  | cons v rest ih =>
    rw [JsonValue.firstUndefinedItem?, Option.or_eq_none_iff, ih, List.forall_mem_cons]

@[simp]
theorem firstUndefined?_obj {members : List (String × JsonValue)} :
    (JsonValue.obj members).firstUndefined? = none ↔
      ∀ m ∈ members, m.2.firstUndefined? = none := by
  rw [JsonValue.firstUndefined?]
  induction members with
  | nil => simp [JsonValue.firstUndefinedMember?]
  | cons m rest ih =>
    rw [JsonValue.firstUndefinedMember?, Option.or_eq_none_iff, ih, List.forall_mem_cons]

@[simp]
theorem firstUndefined?_int (n : Int) : (JsonValue.int n).firstUndefined? = none :=
  rfl

@[simp]
theorem firstUndefined?_str (text : String) : (JsonValue.str text).firstUndefined? = none :=
  rfl

@[simp]
theorem firstUndefined?_bool (b : Bool) : (JsonValue.bool b).firstUndefined? = none :=
  rfl

/-- Of the members of a row, only the frequency can be undefined. -/
theorem firstUndefined?_entryJson {t : Table Float} {e : Table.Entry Float} :
    (entryJson t e).firstUndefined? = none ↔ Binary64.isFinite e.frequency = true := by
  have hmark : ∀ m ∈ (if e.clamped then [("clamped", JsonValue.bool true)] else []),
      m.2.firstUndefined? = none := by
    split <;> simp
  rw [entryJson, firstUndefined?_obj, List.forall_mem_append, and_iff_left hmark]
  simp

theorem firstUndefined?_stepJson {step : Song.Step Float} :
    (stepJson step).firstUndefined? = none ↔
      Binary64.isFinite step.scaled = true ∧ Binary64.isFinite step.note.durationMs = true := by
  simp [stepJson]

/-- A document can be written exactly if all its numbers are finite. -/
theorem firstUndefined?_documentJson {l : Layout} {t : Table Float} {s : Option (Sequence Float)} :
    (documentJson l t s).firstUndefined? = none ↔
      ∀ x ∈ shownNumbers t s, Binary64.isFinite x = true := by
  have hsummary : ∀ m ∈ (if l.summary then
      [("summary", JsonValue.arr ((summaryLines t.bounds).map .str))] else []),
      m.2.firstUndefined? = none := by
    split <;> simp
  have hsong : (∀ m ∈ (if (songSteps s).isEmpty then []
      else [("song", JsonValue.arr ((songSteps s).map stepJson))]), m.2.firstUndefined? = none) ↔
      ∀ step ∈ songSteps s, (stepJson step).firstUndefined? = none := by
    cases songSteps s <;> simp
  rw [documentJson.eq_def, firstUndefined?_obj, List.forall_mem_append, List.forall_mem_append,
    and_iff_right hsummary]
  rw [forall_mem_shownNumbers]
  refine and_congr ?_ (hsong.trans (by simp only [firstUndefined?_stepJson]))
  simp [firstUndefined?_entryJson]

/-! ## Reading a document -/

/-- The rows are found in a document under their name. -/
theorem member?_entries (l : Layout) (t : Table Float) (s : Option (Sequence Float)) :
    member? "entries" (JsonText.tree (documentJson l t s)) =
      some (.arr (JsonText.treeItems (t.entries.toList.map (entryJson t)))) := by
  unfold documentJson
  rw [JsonText.tree]
  cases l.summary with
  | false =>
    simp only [Bool.false_eq_true, if_false, List.nil_append, List.cons_append,
      JsonText.treeMembers, JsonText.tree]
    rfl
  | true =>
    simp only [if_true, List.nil_append, List.cons_append, JsonText.treeMembers, JsonText.tree]
    rfl

theorem member?_value (t : Table Float) (e : Table.Entry Float) :
    (member? "value" (JsonText.tree (entryJson t e))).bind numberAt? =
      some ((t.encode e.delay).toNat : Int) := by
  have hlt : (t.encode e.delay).toNat < 2 ^ 16 := UInt16.toNat_lt _
  have hvalue : member? "value" (JsonText.tree (entryJson t e)) =
      some (.bare (toString (t.encode e.delay).toNat).toList) := by
    rw [entryJson, JsonText.tree]
    simp only [List.cons_append, JsonText.treeMembers, JsonText.tree]
    rfl
  rw [hvalue, Option.bind_some]
  exact number?_toString (by omega)

theorem treeItems_eq_map (items : List JsonValue) :
    JsonText.treeItems items = items.map JsonText.tree := by
  induction items with
  | nil => rfl
  | cons v rest ih => rw [JsonText.treeItems, ih, List.map_cons]

/-- There is a document exactly if all its numbers are finite. -/
theorem renderJson_eq_ok_iff {l : Layout} {t : Table Float} {s : Option (Sequence Float)}
    {text : String} :
    renderJson l t s = .ok text ↔
      (∀ x ∈ shownNumbers t s, Binary64.isFinite x = true) ∧
      text = (documentJson l t s).indented 0 ++ "\n" := by
  rw [renderJson, ← firstUndefined?_documentJson]
  cases (documentJson l t s).firstUndefined? with
  | some x => simp
  | none => simp [eq_comm]

/-- Reading a document gives back the values of the table. -/
theorem readEntries_renderJson {l : Layout} {t : Table Float} {s : Option (Sequence Float)}
    {text : String} (h : renderJson l t s = .ok text) :
    readEntries text.toList = some (t.values.map fun v => (v.toNat : Int)) := by
  obtain ⟨-, rfl⟩ := renderJson_eq_ok_iff.mp h
  have hitems : items? (.arr (JsonText.treeItems (t.entries.toList.map (entryJson t)))) =
      some ((t.entries.toList.map (entryJson t)).map JsonText.tree) := by
    rw [items?, treeItems_eq_map]
  rw [readEntries, JsonText.read_indented]
  change ((member? "entries" (JsonText.tree (documentJson l t s))).bind items?).bind _ = _
  rw [member?_entries, Option.bind_some, hitems, Option.bind_some, List.map_map, Table.values,
    List.map_map]
  exact mapM_map_eq_some fun e _ => member?_value t e

end StepTone.Listing
