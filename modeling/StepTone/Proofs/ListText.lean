/-
StepTone.Proofs.ListText — lists that are written with commas.

A list is written as one text, its items with a comma and a blank between them. Reading cuts
the text at every comma, takes the blanks off the parts and leaves out what is empty then.
So items come back if they are not empty, have no blanks around them and hold no comma.

* `splitFrom_append_cons` — a text is cut at its first separator.
* `trimChars_append` — blanks inside a text stay.
* `IsItem` — a text that comes back as an item of a list.
* `read_list` — a written list is read back.
* `isItem_pair` — two numerals with a colon between them are an item.
-/
import Mathlib
import StepTone.Proofs.DecimalText
import StepTone.Proofs.TextShape
import StepTone.Settings.Kind

namespace StepTone

namespace Text

/-! ## Cutting at a character -/

theorem splitFrom_of_not_mem {c : Char} {text : List Char} (h : c ∉ text) (part : List Char) :
    splitFrom c [] part text = [part.reverse ++ text] := by
  induction text generalizing part with
  | nil => simp [splitFrom]
  | cons d rest ih =>
    have hd : c ≠ d := List.ne_of_not_mem_cons h
    rw [splitFrom, if_neg fun hsep => hd hsep.1.symm, ih (List.not_mem_of_not_mem_cons h)]
    simp

/-- A text is cut at its first separator. -/
theorem splitFrom_append_cons {c : Char} {before : List Char} (h : c ∉ before)
    (part after : List Char) :
    splitFrom c [] part (before ++ c :: after) =
      (part.reverse ++ before) :: splitFrom c [] [] after := by
  induction before generalizing part with
  | nil => simp [splitFrom]
  | cons d rest ih =>
    have hd : c ≠ d := List.ne_of_not_mem_cons h
    rw [List.cons_append, splitFrom, if_neg fun hsep => hd hsep.1.symm,
      ih (List.not_mem_of_not_mem_cons h)]
    simp

/-! ## Blanks inside a text -/

theorem trimChars_of_forall {text : List Char} (h : ∀ c ∈ text, isBlank c = false) :
    trimChars text = text := by
  cases text using List.reverseRecOn with
  | nil => rfl
  | append_singleton before d =>
    have hdrop : (before ++ [d]).dropWhile isBlank = before ++ [d] := by
      cases before with
      | nil => exact List.dropWhile_cons_of_neg (by simp [h d])
      | cons c rest => exact List.dropWhile_cons_of_neg (by simp [h c])
    rw [trimChars, hdrop, trimEnd_append_cons (h d (by simp))]
    rfl

/-- A text that trimming leaves as it is does not end in a blank. -/
theorem isBlank_last_of_trimChars_eq_self {before : List Char} {d : Char}
    (h : trimChars (before ++ [d]) = before ++ [d]) : isBlank d = false := by
  cases hd : isBlank d with
  | false => rfl
  | true =>
    have hlength := length_trimChars_le before
    have hend : trimEnd (before ++ [d]) = trimEnd before := by
      rw [trimEnd_eq_rdropWhile, List.rdropWhile_concat_pos _ _ _ hd, ← trimEnd_eq_rdropWhile]
    rw [← trimChars_trimEnd, hend, trimChars_trimEnd] at h
    rw [h, List.length_append, List.length_singleton] at hlength
    omega

/-- Whatever stands between two texts without blanks around them stays. -/
theorem trimChars_append {front back : List Char} (hfront : trimChars front = front)
    (hback : trimChars back = back) (hne : front ≠ []) (hne' : back ≠ []) (middle : List Char) :
    trimChars (front ++ middle ++ back) = front ++ middle ++ back := by
  obtain ⟨c, front, rfl⟩ := List.exists_cons_of_ne_nil hne
  obtain ⟨back, d, rfl⟩ : ∃ back' d, back = back' ++ [d] :=
    ⟨_, _, (List.dropLast_concat_getLast hne').symm⟩
  have hc := isBlank_of_trimChars_eq_self hfront
  have hd := isBlank_last_of_trimChars_eq_self hback
  rw [List.cons_append, List.cons_append, trimChars_cons hc, ← List.append_assoc,
    trimEnd_append_cons hd]
  rfl

end Text

namespace Settings

open Decimal (Numeric isNumeric)

/-! ## Items -/

/-- A text that comes back as an item of a list. -/
def IsItem (item : String) : Prop :=
  item ≠ "" ∧ Text.trim item = item ∧ ',' ∉ item.toList

/-- The items between the commas of a text. -/
def itemsOf (text : List Char) : List String :=
  (((Text.splitFrom ',' [] [] text).map String.ofList).map Text.trim).filter (· ≠ "")

theorem itemsOf_eq (text : String) :
    itemsOf text.toList = ((Text.split "," text).map Text.trim).filter (· ≠ "") := rfl

theorem IsItem.trimChars_eq {item : String} (h : IsItem item) :
    Text.trimChars item.toList = item.toList := by
  have htrim := congrArg String.toList h.2.1
  rwa [Text.trim, String.toList_ofList] at htrim

theorem IsItem.toList_ne_nil {item : String} (h : IsItem item) : item.toList ≠ [] :=
  fun hnil => h.1 (String.toList_inj.mp hnil)

/-- What may stand before an item: nothing, or the blank after a comma. -/
def IsLead (lead : List Char) : Prop :=
  lead = [] ∨ lead = [' ']

theorem IsItem.trim_lead {item : String} (h : IsItem item) {lead : List Char}
    (hlead : IsLead lead) :
    Text.trim (String.ofList (lead ++ item.toList)) = item := by
  have htrim : Text.trimChars (lead ++ item.toList) = item.toList := by
    rcases hlead with rfl | rfl
    · exact h.trimChars_eq
    · rw [List.singleton_append, Text.trimChars_cons_blank (by decide), h.trimChars_eq]
  rw [Text.trim_ofList, htrim, String.ofList_toList]

theorem IsItem.not_mem_lead {item : String} (h : IsItem item) {lead : List Char}
    (hlead : IsLead lead) : ',' ∉ lead ++ item.toList := by
  rcases hlead with rfl | rfl
  · exact h.2.2
  · simp [h.2.2]

theorem itemsOf_lead {lead : List Char} (h : IsLead lead) : itemsOf lead = [] := by
  rcases h with rfl | rfl
  · rw [itemsOf, Text.splitFrom_of_not_mem List.not_mem_nil]
    decide
  · rw [itemsOf, Text.splitFrom_of_not_mem (by decide)]
    decide

theorem itemsOf_item {item : String} (h : IsItem item) {lead : List Char} (hlead : IsLead lead) :
    itemsOf (lead ++ item.toList) = [item] := by
  rw [itemsOf, Text.splitFrom_of_not_mem (h.not_mem_lead hlead), List.reverse_nil, List.nil_append,
    List.map_singleton, List.map_singleton, h.trim_lead hlead]
  simp [h.1]

/-- An item is found at the front of a text. -/
theorem itemsOf_append_cons {item : String} (h : IsItem item) {lead : List Char}
    (hlead : IsLead lead) (rest : List Char) :
    itemsOf (lead ++ item.toList ++ ',' :: rest) = item :: itemsOf rest := by
  rw [itemsOf, Text.splitFrom_append_cons (h.not_mem_lead hlead), List.reverse_nil,
    List.nil_append, List.map_cons, List.map_cons, h.trim_lead hlead,
    List.filter_cons_of_pos (by simpa using h.1)]
  rfl

theorem itemsOf_intercalate {items : List String} (h : ∀ item ∈ items, IsItem item)
    {lead : List Char} (hlead : IsLead lead) :
    itemsOf (lead ++ (", ".intercalate items).toList) = items := by
  -- after the first comma the rest starts with a blank, so the lead varies in the induction
  induction items generalizing lead with
  | nil => rw [String.intercalate_nil, String.toList_empty, List.append_nil, itemsOf_lead hlead]
  | cons item rest ih =>
    obtain ⟨hitem, hrest⟩ := List.forall_mem_cons.mp h
    cases rest with
    | nil => rw [String.intercalate_singleton, itemsOf_item hitem hlead]
    | cons next more =>
      have htext : lead ++ (", ".intercalate (item :: next :: more)).toList =
          lead ++ item.toList ++ ',' :: ([' '] ++ (", ".intercalate (next :: more)).toList) := by
        rw [String.intercalate_cons_cons]
        simp
      rw [htext, itemsOf_append_cons hitem hlead, ih hrest (.inr rfl)]

/-- A written list has no blanks around it: its first item does not start with one, and its
last item does not end in one. -/
theorem trimChars_intercalate {items : List String} (h : ∀ item ∈ items, IsItem item)
    (hne : items ≠ []) :
    Text.trimChars (", ".intercalate items).toList = (", ".intercalate items).toList ∧
      (", ".intercalate items).toList ≠ [] := by
  induction items with
  | nil => exact absurd rfl hne
  | cons item rest ih =>
    obtain ⟨hitem, hrest⟩ := List.forall_mem_cons.mp h
    cases rest with
    | nil =>
      rw [String.intercalate_singleton]
      exact ⟨hitem.trimChars_eq, hitem.toList_ne_nil⟩
    | cons next more =>
      obtain ⟨htrim, hmore⟩ := ih hrest (List.cons_ne_nil _ _)
      rw [String.intercalate_cons_cons, String.toList_append, String.toList_append]
      exact ⟨Text.trimChars_append hitem.trimChars_eq htrim hitem.toList_ne_nil hmore _,
        List.append_ne_nil_of_right_ne_nil _ hmore⟩

theorem trim_intercalate {items : List String} (h : ∀ item ∈ items, IsItem item) :
    Text.trim (", ".intercalate items) = ", ".intercalate items := by
  cases items with
  | nil => decide
  | cons item rest =>
    rw [Text.trim, (trimChars_intercalate h (List.cons_ne_nil _ _)).1, String.ofList_toList]

/-- The items of a written list are found in it. -/
theorem itemsOf_trim_intercalate {items : List String} (h : ∀ item ∈ items, IsItem item) :
    itemsOf (Text.trim (", ".intercalate items)).toList = items := by
  rw [trim_intercalate h, ← List.nil_append (String.toList _), itemsOf_intercalate h (.inl rfl)]

/-- A written list is read back. -/
theorem read_list {items : List String} (h : ∀ item ∈ items, IsItem item) :
    (Kind.list ",").read (Text.trim (", ".intercalate items)) = .ok items :=
  congrArg Except.ok (itemsOf_trim_intercalate h)

/-! ## Numerals -/

theorem isBlank_of_isNumeric {c : Char} (h : isNumeric c = true) : Text.isBlank c = false := by
  have hrange : 0x20 < c.toNat ∧ c.toNat < 0x80 := by
    simp only [isNumeric, Bool.or_eq_true, decide_eq_true_eq] at h
    rcases h with ((h | rfl) | rfl) | rfl
    · simp only [Char.isAlphanum, Char.isAlpha, Char.isUpper, Char.isLower, Char.isDigit,
        Bool.or_eq_true, Bool.and_eq_true, decide_eq_true_eq, UInt32.le_iff_toNat_le] at h
      simp at h
      omega
    · decide
    · decide
    · decide
  simp [Text.isBlank]
  omega

theorem trim_of_numeric {text : String} (h : Numeric text.toList) : Text.trim text = text := by
  rw [Text.trim, Text.trimChars_of_forall fun c hc => isBlank_of_isNumeric (h c hc),
    String.ofList_toList]

/-- Two numerals with a colon between them are an item. -/
theorem isItem_pair {a b : String} (ha : Numeric a.toList) (hb : Numeric b.toList) :
    IsItem (a ++ ":" ++ b) := by
  have htext : (a ++ ":" ++ b).toList = a.toList ++ ':' :: b.toList := by simp
  refine ⟨fun hempty => ?_, ?_, ?_⟩
  · rw [hempty] at htext
    exact List.append_ne_nil_of_right_ne_nil _ (List.cons_ne_nil _ _) htext.symm
  · rw [Text.trim, htext, Text.trimChars_of_forall, ← htext, String.ofList_toList]
    intro c hc
    rcases List.mem_append.mp hc with hc | hc
    · exact isBlank_of_isNumeric (ha c hc)
    · rcases List.mem_cons.mp hc with rfl | hc
      · decide
      · exact isBlank_of_isNumeric (hb c hc)
  · rw [htext]
    simp [ha.not_mem (c := ',') rfl, hb.not_mem (c := ',') rfl]

end Settings

end StepTone
