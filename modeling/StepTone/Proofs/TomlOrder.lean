/-
StepTone.Proofs.TomlOrder — the order of the members of a TOML document does not matter.

A table is a map: its members stand in no order of their own, and a list of them is one of
many. Two such lists of one document give the same settings, or end in the same fault. Tables
are taken by ascending name, so it is settled which of two tables that are merged comes last
and which fault comes first; inside a table, options are told apart by their names.

* `Value.Same`, `SameMembers` — one value, its members listed in two orders.
* `display_same`, `optionText_same` — what is written of a value does not depend on the order.
* `Orderly` — tables whose members can be taken in any order.
* `Settings.Same` — the same sections in the same order, with the same options.
* `toml_order_immaterial` — two lists of one document have the same outcome.
-/
import Mathlib
import StepTone.Proofs.NotationAgreement
import StepTone.Proofs.TomlValues

namespace StepTone.Toml

/-! ## One document in two orders -/

mutual

/-- One value, with the members of its tables in two orders. -/
def Value.Same : Value → Value → Prop
  | .array items, w => ∃ items', w = .array items' ∧ SameItems items items'
  | .table members, w => ∃ members', w = .table members' ∧ SameMembers members members'
  | .tables items, w => ∃ items', w = .tables items' ∧ SameTables items items'
  | v, w => w = v
termination_by structural v => v

/-- The items of one array. -/
def SameItems : List Value → List Value → Prop
  | [], items' => items' = []
  | v :: rest, items' => ∃ w rest', items' = w :: rest' ∧ v.Same w ∧ SameItems rest rest'
termination_by structural items => items

/-- The members of one table: a key stands once, and each member has its like somewhere in
the other list. -/
def SameMembers : List (String × Value) → Members → Prop
  | [], members' => members' = []
  | (k, v) :: rest, members' => k ∉ rest.map Prod.fst ∧
      ∃ w rest', members'.Perm ((k, w) :: rest') ∧ v.Same w ∧ SameMembers rest rest'
termination_by structural members => members

/-- The tables of one array of tables. -/
def SameTables : List (List (String × Value)) → List Members → Prop
  | [], items' => items' = []
  | members :: rest, items' => ∃ members' rest', items' = members' :: rest' ∧
      SameMembers members members' ∧ SameTables rest rest'
termination_by structural items => items

end

/-- Members with the same key and the same value. -/
def SameMember (a b : String × Value) : Prop :=
  a.1 = b.1 ∧ a.2.Same b.2

/-- Two lists of the members of a table are one list, member by member, in two orders. -/
theorem sameMembers_iff {members members' : Members} : SameMembers members members' ↔
    (members.map Prod.fst).Nodup ∧
      ∃ order, List.Forall₂ SameMember members order ∧ order.Perm members' := by
  induction members generalizing members' with
  | nil => simp [SameMembers]
  | cons member rest ih =>
    obtain ⟨k, v⟩ := member
    rw [SameMembers, List.map_cons, List.nodup_cons]
    constructor
    · rintro ⟨hk, w, rest', hperm, hv, hrest⟩
      obtain ⟨hnodup, order, horder, hrest'⟩ := ih.mp hrest
      exact ⟨⟨hk, hnodup⟩, (k, w) :: order, .cons ⟨rfl, hv⟩ horder,
        (hrest'.cons _).trans hperm.symm⟩
    · rintro ⟨⟨hk, hnodup⟩, order, horder, hperm⟩
      obtain ⟨⟨k', w⟩, order', ⟨hkey, hv⟩, hrest, rfl⟩ := List.forall₂_cons_left_iff.mp horder
      obtain rfl : k = k' := hkey
      exact ⟨hk, w, order', hperm.symm, hv, ih.mpr ⟨hnodup, order', hrest, .refl _⟩⟩

namespace SameMembers

variable {members members' : Members}

theorem keys_nodup (h : SameMembers members members') : (members.map Prod.fst).Nodup :=
  (sameMembers_iff.mp h).1

theorem keys_perm (h : SameMembers members members') :
    (members.map Prod.fst).Perm (members'.map Prod.fst) := by
  obtain ⟨-, order, horder, hperm⟩ := sameMembers_iff.mp h
  rw [← Settings.map_fst_of_forall₂ (fun _ _ hab => hab.1.symm) horder]
  exact hperm.map Prod.fst

theorem exists_of_mem (h : SameMembers members members') {a : String × Value}
    (ha : a ∈ members) : ∃ b ∈ members', SameMember a b := by
  obtain ⟨-, order, horder, hperm⟩ := sameMembers_iff.mp h
  obtain ⟨b, hb, hab⟩ := Settings.exists_of_mem_forall₂ horder.flip ha
  exact ⟨b, hperm.mem_iff.mp hb, hab⟩

theorem exists_of_mem_right (h : SameMembers members members') {b : String × Value}
    (hb : b ∈ members') : ∃ a ∈ members, SameMember a b := by
  obtain ⟨-, order, horder, hperm⟩ := sameMembers_iff.mp h
  exact Settings.exists_of_mem_forall₂ horder (hperm.mem_iff.mpr hb)

/-- In ascending order the two lists are the same, member by member. -/
theorem forall₂_mergeSort (h : SameMembers members members') : List.Forall₂ SameMember
    (members.mergeSort fun a b => decide (a.1 ≤ b.1))
    (members'.mergeSort fun a b => decide (a.1 ≤ b.1)) := by
  obtain ⟨hnodup, order, horder, hperm⟩ := sameMembers_iff.mp h
  have hnodup' : (members'.map Prod.fst).Nodup := h.keys_perm.nodup_iff.mp hnodup
  obtain ⟨order', hsame, horder'⟩ := List.perm_comp_forall₂
    (List.mergeSort_perm members fun a b => decide (a.1 ≤ b.1)) horder
  have hascending : (order'.map Prod.fst).Pairwise (· < ·) := by
    rw [Settings.map_fst_of_forall₂ (fun _ _ hab => hab.1.symm) hsame]
    exact ascending_mergeSort hnodup
  rwa [mergeSort_eq_of_ascending hnodup' (horder'.trans hperm) hascending]

end SameMembers

/-! ## What is written of a value -/

namespace Value

/-- Texts whose keys stand once are put in one order, whatever order they come in. -/
theorem byKey_eq_of_perm {members members' : List (String × String)}
    (hnodup : (members.map Prod.fst).Nodup) (hperm : members.Perm members') :
    byKey members = byKey members' := by
  rw [byKey, byKey, mergeSort_eq_of_perm hnodup hperm]

theorem displayMembers_eq_map (members : Members) :
    displayMembers members = members.map fun member => (member.1, member.2.display) := by
  induction members with
  | nil => rfl
  | cons member rest ih =>
    obtain ⟨k, v⟩ := member
    rw [displayMembers, ih, List.map_cons]

theorem keys_displayMembers (members : Members) :
    (displayMembers members).map Prod.fst = members.map Prod.fst := by
  simp [displayMembers_eq_map]

mutual

theorem display_same : (v : Value) → ∀ {w : Value}, v.Same w → v.display = w.display
  | .array items, w, h => by
    obtain ⟨items', rfl, hitems⟩ := h
    rw [display, display, displayItems_same items hitems]
  | .table members, w, h => by
    obtain ⟨members', rfl, hmembers⟩ := h
    rw [display, display, byKey_eq_of_perm _ (displayMembers_same members hmembers)]
    rw [keys_displayMembers]
    exact hmembers.keys_nodup
  | .tables items, w, h => by
    obtain ⟨items', rfl, hitems⟩ := h
    rw [display, display, displayTables_same items hitems]
  | .string s, w, h => by rw [(h : w = .string s)]
  | .integer n, w, h => by rw [(h : w = .integer n)]
  | .float x, w, h => by rw [(h : w = .float x)]
  | .boolean b, w, h => by rw [(h : w = .boolean b)]
  | .moment m, w, h => by rw [(h : w = .moment m)]

theorem displayItems_same : (items : List Value) → ∀ {items' : List Value},
    SameItems items items' → displayItems items = displayItems items'
  | [], items', h => by rw [(h : items' = [])]
  | v :: rest, items', h => by
    obtain ⟨w, rest', rfl, hv, hrest⟩ := h
    rw [displayItems, displayItems, display_same v hv, displayItems_same rest hrest]

theorem displayMembers_same : (members : List (String × Value)) → ∀ {members' : Members},
    SameMembers members members' → (displayMembers members).Perm (displayMembers members')
  | [], members', h => by rw [(h : members' = [])]
  | (k, v) :: rest, members', h => by
    obtain ⟨-, w, rest', hperm, hv, hrest⟩ := h
    have hother : (displayMembers members').Perm (displayMembers ((k, w) :: rest')) := by
      simpa only [displayMembers_eq_map] using hperm.map _
    rw [displayMembers] at hother ⊢
    rw [display_same v hv]
    exact ((displayMembers_same rest hrest).cons _).trans hother.symm

theorem displayTables_same : (items : List (List (String × Value))) → ∀ {items' : List Members},
    SameTables items items' → displayTables items = displayTables items'
  | [], items', h => by rw [(h : items' = [])]
  | members :: rest, items', h => by
    obtain ⟨members', rest', rfl, hmembers, hrest⟩ := h
    have hnodup : ((displayMembers members).map Prod.fst).Nodup := by
      rw [keys_displayMembers]
      exact hmembers.keys_nodup
    rw [displayTables, displayTables, displayTables_same rest hrest,
      byKey_eq_of_perm hnodup (displayMembers_same members hmembers)]

end

end Value

end StepTone.Toml

namespace StepTone.Settings

open Toml (Value Members SameItems SameMember SameMembers)

/-! ## A table as options -/

theorem numberText?_same {v w : Value} (h : v.Same w) : numberText? v = numberText? w := by
  cases v with
  | array items =>
    obtain ⟨items', rfl, -⟩ := h
    rfl
  | table members =>
    obtain ⟨members', rfl, -⟩ := h
    rfl
  | tables items =>
    obtain ⟨items', rfl, -⟩ := h
    rfl
  | _ => rw [show w = _ from h]

theorem pairText?_same {items items' : List Value} (h : SameItems items items') :
    pairText? items = pairText? items' := by
  rcases items with _ | ⟨a, _ | ⟨b, _ | ⟨c, rest⟩⟩⟩
  · obtain rfl : items' = [] := h
    rfl
  · obtain ⟨a', _, rfl, -, rfl⟩ := h
    rfl
  · obtain ⟨a', _, rfl, ha, b', _, rfl, hb, rfl⟩ := h
    rw [pairText?, pairText?, numberText?_same ha, numberText?_same hb]
  · obtain ⟨a', _, rfl, -, b', _, rfl, -, c', _, rfl, -, -⟩ := h
    rfl

/-- The same text, or parts of the same kind that an option cannot have. -/
inductive SameText {α : Type} : Except Value α → Except Value α → Prop
  | ok (text : α) : SameText (.ok text) (.ok text)
  | error {bad bad' : Value} (h : bad.kindName = bad'.kindName) :
    SameText (.error bad) (.error bad')

theorem SameText.map {α β : Type} {e e' : Except Value α} (h : SameText e e') (f : α → β) :
    SameText (e.map f) (e'.map f) := by
  cases h with
  | ok text => exact .ok (f text)
  | error hkind => exact .error hkind

theorem sameText_refl {α : Type} (e : Except Value α) : SameText e e := by
  cases e with
  | ok text => exact .ok text
  | error bad => exact .error rfl

mutual

theorem optionText_same :
    (v : Value) → ∀ {w : Value}, v.Same w → SameText (optionText v) (optionText w)
  | .array items, w, h => by
    obtain ⟨items', rfl, hitems⟩ := h
    rw [optionText, optionText, ← pairText?_same hitems]
    cases pairText? items with
    | some pair => exact .ok pair
    | none => exact (optionTexts_same items hitems).map _
  | .table members, w, h => by
    obtain ⟨members', rfl, -⟩ := h
    exact .error rfl
  | .tables items, w, h => by
    obtain ⟨items', rfl, -⟩ := h
    exact .error rfl
  | .string s, w, h => (h : w = .string s) ▸ sameText_refl _
  | .integer n, w, h => (h : w = .integer n) ▸ sameText_refl _
  | .float x, w, h => (h : w = .float x) ▸ sameText_refl _
  | .boolean b, w, h => (h : w = .boolean b) ▸ sameText_refl _
  | .moment m, w, h => (h : w = .moment m) ▸ sameText_refl _

theorem optionTexts_same : (items : List Value) → ∀ {items' : List Value},
    SameItems items items' → SameText (optionTexts items) (optionTexts items')
  | [], items', h => (h : items' = []) ▸ sameText_refl _
  | v :: rest, items', h => by
    obtain ⟨w, rest', rfl, hv, hrest⟩ := h
    have htext := optionText_same v hv
    have htexts := optionTexts_same rest hrest
    rw [optionTexts, optionTexts]
    generalize optionText v = e, optionText w = e' at htext
    generalize optionTexts rest = more, optionTexts rest' = more' at htexts
    -- the first item that cannot be a text decides, in both lists
    cases htext with
    | error hkind => exact .error hkind
    | ok text =>
      cases htexts with
      | error hkind => exact .error hkind
      | ok texts => exact .ok (text :: texts)

end

/-- The value can be the text of an option. -/
def isSupported (v : Value) : Bool :=
  (optionText v).isOk

/-- The fault is the one that a table has for the value of a member. -/
def Refuses (table : String) (member : String × Value) (fault : Fault) : Prop :=
  ∃ bad, optionText member.2 = .error bad ∧ fault = unsupported table member.1 member.2 bad

/-- A table whose members can be taken in any order: no two names are the same in lower case,
and at most one value cannot be the text of an option. -/
structure Orderly (members : Members) : Prop where
  distinct : Distinct members
  one_unsupported : (members.filter fun member => !isSupported member.2).length ≤ 1

instance (members : Members) : Decidable (Orderly members) :=
  decidable_of_iff
    (Distinct members ∧ (members.filter fun member => !isSupported member.2).length ≤ 1)
    ⟨fun h => ⟨h.1, h.2⟩, fun h => ⟨h.distinct, h.one_unsupported⟩⟩

section

variable {table : String} {a b : String × Value} {fault fault' : Fault}

theorem Refuses.isSupported_eq_false (h : Refuses table a fault) : isSupported a.2 = false := by
  obtain ⟨bad, hbad, -⟩ := h
  rw [isSupported, hbad]
  rfl

/-- Of a table that can be taken in any order, only one member is refused. -/
theorem Orderly.eq_of_refuses {members : Members} (h : Orderly members) (ha : a ∈ members)
    (hb : b ∈ members) (hrefused : Refuses table a fault) (hrefused' : Refuses table b fault') :
    a = b := by
  have ha' : a ∈ members.filter fun member => !isSupported member.2 :=
    List.mem_filter.mpr ⟨ha, by simp [hrefused.isSupported_eq_false]⟩
  have hb' : b ∈ members.filter fun member => !isSupported member.2 :=
    List.mem_filter.mpr ⟨hb, by simp [hrefused'.isSupported_eq_false]⟩
  obtain ⟨c, hc⟩ := List.length_eq_one_iff.mp
    (le_antisymm h.one_unsupported (List.length_pos_of_mem ha'))
  rw [hc, List.mem_singleton] at ha' hb'
  rw [ha', hb']

theorem Refuses.unique (h : Refuses table a fault) (h' : Refuses table a fault') :
    fault = fault' := by
  obtain ⟨bad, hbad, rfl⟩ := h
  obtain ⟨bad', hbad', rfl⟩ := h'
  rw [Except.error.inj (hbad.symm.trans hbad')]

theorem isText_same (h : SameMember a b) {option : String × String} (ha : IsText a option) :
    IsText b option := by
  have htext := optionText_same a.2 h.2
  rw [ha.2] at htext
  generalize hb : optionText b.2 = e at htext
  cases htext
  exact ⟨ha.1.trans h.1, hb⟩

/-- The fault names the member, shows its value and gives the kind of the part that is to
blame, and none of these depends on the order. -/
theorem refuses_same (h : SameMember a b) : Refuses table a fault ↔ Refuses table b fault := by
  have htext := optionText_same a.2 h.2
  simp only [Refuses, unsupported, h.1, a.2.display_same h.2]
  generalize optionText a.2 = e, optionText b.2 = e' at htext
  cases htext with
  | ok text => simp
  | error hkind => simp [hkind]

theorem exists_refuses {members : Members} (h : tableOptions table members = .error fault) :
    ∃ member ∈ members, Refuses table member fault := by
  induction members with
  | nil => cases h
  | cons member rest ih =>
    obtain ⟨key, value⟩ := member
    cases hvalue : optionText value with
    | error bad =>
      simp only [tableOptions, hvalue] at h
      exact ⟨(key, value), List.mem_cons_self, bad, hvalue, (Except.error.inj h).symm⟩
    | ok text =>
      simp only [tableOptions, hvalue] at h
      cases hrest : tableOptions table rest with
      | ok o =>
        rw [hrest] at h
        cases h
      | error fault' =>
        rw [hrest] at h
        obtain rfl : fault' = fault := Except.error.inj h
        obtain ⟨member, hmember, hrefuses⟩ := ih hrest
        exact ⟨member, List.mem_cons_of_mem _ hmember, hrefuses⟩

end

section

variable {members members' : Members} {table : String}

theorem forall₂_isText_same {order : Members} (h : List.Forall₂ SameMember members order)
    {o : Options} (ho : List.Forall₂ IsText members o) : List.Forall₂ IsText order o := by
  induction h generalizing o with
  | nil => exact ho
  | cons hab _ ih =>
    obtain ⟨option, more, htext, hmore, rfl⟩ := List.forall₂_cons_left_iff.mp ho
    exact .cons (isText_same hab htext) (ih hmore)

/-- A table that is read gives the same options in any order. -/
theorem tableOptions_ok_same (h : SameMembers members members') {o : Options}
    (ho : tableOptions table members = .ok o) :
    ∃ o', tableOptions table members' = .ok o' ∧ o.Perm o' := by
  obtain ⟨-, order, horder, hperm⟩ := Toml.sameMembers_iff.mp h
  have htexts := forall₂_isText_same horder (tableOptions_eq_ok_iff.mp ho)
  obtain ⟨o', htexts', hperm'⟩ := List.perm_comp_forall₂ hperm.symm htexts
  exact ⟨o', tableOptions_eq_ok_iff.mpr htexts', hperm'.symm⟩

/-- Where one value at most is refused, the fault is its fault in any order. -/
theorem Orderly.tableOptions_error_same (h : Orderly members)
    (hsame : SameMembers members members') {fault : Fault}
    (hfault : tableOptions table members = .error fault) :
    tableOptions table members' = .error fault := by
  obtain ⟨a, ha, hrefused⟩ := exists_refuses hfault
  cases hother : tableOptions table members' with
  | ok o' =>
    obtain ⟨b, hb, hab⟩ := hsame.exists_of_mem ha
    obtain ⟨option, -, htext⟩ :=
      exists_of_mem_forall₂ (tableOptions_eq_ok_iff.mp hother).flip hb
    obtain ⟨bad, hbad, -⟩ := (refuses_same hab).mp hrefused
    cases hbad.symm.trans htext.2
  | error fault' =>
    -- what is refused there is the like of a member here, and only one can be refused here
    obtain ⟨b, hb, hrefused'⟩ := exists_refuses hother
    obtain ⟨c, hc, hcb⟩ := hsame.exists_of_mem_right hb
    obtain rfl := h.eq_of_refuses ha hc hrefused ((refuses_same hcb).mpr hrefused')
    rw [((refuses_same hcb).mp hrefused).unique hrefused']

theorem Distinct.nodup_lowered (h : Distinct members) {o : Options}
    (ho : tableOptions table members = .ok o) : o.lowered.keys.Nodup := by
  have hkeys := map_fst_of_forall₂ (fun _ _ h => h.1) (tableOptions_eq_ok_iff.mp ho)
  have hlowered : o.lowered.keys = (o.map Prod.fst).map Text.lower := by
    simp [Options.keys, Options.lowered]
  rw [hlowered, hkeys, List.map_map]
  exact h

end

/-! ## The same settings -/

namespace Options

/-- Blocks whose names stand once in lower case are merged alike in any order. -/
theorem merge_perm {o o' block block' : Options} (ho : o.Perm o') (hkeys : o.keys.Nodup)
    (hblock : block.Perm block') (hlowered : block.lowered.keys.Nodup) :
    (o.merge block).Perm (o'.merge block') := by
  have hkeys' : o'.keys.Nodup := (ho.map Prod.fst).nodup_iff.mp hkeys
  have hreverse : block.lowered.reverse.Perm block'.lowered.reverse :=
    (List.reverse_perm _).trans ((hblock.map _).trans (List.reverse_perm _).symm)
  have hreversed : keys block.lowered.reverse |>.Nodup :=
    ((List.reverse_perm _).map Prod.fst).nodup_iff.mpr hlowered
  refine perm_of_lookup (nodup_merge hkeys block) (nodup_merge hkeys' block') fun k => ?_
  rw [lookup_merge, lookup_merge, lookup_eq_of_perm hreverse hreversed,
    lookup_eq_of_perm ho hkeys]

end Options

/-- Sections with the same options in two orders, of which the same have been read. -/
structure Section.Same (a b : Section) : Prop where
  name : a.name = b.name
  touched : a.touched = b.touched
  keys_nodup : a.options.keys.Nodup
  options : a.options.Perm b.options

/-- The same sections in the same order, of which the same have been fetched. -/
structure Same (s t : Settings) : Prop where
  fetched : s.fetched = t.fetched
  sections : List.Forall₂ Section.Same s.sections t.sections

/-- Two loadings end in the same fault, or in the same settings. -/
inductive SameOutcome : Except Fault Settings → Except Fault Settings → Prop
  | fault (fault : Fault) : SameOutcome (.error fault) (.error fault)
  | settings {s t : Settings} (h : s.Same t) : SameOutcome (.ok s) (.ok t)

theorem Section.Same.alike {a b : Section} (h : a.Same b) : a.Alike b :=
  ⟨h.name, h.touched, h.keys_nodup, h.options.map _⟩

/-- No reading can tell such settings apart. -/
theorem Same.alike {s t : Settings} (h : s.Same t) : s.Alike t :=
  ⟨h.fetched, h.sections.imp fun _ _ hab => hab.alike⟩

section

variable {block block' : Options} (hblock : block.Perm block')
  (hlowered : block.lowered.keys.Nodup)

include hblock hlowered

theorem Section.Same.merge {a b : Section} (h : a.Same b) :
    (a.merge block).Same (b.merge block') where
  name := h.name
  touched := h.touched
  keys_nodup := Options.nodup_merge h.keys_nodup block
  options := Options.merge_perm h.options h.keys_nodup hblock hlowered

/-- A block is merged into the same section of both, or put at the end of both. -/
theorem Same.add {s t : Settings} (h : s.Same t) (name : String) :
    (s.add name block).Same (t.add name block') := by
  have hsome : (s.section? name).isSome ↔ (t.section? name).isSome := by
    rw [isSome_section?_iff, isSome_section?_iff, h.alike.names]
  by_cases hs : (s.section? name).isSome
  · rw [Settings.add, Settings.add, if_pos hs, if_pos (hsome.mp hs)]
    refine ⟨h.fetched, ?_⟩
    simp only [update, List.forall₂_map_left_iff, List.forall₂_map_right_iff]
    refine h.sections.imp fun a b hab => ?_
    by_cases hname : a.name = name
    · rw [if_pos hname, if_pos (hab.name ▸ hname)]
      exact hab.merge hblock hlowered
    · rw [if_neg hname, if_neg (hab.name ▸ hname)]
      exact hab
  · rw [Settings.add, Settings.add, if_neg hs, if_neg (mt hsome.mpr hs)]
    have hempty : Section.Same { name } { name } := ⟨rfl, rfl, List.nodup_nil, .refl _⟩
    exact ⟨h.fetched, List.rel_append h.sections (.cons (hempty.merge hblock hlowered) .nil)⟩

end

/-! ## Loading a document -/

/-- Every table of the document can be taken in any order. -/
def OrderlyTables (root : Members) : Prop :=
  ∀ name members, (name, .table members) ∈ root → Orderly members

/-- One table more leads to the same fault, or to the same settings, and so do all. -/
theorem Same.addTables {tables tables' : Members} (htables : List.Forall₂ SameMember tables tables')
    (horderly : OrderlyTables tables) {s t : Settings} (h : s.Same t) :
    SameOutcome (s.addTables tables) (t.addTables tables') := by
  induction htables generalizing s t with
  | nil => exact .settings h
  | @cons a b rest rest' hab _ ih =>
    obtain ⟨name, v⟩ := a
    obtain ⟨name', w⟩ := b
    obtain ⟨hname, hsame⟩ := hab
    obtain rfl : name = name' := hname
    have hrest : OrderlyTables rest := fun n m hmem => horderly n m (List.mem_cons_of_mem _ hmem)
    cases v with
    | table members =>
      obtain ⟨members', rfl, hmembers⟩ := hsame
      have hthis : Orderly members := horderly name members List.mem_cons_self
      cases ho : tableOptions name members with
      | error fault =>
        rw [Settings.addTables, Settings.addTables, ho, hthis.tableOptions_error_same hmembers ho]
        exact .fault fault
      | ok o =>
        obtain ⟨o', ho', hperm⟩ := tableOptions_ok_same hmembers ho
        rw [Settings.addTables, Settings.addTables, ho, ho']
        exact ih hrest (h.add hperm (hthis.distinct.nodup_lowered ho) (Text.lower name))
    | array items =>
      obtain ⟨items', rfl, -⟩ := hsame
      exact .fault _
    | tables items =>
      obtain ⟨items', rfl, -⟩ := hsame
      exact .fault _
    | _ =>
      obtain rfl := show w = _ from hsame
      exact .fault _

/-- Two lists of one document give the same sections, with the same options, in the same
order, or end in the same fault. -/
theorem toml_order_immaterial {root root' : Members} (hsame : SameMembers root root')
    (horderly : OrderlyTables root) : SameOutcome (ofToml root) (ofToml root') := by
  have hempty : Same {} {} := ⟨rfl, .nil⟩
  refine hempty.addTables hsame.forall₂_mergeSort fun name members hmem => ?_
  exact horderly name members ((List.mergeSort_perm root _).mem_iff.mp hmem)

/-- One section under two spellings of its name, which give its name twice. -/
def spelledTwice : Members :=
  [("Output", .table [("Name", .string "low"), ("format", .string "c")]),
    ("output", .table [("name", .string "high")])]

/-- The same, from the end. -/
def spelledTwiceBackwards : Members :=
  [("output", .table [("name", .string "high")]),
    ("Output", .table [("format", .string "c"), ("Name", .string "low")])]

/-- Two keys that are no tables, and a table with a table inside. -/
def strayKeys : Members :=
  [("title", .string "march"),
    ("song", .table [("notes", .table [("a", .integer 1), ("b", .integer 2)]),
      ("scale", .integer 1)]),
    ("author", .string "anyone")]

/-- The same, from the end. -/
def strayKeysBackwards : Members :=
  [("author", .string "anyone"),
    ("song", .table [("scale", .integer 1),
      ("notes", .table [("b", .integer 2), ("a", .integer 1)])]),
    ("title", .string "march")]

theorem sameMembers_of_reverse {members members' : Members}
    (hnodup : (members.map Prod.fst).Nodup)
    (h : List.Forall₂ SameMember members members'.reverse) : SameMembers members members' :=
  Toml.sameMembers_iff.mpr ⟨hnodup, _, h, List.reverse_perm members'⟩

theorem same_spelledTwice : SameMembers spelledTwice spelledTwiceBackwards := by
  refine sameMembers_of_reverse (by decide) ?_
  refine .cons ⟨rfl, _, rfl, ?_⟩ (.cons ⟨rfl, _, rfl, ?_⟩ .nil)
  · exact sameMembers_of_reverse (by decide) (.cons ⟨rfl, rfl⟩ (.cons ⟨rfl, rfl⟩ .nil))
  · exact sameMembers_of_reverse (by decide) (.cons ⟨rfl, rfl⟩ .nil)

theorem same_strayKeys : SameMembers strayKeys strayKeysBackwards := by
  refine sameMembers_of_reverse (by decide) ?_
  refine .cons ⟨rfl, rfl⟩ (.cons ⟨rfl, _, rfl, ?_⟩ (.cons ⟨rfl, rfl⟩ .nil))
  refine sameMembers_of_reverse (by decide) (.cons ⟨rfl, _, rfl, ?_⟩ (.cons ⟨rfl, rfl⟩ .nil))
  exact sameMembers_of_reverse (by decide) (.cons ⟨rfl, rfl⟩ (.cons ⟨rfl, rfl⟩ .nil))

theorem orderly_spelledTwice : OrderlyTables spelledTwice := by
  intro name members hmem
  simp only [spelledTwice, List.mem_cons, Prod.mk.injEq, Value.table.injEq, List.not_mem_nil,
    or_false] at hmem
  rcases hmem with ⟨-, rfl⟩ | ⟨-, rfl⟩
  · decide
  · decide

theorem orderly_strayKeys : OrderlyTables strayKeys := by
  intro name members hmem
  simp only [strayKeys, List.mem_cons, Prod.mk.injEq, Value.table.injEq, List.not_mem_nil,
    or_false, reduceCtorEq, and_false, false_or] at hmem
  obtain ⟨-, rfl⟩ := hmem
  decide

/-- Of the two names, the one in the table that comes last stands, and the first of the keys
that are no tables is reported, whichever way the documents are listed. -/
theorem toml_read_either_way :
    (SameMembers spelledTwice spelledTwiceBackwards ∧ OrderlyTables spelledTwice ∧
      SameOutcome (ofToml spelledTwice) (ofToml spelledTwiceBackwards) ∧
      ∃ s, ofToml spelledTwiceBackwards = .ok s ∧ s.held? "output" "name" = some "high") ∧
    SameMembers strayKeys strayKeysBackwards ∧ OrderlyTables strayKeys ∧
      SameOutcome (ofToml strayKeys) (ofToml strayKeysBackwards) ∧
      ofToml strayKeys = .error (.coded
        { code := .configSection, message := "top-level key 'author' must be a table" }) := by
  have hsorted := mergeSort_eq_of_ascending (by decide) (List.reverse_perm spelledTwiceBackwards)
    (by decide)
  have hsorted' := mergeSort_eq_of_ascending (by decide) (List.reverse_perm strayKeys) (by decide)
  refine ⟨⟨same_spelledTwice, orderly_spelledTwice,
    toml_order_immaterial same_spelledTwice orderly_spelledTwice, ?_⟩,
    same_strayKeys, orderly_strayKeys,
    toml_order_immaterial same_strayKeys orderly_strayKeys, ?_⟩
  · rw [ofToml, hsorted]
    exact ⟨_, rfl, by decide⟩
  · rw [ofToml, hsorted']
    rfl

end StepTone.Settings
