/-
StepTone.Proofs.NamedValues — values that are kept under names, in a list.

Options of a section, members of a document and fields of a record are lists of names with
values. Where each name stands once, what such a list holds does not depend on its order,
and there is one order in which its names ascend.

* `lookup_eq_some_iff`, `perm_of_lookup` — a list and what is found in it.
* `pairwise_mergeSort_by` — a list that is sorted by texts ascends.
* `ascending_mergeSort`, `mergeSort_eq_of_ascending` — the order in which names ascend.
-/
import Mathlib.Data.List.Nodup
import Mathlib.Data.List.Perm.Basic
import Mathlib.Data.String.Basic

namespace StepTone

variable {α : Type} {l l' : List (String × α)}

/-! ## Values by name -/

/-- Where names stand once, looking one up finds every pair. -/
theorem lookup_eq_some_iff (h : (l.map Prod.fst).Nodup) {k : String} {v : α} :
    l.lookup k = some v ↔ (k, v) ∈ l := by
  induction l with
  | nil => simp
  | cons p rest ih =>
    obtain ⟨key, value⟩ := p
    obtain ⟨hkey, hrest⟩ := List.nodup_cons.mp h
    by_cases hk : k = key
    · subst hk
      have hmem : (k, v) ∉ rest := fun hmem => hkey (List.mem_map.mpr ⟨(k, v), hmem, rfl⟩)
      simp [hmem, eq_comm]
    · simp [List.lookup_cons, beq_eq_false_iff_ne.mpr hk, hk, ih hrest]

/-- Lists in which the same is found hold the same, in some order. -/
theorem perm_of_lookup (h : (l.map Prod.fst).Nodup) (h' : (l'.map Prod.fst).Nodup)
    (hlookup : ∀ k, l.lookup k = l'.lookup k) : l.Perm l' := by
  refine (List.perm_ext_iff_of_nodup (.of_map _ h) (.of_map _ h')).mpr ?_
  rintro ⟨k, v⟩
  rw [← lookup_eq_some_iff h, hlookup, lookup_eq_some_iff h']

/-- Dropping a name hides no other. -/
theorem lookup_filter_ne {name other : String} (h : other ≠ name) :
    (l.filter (·.1 ≠ name)).lookup other = l.lookup other := by
  induction l with
  | nil => rfl
  | cons p rest ih =>
    obtain ⟨key, value⟩ := p
    by_cases hkey : key = name
    · subst hkey
      rw [List.filter_cons_of_neg (by simp), ih, List.lookup_cons, beq_false_of_ne h]
    · rw [List.filter_cons_of_pos (by simpa using hkey), List.lookup_cons, List.lookup_cons, ih]

/-! ## Names in ascending order -/

/-- A list that is sorted by texts is in ascending order of them. -/
theorem pairwise_mergeSort_by {β : Type} (text : β → String) (l : List β) :
    (l.mergeSort fun a b => decide (text a ≤ text b)).Pairwise (text · ≤ text ·) := by
  have htrans (a b c : β) (hab : decide (text a ≤ text b) = true)
      (hbc : decide (text b ≤ text c) = true) : decide (text a ≤ text c) = true := by
    simp only [decide_eq_true_eq] at hab hbc ⊢
    exact le_trans hab hbc
  have htotal (a b : β) : (decide (text a ≤ text b) || decide (text b ≤ text a)) = true := by
    simpa using le_total (text a) (text b)
  simpa using List.pairwise_mergeSort htrans htotal l

theorem ascending_mergeSort (h : (l.map Prod.fst).Nodup) :
    ((l.mergeSort fun a b => decide (a.1 ≤ b.1)).map Prod.fst).Pairwise (· < ·) := by
  have hsorted := List.mergeSort_perm l fun a b => decide (a.1 ≤ b.1)
  have hnodup := (hsorted.map Prod.fst).nodup_iff.mpr h
  exact (List.pairwise_map.mpr (pairwise_mergeSort_by Prod.fst l)).imp₂
    (fun a b hle hne => lt_of_le_of_ne hle hne) hnodup

/-- There is one order in which names that stand once ascend. -/
theorem mergeSort_eq_of_ascending {order : List (String × α)} (h : (l.map Prod.fst).Nodup)
    (hperm : order.Perm l) (hascending : (order.map Prod.fst).Pairwise (· < ·)) :
    l.mergeSort (fun a b => decide (a.1 ≤ b.1)) = order := by
  have hsorted := List.mergeSort_perm l fun a b => decide (a.1 ≤ b.1)
  refine List.Perm.eq_of_pairwise (fun a b ha hb hab hba => ?_)
    (pairwise_mergeSort_by Prod.fst l) ((List.pairwise_map.mp hascending).imp le_of_lt)
    (hsorted.trans hperm.symm)
  exact List.inj_on_of_nodup_map h (hsorted.mem_iff.mp ha) (hperm.mem_iff.mp hb)
    (le_antisymm hab hba)

/-- Where names stand once, sorting by them forgets the order that the list had. -/
theorem mergeSort_eq_of_perm (h : (l.map Prod.fst).Nodup) (hperm : l.Perm l') :
    l.mergeSort (fun a b => decide (a.1 ≤ b.1)) =
      l'.mergeSort (fun a b => decide (a.1 ≤ b.1)) := by
  have h' : (l'.map Prod.fst).Nodup := (hperm.map Prod.fst).nodup_iff.mp h
  have hsorted := List.mergeSort_perm l' fun a b => decide (a.1 ≤ b.1)
  exact mergeSort_eq_of_ascending h (hsorted.trans hperm.symm) (ascending_mergeSort h')

end StepTone
