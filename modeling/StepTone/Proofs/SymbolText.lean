/-
StepTone.Proofs.SymbolText — the characters of array names.

* `checkName_eq_ok_iff`, `isIdentifier_of_checkName` — the names that are accepted.
* `inName_of_isIdentifier` — an identifier is made of letters, digits and underscores.
* `isAlphanum_camelCase` — in camel case only letters and digits are left.
-/
import Mathlib
import StepTone.Listing.Symbol

namespace StepTone.Listing

/-- A letter, a digit or an underscore. -/
def inName (c : Char) : Bool :=
  startsIdentifier c || c.isDigit

theorem isIdentifier_of_checkName {name : String} (h : checkName name = .ok ()) :
    isIdentifier name = true := by
  rw [checkName] at h
  cases hname : isIdentifier name with
  | true => rfl
  | false =>
    rw [hname, Bool.not_false, if_pos rfl] at h
    cases h

/-- A name is accepted if it is an identifier and reserved in neither form. -/
theorem checkName_eq_ok_iff {name : String} :
    checkName name = .ok () ↔
      isIdentifier name = true ∧ name ∉ reserved ∧ camelCase name ∉ reserved := by
  rw [checkName]
  cases hidentifier : isIdentifier name with
  | false => simp
  | true =>
    by_cases hreserved : name ∈ reserved ∨ camelCase name ∈ reserved
    · have hclash : (reserved.contains name || reserved.contains (camelCase name)) = true := by
        simpa using hreserved
      rw [if_neg (by simp), if_pos hclash]
      exact iff_of_false nofun fun h => not_or.mpr h.2 hreserved
    · have hfree : ¬ (reserved.contains name || reserved.contains (camelCase name)) = true := by
        simpa using hreserved
      rw [if_neg (by simp), if_neg hfree]
      exact iff_of_true rfl ⟨rfl, not_or.mp hreserved⟩

theorem inName_of_isIdentifier {name : String} (h : isIdentifier name = true) {c : Char}
    (hc : c ∈ name.toList) : inName c = true := by
  rw [isIdentifier] at h
  cases hlist : name.toList with
  | nil =>
    rw [hlist] at hc
    exact absurd hc List.not_mem_nil
  | cons d rest =>
    rw [hlist] at h hc
    obtain ⟨hfirst, hrest⟩ := Bool.and_eq_true_iff.mp h
    rcases List.mem_cons.mp hc with rfl | hc
    · exact Bool.or_eq_true_iff.mpr (.inl hfirst)
    · exact List.all_eq_true.mp hrest c hc

/-! ## Camel case -/

theorem isAlphanum_of_inName {c : Char} (h : inName c = true) (hc : isSeparator c = false) :
    c.isAlphanum = true := by
  simp only [inName, startsIdentifier, isSeparator, Char.isAlphanum, Bool.or_eq_true,
    Bool.or_eq_false_iff, decide_eq_true_iff, decide_eq_false_iff_not] at h hc ⊢
  rcases h with (hletter | hline) | hdigit
  · exact .inl hletter
  · exact absurd hline hc.1.1
  · exact .inr hdigit

theorem inName_of_isAlphanum {c : Char} (h : c.isAlphanum = true) : inName c = true := by
  simp only [inName, startsIdentifier, Char.isAlphanum, Bool.or_eq_true] at h ⊢
  exact h.imp_left .inl

/-- Letters and digits lie below 128: what holds of them there holds of all. -/
theorem of_isAlphanum {p : Char → Prop}
    (hall : ∀ n < 128, (Char.ofNat n).isAlphanum = true → p (Char.ofNat n)) {c : Char}
    (h : c.isAlphanum = true) : p c := by
  have hlt : c.toNat < 128 := by
    simp only [Char.isAlphanum, Char.isAlpha, Char.isUpper, Char.isLower, Char.isDigit,
      Bool.or_eq_true, Bool.and_eq_true, decide_eq_true_iff] at h
    rw [Char.toNat]
    have hval : c.val ≤ 122 := by
      rcases h with (⟨_, hz⟩ | ⟨_, hz⟩) | ⟨_, hz⟩
      · exact UInt32.le_trans hz (by decide)
      · exact UInt32.le_trans hz (by decide)
      · exact UInt32.le_trans hz (by decide)
    exact Nat.lt_of_le_of_lt (UInt32.le_iff_toNat_le.mp hval) (by decide)
  have hchar := hall c.toNat hlt
  rw [Char.ofNat_toNat] at hchar
  exact hchar h

/-- Letters stay letters when their case changes, and digits stay digits. -/
theorem isAlphanum_changeCase {c : Char} (h : c.isAlphanum = true) :
    (Text.toLower c).isAlphanum = true ∧ (Text.toUpper c).isAlphanum = true :=
  of_isAlphanum (p := fun c => (Text.toLower c).isAlphanum = true ∧
    (Text.toUpper c).isAlphanum = true) (by decide +kernel) h

/-- A word holds what was read of it and characters of the text other than separators. -/
theorem mem_of_mem_wordsFrom {word text w : List Char} {c : Char} (hw : w ∈ wordsFrom word text)
    (hc : c ∈ w) : c ∈ word ∨ c ∈ text ∧ isSeparator c = false := by
  fun_induction wordsFrom word text with
  | case1 word hempty => exact absurd hw List.not_mem_nil
  | case2 word hempty =>
    rw [List.mem_singleton.mp hw] at hc
    exact .inl (List.mem_reverse.mp hc)
  | case3 word d rest hsep hempty ih =>
    rcases ih hw with hnil | ⟨hrest, hplain⟩
    · exact absurd hnil List.not_mem_nil
    · exact .inr ⟨List.mem_cons_of_mem d hrest, hplain⟩
  | case4 word d rest hsep hempty ih =>
    rcases List.mem_cons.mp hw with rfl | hw
    · exact .inl (List.mem_reverse.mp hc)
    · rcases ih hw with hnil | ⟨hrest, hplain⟩
      · exact absurd hnil List.not_mem_nil
      · exact .inr ⟨List.mem_cons_of_mem d hrest, hplain⟩
  | case5 word d rest hsep ih =>
    rcases ih hw with hword | ⟨hrest, hplain⟩
    · rcases List.mem_cons.mp hword with rfl | hword
      · exact .inr ⟨List.mem_cons_self, Bool.eq_false_iff.mpr hsep⟩
      · exact .inl hword
    · exact .inr ⟨List.mem_cons_of_mem d hrest, hplain⟩

theorem isAlphanum_capitalized {word : List Char} (h : ∀ c ∈ word, c.isAlphanum = true) {c : Char}
    (hc : c ∈ capitalized word) : c.isAlphanum = true := by
  cases word with
  | nil => exact absurd hc List.not_mem_nil
  | cons d rest =>
    obtain ⟨hd, hrest⟩ := List.forall_mem_cons.mp h
    rcases List.mem_cons.mp hc with rfl | hc
    · exact (isAlphanum_changeCase hd).2
    · exact hrest c hc

/-- In camel case only letters and digits are left. -/
theorem isAlphanum_camelCase {name : String} (h : isIdentifier name = true) {c : Char}
    (hc : c ∈ (camelCase name).toList) : c.isAlphanum = true := by
  have hwords : ∀ w ∈ wordsFrom [] name.toList, ∀ c ∈ w, c.isAlphanum = true := by
    intro w hw c hc
    rcases mem_of_mem_wordsFrom hw hc with hnil | ⟨hmem, hplain⟩
    · exact absurd hnil List.not_mem_nil
    · exact isAlphanum_of_inName (inName_of_isIdentifier h hmem) hplain
  rw [camelCase] at hc
  cases hlist : wordsFrom [] name.toList with
  | nil =>
    rw [hlist] at hc
    exact List.all_eq_true.mp (by decide : "delayTable".toList.all Char.isAlphanum = true) c hc
  | cons first rest =>
    rw [hlist] at hc hwords
    obtain ⟨hfirst, hrest⟩ := List.forall_mem_cons.mp hwords
    rw [String.toList_ofList] at hc
    rcases List.mem_append.mp hc with hlow | hhigh
    · obtain ⟨d, hd, rfl⟩ := List.mem_map.mp hlow
      exact (isAlphanum_changeCase (hfirst d hd)).1
    · obtain ⟨w, hw, hc⟩ := List.mem_flatMap.mp hhigh
      exact isAlphanum_capitalized (hrest w hw) hc

end StepTone.Listing
