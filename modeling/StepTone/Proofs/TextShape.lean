/-
StepTone.Proofs.TextShape — texts that trimming, lowering and cutting leave as they are.

* `not_mem_intercalate` — a character of no part and not of what joins them.
* `cutAt?_eq_some_iff` — a cut is at the first character of the kind.
* `trimEnd_append_cons`, `trimChars_cons` — a character that is no blank stays.
* `trim_trim`, `trimChars_trimEnd` — blanks taken off twice.
* `lower_eq_self` — small letters of ASCII, digits and signs have no lower case.
-/
import Mathlib.Data.List.DropRight
import StepTone.Text.Blank
import StepTone.Text.Letter
import StepTone.Text.Split

namespace StepTone.Text

/-! ## Joined parts -/

theorem not_mem_intercalate {α : Type} {c : α} {sep : List α} {parts : List (List α)}
    (hsep : c ∉ sep) (hparts : ∀ part ∈ parts, c ∉ part) : c ∉ sep.intercalate parts := by
  induction parts with
  | nil => exact List.not_mem_nil
  | cons part rest ih =>
    obtain ⟨hpart, hrest⟩ := List.forall_mem_cons.mp hparts
    cases rest with
    | nil => rwa [List.intercalate_singleton]
    | cons next more =>
      rw [List.intercalate_cons_cons, List.append_assoc, List.mem_append, List.mem_append]
      rintro (hc | hc | hc)
      · exact hpart hc
      · exact hsep hc
      · exact ih hrest hc

/-! ## Cuts -/

/-- A cut is at the first character of the kind. -/
theorem cutAt?_eq_some_iff {p : Char → Bool} {text before after : List Char} :
    cutAt? p text = some (before, after) ↔
      ∃ c, p c = true ∧ text = before ++ c :: after ∧ ∀ d ∈ before, p d = false := by
  induction text generalizing before with
  | nil => simp [cutAt?]
  | cons a rest ih =>
    cases ha : p a with
    | true =>
      simp only [cutAt?, ha, if_true, Option.some.injEq, Prod.mk.injEq]
      constructor
      · rintro ⟨rfl, rfl⟩
        exact ⟨a, ha, rfl, by simp⟩
      · rintro ⟨c, hc, htext, hbefore⟩
        cases before with
        | nil =>
          obtain ⟨-, rfl⟩ := List.cons.inj htext
          exact ⟨rfl, rfl⟩
        | cons d more =>
          obtain ⟨rfl, -⟩ := List.cons.inj htext
          simp [ha] at hbefore
    | false =>
      simp only [cutAt?, ha, Bool.false_eq_true, if_false, Option.map_eq_some_iff]
      constructor
      · rintro ⟨⟨front, back⟩, hcut, hpair⟩
        obtain ⟨rfl, rfl⟩ := Prod.mk.inj hpair
        obtain ⟨c, hc, rfl, hfront⟩ := ih.mp hcut
        exact ⟨c, hc, rfl, by simpa [ha] using hfront⟩
      · rintro ⟨c, hc, htext, hbefore⟩
        cases before with
        | nil =>
          obtain ⟨rfl, -⟩ := List.cons.inj htext
          simp [ha] at hc
        | cons d more =>
          obtain ⟨rfl, rfl⟩ := List.cons.inj htext
          exact ⟨(more, after), ih.mpr ⟨c, hc, rfl, fun d hd => hbefore d (by simp [hd])⟩, rfl⟩

theorem cutAt?_eq_none_iff {p : Char → Bool} {text : List Char} :
    cutAt? p text = none ↔ ∀ c ∈ text, p c = false := by
  induction text with
  | nil => simp [cutAt?]
  | cons a rest ih =>
    cases ha : p a with
    | true => simp [cutAt?, ha]
    | false => simp [cutAt?, ha, ih]

/-! ## Blanks -/

theorem trimEnd_eq_rdropWhile (cs : List Char) : trimEnd cs = cs.rdropWhile isBlank := rfl

/-- A text that ends in another character than a blank keeps its end. -/
theorem trimEnd_append_cons {c : Char} (hc : isBlank c = false) (before after : List Char) :
    trimEnd (before ++ c :: after) = before ++ c :: trimEnd after := by
  induction after using List.reverseRecOn with
  | nil =>
    rw [trimEnd_eq_rdropWhile, List.rdropWhile_concat_neg _ _ _ (by simp [hc])]
    rfl
  | append_singleton after d ih =>
    simp only [trimEnd_eq_rdropWhile] at ih ⊢
    by_cases hd : isBlank d = true
    · rw [← List.cons_append, ← List.append_assoc, List.rdropWhile_concat_pos _ _ _ hd,
        List.rdropWhile_concat_pos _ _ _ hd, ih]
    · rw [← List.cons_append, ← List.append_assoc, List.rdropWhile_concat_neg _ _ _ hd,
        List.rdropWhile_concat_neg _ _ _ hd]
      simp

theorem trimChars_cons {c : Char} (hc : isBlank c = false) (rest : List Char) :
    trimChars (c :: rest) = c :: trimEnd rest := by
  rw [trimChars, List.dropWhile_cons_of_neg (by simp [hc])]
  exact trimEnd_append_cons hc [] rest

theorem trimChars_cons_blank {c : Char} (hc : isBlank c = true) (rest : List Char) :
    trimChars (c :: rest) = trimChars rest := by
  rw [trimChars, List.dropWhile_cons_of_pos hc, trimChars]

theorem trimEnd_trimEnd (cs : List Char) : trimEnd (trimEnd cs) = trimEnd cs :=
  List.rdropWhile_idempotent _ _

/-- Taking blanks off the end first changes nothing. -/
theorem trimChars_trimEnd (cs : List Char) : trimChars (trimEnd cs) = trimChars cs := by
  induction cs with
  | nil => rfl
  | cons c rest ih =>
    cases hc : isBlank c with
    | false =>
      have hend : trimEnd (c :: rest) = c :: trimEnd rest := trimEnd_append_cons hc [] rest
      rw [hend, trimChars_cons hc, trimChars_cons hc, trimEnd_trimEnd]
    | true =>
      rw [trimChars_cons_blank hc]
      by_cases hrest : trimEnd rest = []
      · -- nothing but blanks
        have hall : ∀ d ∈ rest, isBlank d = true := List.rdropWhile_eq_nil_iff.mp hrest
        have hend : trimEnd (c :: rest) = [] :=
          List.rdropWhile_eq_nil_iff.mpr (by simpa [hc] using hall)
        rw [hend, ← ih, hrest]
      · obtain ⟨d, hd, hblank⟩ : ∃ d ∈ rest, isBlank d = false := by
          by_contra hall
          push Not at hall
          exact hrest (List.rdropWhile_eq_nil_iff.mpr fun d hd => by simpa using hall d hd)
        obtain ⟨before, after, rfl⟩ := List.append_of_mem hd
        have hend : trimEnd (c :: (before ++ d :: after)) =
            c :: trimEnd (before ++ d :: after) := by
          rw [trimEnd_append_cons hblank, ← List.cons_append, trimEnd_append_cons hblank,
            List.cons_append]
        rw [hend, trimChars_cons_blank hc, ih]

theorem trimChars_trimChars (cs : List Char) : trimChars (trimChars cs) = trimChars cs := by
  have hdrop : trimChars (cs.dropWhile isBlank) = trimChars cs := by
    rw [trimChars, List.dropWhile_idempotent, trimChars]
  conv_lhs => rw [trimChars.eq_def cs]
  rw [trimChars_trimEnd, hdrop]

@[simp] theorem trim_trim (s : String) : trim (trim s) = trim s := by
  simp [trim, trimChars_trimChars]

theorem trim_ofList (cs : List Char) : trim (String.ofList cs) = String.ofList (trimChars cs) := by
  simp [trim]

theorem length_trimChars_le (cs : List Char) : (trimChars cs).length ≤ cs.length :=
  (List.rdropWhile_prefix _ _).length_le.trans (List.dropWhile_suffix _).length_le

/-- A text that trimming leaves as it is does not start with a blank. -/
theorem isBlank_of_trimChars_eq_self {c : Char} {rest : List Char}
    (h : trimChars (c :: rest) = c :: rest) : isBlank c = false := by
  cases hc : isBlank c with
  | false => rfl
  | true =>
    have hlength := length_trimChars_le rest
    rw [← trimChars_cons_blank hc, h, List.length_cons] at hlength
    omega

/-! ## Letters -/

/-- The characters of ASCII that are no capitals have no lower case. -/
theorem toLower_eq_self {c : Char} (h : c.toNat < 0x41 ∨ 0x5a < c.toNat ∧ c.toNat < 0xc0) :
    toLower c = c := by
  have hruns : lowerRuns.all
      (fun r => 0x41 ≤ r.first && (r.last ≤ 0x5a || 0xc0 ≤ r.first)) = true := by
    decide +kernel
  have hnone : lowerRuns.find? (·.covers c.toNat) = none := by
    rw [List.find?_eq_none]
    intro r hr
    have hrun := List.all_eq_true.mp hruns r hr
    simp only [Run.covers, Bool.and_eq_true, Bool.or_eq_true, decide_eq_true_eq] at hrun ⊢
    omega
  rw [toLower, moved, hnone]

/-- A text of such characters has no lower case either. -/
theorem lower_eq_self {s : String}
    (h : ∀ c ∈ s.toList, c.toNat < 0x41 ∨ 0x5a < c.toNat ∧ c.toNat < 0xc0) : lower s = s := by
  have hmap : s.toList.map toLower = s.toList.map id :=
    List.map_congr_left fun c hc => toLower_eq_self (h c hc)
  rw [lower, hmap, List.map_id, String.ofList_toList]

end StepTone.Text
