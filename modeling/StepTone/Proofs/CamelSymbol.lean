/-
StepTone.Proofs.CamelSymbol — which names stay identifiers in camel case.

A name is looked at twice before it is accepted: as it is given it must be an identifier,
and in neither form may it be a reserved word. Whether its camel case is an identifier is
not asked. That form is made of letters and digits, so all hangs on the character that it
begins with: underscores in front of a name are dropped, and a digit that stood behind them
comes first.

* `leadsWithDigit` — the first character other than an underscore is a digit.
* `head?_wordsFrom`, `head?_camelCase` — the character that the camel case begins with.
* `camelCase_legal_iff` — which accepted names give a legal symbol.
* `ordinal_is_no_symbol` — a name that is accepted and gives none.
-/
import StepTone.Listing.Render
import StepTone.Proofs.SymbolText

namespace StepTone.Listing

/-- The first character of a name other than an underscore is a digit. -/
def leadsWithDigit (name : String) : Bool :=
  (name.toList.find? (· ≠ '_')).any Char.isDigit

/-! ## The first word -/

theorem ne_nil_of_mem_wordsFrom {word text w : List Char} (hw : w ∈ wordsFrom word text) :
    w ≠ [] := by
  fun_induction wordsFrom word text with
  | case1 word hempty => exact absurd hw List.not_mem_nil
  | case2 word hempty =>
    rw [List.mem_singleton.mp hw]
    simpa using hempty
  | case3 word d rest hsep hempty ih => exact ih hw
  | case4 word d rest hsep hempty ih =>
    rcases List.mem_cons.mp hw with rfl | hw
    · simpa using hempty
    · exact ih hw
  | case5 word d rest hsep ih => exact ih hw

/-- The first word begins where the word being read began, or else at the first character
that is no separator. -/
theorem head?_wordsFrom (word text : List Char) :
    (wordsFrom word text).head?.bind List.head? =
      word.getLast?.or (text.find? fun c => !isSeparator c) := by
  fun_induction wordsFrom word text with
  | case1 word hempty => simp [List.isEmpty_iff.mp hempty]
  | case2 word hempty => simp
  | case3 word d rest hsep hempty ih => simp [ih, List.isEmpty_iff.mp hempty, hsep]
  | case4 word d rest hsep hempty ih =>
    obtain ⟨c, more, rfl⟩ := List.exists_cons_of_ne_nil (by simpa using hempty)
    simp [List.getLast?_cons]
  | case5 word d rest hsep ih =>
    rw [ih, List.getLast?_cons, List.find?_cons_of_pos (by simpa using hsep)]
    cases word.getLast? with
    | none => rfl
    | some c => rfl

/-- The camel case begins with the lower case of that character; a name without words has
one that begins with a letter. -/
theorem head?_camelCase (name : String) : (camelCase name).toList.head? =
    some (((name.toList.find? fun c => !isSeparator c).map Text.toLower).getD 'd') := by
  have hfirst := head?_wordsFrom [] name.toList
  rw [List.getLast?_nil, Option.none_or] at hfirst
  rw [camelCase, ← hfirst]
  cases hwords : wordsFrom [] name.toList with
  | nil => rfl
  | cons first rest =>
    have hne : first ≠ [] := ne_nil_of_mem_wordsFrom (hwords ▸ List.mem_cons_self)
    obtain ⟨c, more, rfl⟩ := List.exists_cons_of_ne_nil hne
    simp

/-! ## Identifiers -/

/-- Of the separators an identifier has only the underscore. -/
theorem find?_separator {name : String} (h : isIdentifier name = true) :
    (name.toList.find? fun c => !isSeparator c) = name.toList.find? (· ≠ '_') := by
  refine List.find?_congr fun c hc => ?_
  have hname := inName_of_isIdentifier h hc
  by_cases hline : c = '_'
  · simp [isSeparator, hline]
  · have hplain : isSeparator c = false := by
      simp only [isSeparator, hline, decide_false, Bool.false_or, Bool.or_eq_false_iff,
        decide_eq_false_iff_not]
      constructor
      · rintro rfl
        exact absurd hname (by decide)
      · rintro rfl
        exact absurd hname (by decide)
    simp [hplain, hline]

theorem startsIdentifier_toLower {c : Char} (h : c.isAlphanum = true) :
    startsIdentifier (Text.toLower c) = !c.isDigit :=
  of_isAlphanum (p := fun c => startsIdentifier (Text.toLower c) = !c.isDigit)
    (by decide +kernel) h

/-- The camel case of an identifier is made of letters and digits, so it is an identifier
unless it begins with a digit. -/
theorem isIdentifier_camelCase {name : String} (h : isIdentifier name = true) :
    isIdentifier (camelCase name) = !leadsWithDigit name := by
  have hhead := head?_camelCase name
  rw [find?_separator h] at hhead
  obtain ⟨c, rest, hlist⟩ : ∃ c rest, (camelCase name).toList = c :: rest :=
    List.exists_cons_of_ne_nil fun hnil => by simp [hnil] at hhead
  have hrest : (rest.all fun d => startsIdentifier d || d.isDigit) = true :=
    List.all_eq_true.mpr fun d hd => inName_of_isAlphanum
      (isAlphanum_camelCase h (hlist ▸ List.mem_cons_of_mem c hd))
  rw [hlist, List.head?_cons, Option.some.injEq] at hhead
  rw [isIdentifier, hlist]
  simp only [hrest, Bool.and_true, hhead, leadsWithDigit]
  cases hfind : name.toList.find? (· ≠ '_') with
  | none => rfl
  | some d =>
    have hmem := List.mem_of_find?_eq_some hfind
    rw [← find?_separator h] at hfind
    have hplain : isSeparator d = false := by simpa using List.find?_some hfind
    exact startsIdentifier_toLower (isAlphanum_of_inName (inName_of_isIdentifier h hmem) hplain)

/-! ## The symbol of a listing -/

/-- An accepted name in camel case is no reserved word, and it is an identifier exactly
where the name does not lead with a digit. This is the symbol that a listing of the format
declares. -/
theorem camelCase_legal_iff {name : String} (h : checkName name = .ok ()) :
    camelCase name ∉ reserved ∧
    (isIdentifier (camelCase name) = true ↔ leadsWithDigit name = false) ∧
    ∀ (l : Layout) (t : Table Float) (s : Option (Song.Sequence Float)), l.name = name →
      l.format = .go → ∃ before after, render l t s =
        .ok (before ++ "var " ++ camelCase name ++ " = [" ++ after) := by
  obtain ⟨hidentifier, -, hfree⟩ := checkName_eq_ok_iff.mp h
  refine ⟨hfree, ?_, ?_⟩
  · rw [isIdentifier_camelCase hidentifier]
    simp
  · rintro l t s rfl hformat
    refine ⟨summaryText l t.bounds "// ", ?_⟩
    simp only [render, hformat, renderGo, String.append_assoc]
    exact ⟨_, rfl⟩

/-- Underscores, a keyword and a digit in one name, and a symbol all the same. -/
theorem camelCase_legal_behind_underscores :
    checkName "__go_2x" = .ok () ∧ camelCase "__go_2x" = "go2x" ∧
    camelCase "__go_2x" ∉ reserved ∧ isIdentifier (camelCase "__go_2x") = true := by
  have hchecked : checkName "__go_2x" = .ok () := rfl
  obtain ⟨hfree, hlegal, -⟩ := camelCase_legal_iff hchecked
  exact ⟨hchecked, by decide, hfree, hlegal.mpr (by decide)⟩

/-- A name that is accepted and becomes a number. -/
theorem ordinal_is_no_symbol :
    checkName "_1" = .ok () ∧ camelCase "_1" = "1" ∧ isIdentifier (camelCase "_1") = false :=
  ⟨rfl, by decide, by decide⟩

end StepTone.Listing
