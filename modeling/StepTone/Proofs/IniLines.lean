/-
StepTone.Proofs.IniLines — what a line of an INI text says, in its own terms.

* `IsHeader`, `IsOption` — the shape of a header line and of an option line.
* `readLine_eq_ok_iff` — a line is read as what it says, and an option only in a section.
* `linesFrom_line`, `splitOn_eq_linesFrom` — a text is cut at its line ends.
-/
import StepTone.Proofs.TextShape
import StepTone.Settings.Ini

namespace StepTone.Settings

/-! ## Lines -/

/-- A line is a header with a name: what counts of it stands between brackets, and that is
the name in lower case and without blanks around it. -/
def IsHeader (raw : List Char) (name : String) : Prop :=
  ∃ inside, content raw = '[' :: (inside ++ [']']) ∧
    name = Text.lower (Text.trim (String.ofList inside)) ∧ name ≠ ""

/-- A line is an option with a key and a value: what counts of it is no header, and the
first `:` or `=` in it has the key in front and the value behind, both without blanks
around them. -/
def IsOption (raw : List Char) (key value : String) : Prop :=
  ∃ before sign after, content raw = before ++ sign :: after ∧ (sign = ':' ∨ sign = '=') ∧
    (∀ c ∈ before, c ≠ ':' ∧ c ≠ '=') ∧ before ≠ [] ∧ before.head? ≠ some '[' ∧
    key = Text.trim (String.ofList before) ∧ value = Text.trim (String.ofList after)

/-- What a line says. -/
def Says (raw : List Char) : Line → Prop
  | .blank => content raw = []
  | .header name => IsHeader raw name
  | .option key value => IsOption raw key value

theorem readHeader_eq_ok_iff {inside : List Char} {line : Line} :
    readHeader inside = .ok line ↔ ∃ name, inside = name ++ [']'] ∧
      Text.lower (Text.trim (String.ofList name)) ≠ "" ∧
      line = .header (Text.lower (Text.trim (String.ofList name))) := by
  have hname (cs : List Char) : Text.lower (Text.trim (String.ofList cs)) =
      String.ofList ((Text.trimChars cs).map Text.toLower) := by
    simp [Text.lower, Text.trim]
  simp only [hname]
  rw [readHeader]
  split
  · next cs hcs =>
    obtain rfl : inside = cs.reverse ++ [']'] := by
      rw [← List.reverse_reverse inside, hcs, List.reverse_cons]
    by_cases hempty : Text.trimChars cs.reverse = []
    · simp [hempty]
    · have hok : ((Text.trimChars cs.reverse).map Text.toLower).isEmpty = false := by
        simpa using hempty
      simp only [hok, Bool.false_eq_true, if_false, Except.ok.injEq, List.append_left_inj]
      constructor
      · rintro rfl
        exact ⟨cs.reverse, rfl, by simpa using hempty, rfl⟩
      · rintro ⟨name, rfl, -, rfl⟩
        rfl
  · next hcs =>
    constructor
    · intro h
      cases h
    · rintro ⟨name, rfl, -⟩
      exact absurd (by simp) (hcs name.reverse)

theorem readOption_eq_ok_iff {text : List Char} {line : Line} :
    readOption text = .ok line ↔ ∃ before sign after, text = before ++ sign :: after ∧
      (sign = ':' ∨ sign = '=') ∧ (∀ c ∈ before, c ≠ ':' ∧ c ≠ '=') ∧ before ≠ [] ∧
      line = .option (Text.trim (String.ofList before)) (Text.trim (String.ofList after)) := by
  simp only [Text.trim_ofList]
  rw [readOption]
  split
  · next c key value hcut =>
    obtain ⟨sign, hsign, rfl, hbefore⟩ := Text.cutAt?_eq_some_iff.mp hcut
    constructor
    · intro h
      refine ⟨c :: key, sign, value, rfl, by simpa using hsign, ?_, by simp, ?_⟩
      · intro d hd
        simpa using hbefore d hd
      · exact (Except.ok.inj h).symm
    · rintro ⟨before, sign', after, htext, hsign', hbefore', -, rfl⟩
      have hcut' := Text.cutAt?_eq_some_iff (p := fun c => c = ':' || c = '=').mpr
        ⟨sign', by simpa using hsign', htext, fun d hd => by simpa using hbefore' d hd⟩
      obtain ⟨rfl, rfl⟩ := Prod.mk.inj (Option.some.inj (hcut.symm.trans hcut'))
      rfl
  · next hcut =>
    constructor
    · intro h
      cases h
    · rintro ⟨before, sign, after, rfl, hsign, hbefore, hne, -⟩
      obtain ⟨c, key, rfl⟩ := List.exists_cons_of_ne_nil hne
      exact absurd (Text.cutAt?_eq_some_iff.mpr
        ⟨sign, by simpa using hsign, rfl, fun d hd => by simpa using hbefore d hd⟩)
        (hcut c key after)

/-- A line is read as what it says; options are read in a section only. -/
theorem readLine_eq_ok_iff {inSection : Bool} {raw : List Char} {line : Line} :
    readLine inSection raw = .ok line ↔
      Says raw line ∧ (inSection = false → ∀ key value, line ≠ .option key value) := by
  rw [readLine]
  split
  · next hraw =>
    cases line with
    | blank => simp [Says, hraw]
    | header name => simp [Says, IsHeader, hraw]
    | option key value => simp [Says, IsOption, hraw]
  · next inside hraw =>
    rw [readHeader_eq_ok_iff]
    cases line with
    | blank => simp [Says, hraw]
    | header name =>
      simp only [Says, IsHeader, hraw, List.cons.injEq, true_and, Line.header.injEq]
      constructor
      · rintro ⟨cs, rfl, hne, rfl⟩
        exact ⟨⟨cs, rfl, rfl, hne⟩, by simp⟩
      · rintro ⟨⟨cs, rfl, rfl, hne⟩, -⟩
        exact ⟨cs, rfl, hne, rfl⟩
    | option key value =>
      constructor
      · rintro ⟨_, _, _, h⟩
        cases h
      · rintro ⟨⟨before, sign, after, hcontent, -, -, hne, hhead, -⟩, -⟩
        obtain ⟨c, more, rfl⟩ := List.exists_cons_of_ne_nil hne
        rw [hraw] at hcontent
        obtain ⟨rfl, -⟩ := List.cons.inj hcontent
        simp at hhead
  · next hnil hbracket =>
    cases line with
    | blank =>
      cases inSection with
      | true => simpa [Says, readOption_eq_ok_iff] using hnil
      | false => simpa [Says] using hnil
    | header name =>
      have hno : ¬ IsHeader raw name := by
        rintro ⟨inside, hcontent, -⟩
        exact hbracket _ hcontent
      cases inSection with
      | true => simp [Says, readOption_eq_ok_iff, hno]
      | false => simp [Says, hno]
    | option key value =>
      cases inSection with
      | false => simp
      | true =>
        simp only [if_true, readOption_eq_ok_iff, Says, IsOption, Line.option.injEq,
          Bool.true_eq_false, false_implies, and_true]
        constructor
        · rintro ⟨before, sign, after, hcontent, hsign, hbefore, hne, rfl, rfl⟩
          refine ⟨before, sign, after, hcontent, hsign, hbefore, hne, ?_, rfl, rfl⟩
          obtain ⟨c, more, rfl⟩ := List.exists_cons_of_ne_nil hne
          intro hhead
          obtain rfl : c = '[' := by simpa using hhead
          exact hbracket _ hcontent
        · rintro ⟨before, sign, after, hcontent, hsign, hbefore, hne, -, rfl, rfl⟩
          exact ⟨before, sign, after, hcontent, hsign, hbefore, hne, rfl, rfl⟩

/-- A line says one thing. -/
theorem Says.unique {raw : List Char} {line line' : Line} (h : Says raw line)
    (h' : Says raw line') : line = line' := by
  have hread : readLine true raw = .ok line := readLine_eq_ok_iff.mpr ⟨h, by simp⟩
  have hread' : readLine true raw = .ok line' := readLine_eq_ok_iff.mpr ⟨h', by simp⟩
  exact Except.ok.inj (hread.symm.trans hread')

/-! ## Cutting a text into lines -/

theorem linesFrom_append {part : List Char} (h : '\n' ∉ part) (line rest : List Char) :
    linesFrom line (part ++ rest) = linesFrom (part.reverse ++ line) rest := by
  induction part generalizing line with
  | nil => rfl
  | cons c more ih =>
    obtain ⟨hc, hmore⟩ := not_or.mp (mt List.mem_cons.mpr h)
    rw [List.cons_append, linesFrom, if_neg (Ne.symm hc), ih hmore]
    simp

/-- The first line of a text that has a line end. -/
theorem linesFrom_line {line : List Char} (h : '\n' ∉ line) (rest : List Char) :
    linesFrom [] (line ++ '\n' :: rest) = line :: linesFrom [] rest := by
  rw [linesFrom_append h, linesFrom, if_pos rfl]
  simp

/-- A text is cut at its line ends; what follows the last one is a line unless it is
empty. -/
theorem splitOn_eq_linesFrom (text : List Char) :
    ∃ tail, (tail = [] ∨ tail = [[]]) ∧ text.splitOn '\n' = linesFrom [] text ++ tail := by
  induction hn : text.length using Nat.strongRecOn generalizing text with
  | ind n ih =>
    by_cases hmem : '\n' ∈ text
    · obtain ⟨line, rest, rfl, hline⟩ := List.eq_append_cons_of_mem hmem
      obtain ⟨tail, htail, hrest⟩ := ih rest.length (by simp at hn; omega) rest rfl
      refine ⟨tail, htail, ?_⟩
      rw [List.splitOn_append_cons_self_of_not_mem hline, linesFrom_line hline, hrest,
        List.cons_append]
    · have hlines : linesFrom [] text = if text.isEmpty then [] else [text] := by
        rw [← List.append_nil text, linesFrom_append hmem, linesFrom]
        simp
      rw [List.splitOn_eq_singleton hmem, hlines]
      cases text with
      | nil => exact ⟨[[]], .inr rfl, rfl⟩
      | cons c more => exact ⟨[], .inl rfl, rfl⟩

end StepTone.Settings
