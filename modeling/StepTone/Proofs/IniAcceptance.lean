/-
StepTone.Proofs.IniAcceptance — which INI texts are refused, and at which line.

Whether a line is in order depends on what stands in it and on one thing before it: an
option needs a header somewhere above. A text is read until the first line that is not in
order, and that line is reported by its number; comments and blank lines count.

* `Malformed` — what can be wrong with a line, in its own terms.
* `malformed_of_readLine`, `readLine_ne_ok` — the reading of a line fails exactly there.
* `BrokenAt`, `takeLines_eq_error`, `takeLines_eq_ok_unbroken` — the same along the lines.
* `readLineAt` — a line read by positions, each of which could lie outside of it.
* `ofIni_refuses_malformed` — the whole text.
-/
import Mathlib.Algebra.Ring.Nat
import StepTone.Proofs.IniMeaning

namespace StepTone.Settings

/-! ## Malformed lines -/

/-- What counts of the line is not blank and opens no header. -/
def OptionLine (raw : List Char) : Prop :=
  content raw ≠ [] ∧ (content raw).head? ≠ some '['

/-- Something is wrong with a line, where `headed` tells that a header stands before it. -/
inductive Malformed (headed : Prop) (raw : List Char) : LineFault → Prop where
  /-- A header is opened and not closed. -/
  | unterminated : (content raw).head? = some '[' → (content raw).getLast? ≠ some ']' →
      Malformed headed raw .unterminatedHeader
  /-- There are at most blanks in a header. -/
  | empty (inside : List Char) : content raw = '[' :: (inside ++ [']']) →
      Text.trim (String.ofList inside) = "" → Malformed headed raw .emptyHeader
  /-- An option stands before any header. -/
  | outside : OptionLine raw → ¬ headed → Malformed headed raw .outsideSection
  /-- An option has neither of the signs that end a key. -/
  | unsigned : OptionLine raw → (∀ c ∈ content raw, c ≠ ':' ∧ c ≠ '=') →
      Malformed headed raw (.noKey (String.ofList (content raw)))
  /-- An option begins with such a sign. -/
  | keyless : ((content raw).head? = some ':' ∨ (content raw).head? = some '=') →
      Malformed headed raw (.noKey (String.ofList (content raw)))

variable {headed : Prop} {inSection : Bool} {raw : List Char} {fault : LineFault} {line : Line}

theorem Malformed.content_ne_nil (h : Malformed headed raw fault) : content raw ≠ [] := by
  intro hblank
  cases h with
  | unterminated hopens _ => simp [hblank] at hopens
  | empty inside hcontent _ => simp [hblank] at hcontent
  | outside hoption _ => exact hoption.1 hblank
  | unsigned hoption _ => exact hoption.1 hblank
  | keyless hfirst => simp [hblank] at hfirst

theorem readHeader_eq_error {inside : List Char} (h : readHeader inside = .error fault) :
    fault = .unterminatedHeader ∧ inside.getLast? ≠ some ']' ∨
    fault = .emptyHeader ∧
      ∃ name, inside = name ++ [']'] ∧ Text.trim (String.ofList name) = "" := by
  rw [readHeader] at h
  split at h
  · next cs hcs =>
    have hinside : inside = cs.reverse ++ [']'] := by
      rw [← List.reverse_reverse inside, hcs, List.reverse_cons]
    dsimp only at h
    split at h
    · next hempty =>
      refine .inr ⟨(Except.error.inj h).symm, cs.reverse, hinside, ?_⟩
      rw [Text.trim_ofList]
      simpa using hempty
    · cases h
  · next hcs =>
    refine .inl ⟨(Except.error.inj h).symm, fun hlast => ?_⟩
    rw [← List.head?_reverse, List.head?_eq_some_iff] at hlast
    obtain ⟨cs, hreverse⟩ := hlast
    exact hcs cs hreverse

theorem readOption_eq_error {text : List Char} (h : readOption text = .error fault) :
    fault = .noKey (String.ofList text) ∧
      ((∀ c ∈ text, c ≠ ':' ∧ c ≠ '=') ∨ text.head? = some ':' ∨ text.head? = some '=') := by
  rw [readOption] at h
  split at h
  · cases h
  · next hcut =>
    refine ⟨(Except.error.inj h).symm, ?_⟩
    cases hparts : Text.cutAt? (fun c => c = ':' || c = '=') text with
    | none =>
      refine .inl fun c hc => ?_
      simpa using Text.cutAt?_eq_none_iff.mp hparts c hc
    | some parts =>
      obtain ⟨before, after⟩ := parts
      obtain ⟨sign, hsign, rfl, -⟩ := Text.cutAt?_eq_some_iff.mp hparts
      cases before with
      | nil => exact .inr (by simpa using hsign)
      | cons c key => exact absurd hparts (hcut c key after)

/-- A line that cannot be read is malformed, with the fault that is reported. -/
theorem malformed_of_readLine (h : readLine inSection raw = .error fault) :
    Malformed (inSection = true) raw fault := by
  rw [readLine] at h
  split at h
  · cases h
  · next inside hraw =>
    have hopens : (content raw).head? = some '[' := by rw [hraw, List.head?_cons]
    rcases readHeader_eq_error h with ⟨rfl, hlast⟩ | ⟨rfl, name, rfl, hname⟩
    · refine .unterminated hopens ?_
      rw [hraw, List.getLast?_cons]
      cases hinside : inside.getLast? with
      | none => simp
      | some c => simpa [hinside] using hlast
    · exact .empty name hraw hname
  · next hnil hbracket =>
    have hoption : OptionLine raw := by
      refine ⟨hnil, fun hhead => ?_⟩
      obtain ⟨inside, hinside⟩ := List.head?_eq_some_iff.mp hhead
      exact hbracket inside hinside
    cases inSection with
    | false =>
      obtain rfl := Except.error.inj h
      exact .outside hoption (by simp)
    | true =>
      obtain ⟨rfl, hfree | hfirst⟩ := readOption_eq_error h
      · exact .unsigned hoption hfree
      · exact .keyless hfirst

/-- A malformed line cannot be read. -/
theorem readLine_ne_ok (h : Malformed (inSection = true) raw fault) :
    readLine inSection raw ≠ .ok line := by
  intro hread
  obtain ⟨hsaid, hinside⟩ := readLine_eq_ok_iff.mp hread
  cases line with
  | blank => exact h.content_ne_nil hsaid
  | header name =>
    obtain ⟨inside, hcontent, rfl, hname⟩ : IsHeader raw name := hsaid
    have hopens : (content raw).head? = some '[' := by rw [hcontent, List.head?_cons]
    cases h with
    | unterminated _ hlast =>
      rw [hcontent] at hlast
      exact hlast (List.getLast?_concat (l := '[' :: inside))
    | empty inside' hcontent' hempty =>
      rw [hcontent, List.cons.injEq, List.append_left_inj] at hcontent'
      obtain ⟨-, rfl⟩ := hcontent'
      exact hname (by rw [hempty]; rfl)
    | outside hoption _ => exact hoption.2 hopens
    | unsigned hoption _ => exact hoption.2 hopens
    | keyless hfirst => simp [hopens] at hfirst
  | option key value =>
    obtain ⟨before, sign, after, hcontent, hsign, hbefore, hne, hbracket, -, -⟩ :
      IsOption raw key value := hsaid
    obtain ⟨c, more, rfl⟩ := List.exists_cons_of_ne_nil hne
    have hhead : (content raw).head? = some c := by rw [hcontent]; rfl
    cases h with
    | unterminated hopens _ => exact hbracket (hhead.symm.trans hopens)
    | empty inside hcontent' _ =>
      exact hbracket (hhead.symm.trans (by rw [hcontent', List.head?_cons]))
    | outside _ hunheaded => exact hinside (by simpa using hunheaded) key value rfl
    | unsigned _ hfree =>
      have hmem : sign ∈ content raw := by simp [hcontent]
      exact hsign.elim (hfree sign hmem).1 (hfree sign hmem).2
    | keyless hfirst =>
      have hc := hbefore c List.mem_cons_self
      simp [hhead, hc.1, hc.2] at hfirst

/-! ## Along the lines -/

/-- A line of many is malformed; `headed` tells that a header stands before the first of
them. -/
def BrokenAt (headed : Prop) (raws : List (List Char)) (i : Nat) (fault : LineFault) : Prop :=
  ∃ raw, raws[i]? = some raw ∧
    Malformed (headed ∨ ∃ j < i, ∃ name before, raws[j]? = some before ∧ IsHeader before name)
      raw fault

theorem brokenAt_zero {rest : List (List Char)} :
    BrokenAt headed (raw :: rest) 0 fault ↔ Malformed headed raw fault := by
  simp [BrokenAt]

theorem brokenAt_succ {rest : List (List Char)} {i : Nat} :
    BrokenAt headed (raw :: rest) (i + 1) fault ↔
      BrokenAt (headed ∨ ∃ name, IsHeader raw name) rest i fault := by
  have hheaded : (∃ j < i + 1, ∃ name before, (raw :: rest)[j]? = some before ∧
      IsHeader before name) ↔ (∃ name, IsHeader raw name) ∨
      ∃ j < i, ∃ name before, rest[j]? = some before ∧ IsHeader before name := by
    rw [Nat.exists_lt_succ_left]
    simp
  simp only [BrokenAt, List.getElem?_cons_succ, hheaded, or_assoc]

/-- A block is open once a header has been read. -/
theorem isSome_block_take {d : Draft} (hsaid : Says raw line) :
    (d.take line).block.isSome = true ↔
      d.block.isSome = true ∨ ∃ name, IsHeader raw name := by
  have hheader : (∃ name, IsHeader raw name) ↔ ∃ name, line = .header name := by
    refine exists_congr fun name => ⟨fun h => ?_, fun h => ?_⟩
    · exact hsaid.unique (show Says raw (.header name) from h)
    · rw [h] at hsaid
      exact hsaid
  rw [hheader]
  cases line with
  | blank => simp [Draft.take]
  | header name => simp [Draft.take]
  | option key value => simp [Draft.take]

/-- What is wrong after a line that could be read is wrong for the draft with that line. -/
theorem brokenAt_of_readLine {d : Draft} (hline : readLine d.block.isSome raw = .ok line)
    (rest : List (List Char)) (i : Nat) (fault : LineFault) :
    BrokenAt (d.block.isSome = true) (raw :: rest) i fault ↔
      ∃ k, i = k + 1 ∧ BrokenAt ((d.take line).block.isSome = true) rest k fault := by
  cases i with
  | zero =>
    rw [brokenAt_zero]
    refine iff_of_false (fun h => readLine_ne_ok h hline) ?_
    rintro ⟨k, hk, -⟩
    omega
  | succ k =>
    rw [brokenAt_succ, isSome_block_take (readLine_eq_ok_iff.mp hline).1]
    simp

/-- Lines that are taken in are all in order. -/
theorem takeLines_eq_ok_unbroken {d : Draft} {number : Nat} {raws : List (List Char)}
    {s : Settings} (h : takeLines d number raws = .ok s) (i : Nat) (fault : LineFault) :
    ¬ BrokenAt (d.block.isSome = true) raws i fault := by
  fun_induction takeLines d number raws generalizing i with
  | case1 d number => simp [BrokenAt]
  | case2 => cases h
  | case3 => cases h
  | case4 d number raw rest hshort line hline ih =>
    rw [brokenAt_of_readLine hline]
    rintro ⟨k, -, hbroken⟩
    exact ih h k hbroken

/-- Short lines are refused at the first one that is not in order. -/
theorem takeLines_eq_error {d : Draft} {number : Nat} {raws : List (List Char)} {e : IniFault}
    (hshort : ∀ raw ∈ raws, byteLength raw < lineLimit)
    (h : takeLines d number raws = .error e) :
    ∃ i fault, e = .line (number + i) fault ∧
      BrokenAt (d.block.isSome = true) raws i fault ∧
      ∀ j < i, ∀ other, ¬ BrokenAt (d.block.isSome = true) raws j other := by
  fun_induction takeLines d number raws with
  | case1 d number => cases h
  | case2 d number raw rest hlong =>
    exact absurd (hshort raw List.mem_cons_self) (Nat.not_lt.mpr hlong)
  | case3 d number raw rest _ fault hline =>
    obtain rfl := Except.error.inj h
    exact ⟨0, fault, rfl, brokenAt_zero.mpr (malformed_of_readLine hline),
      fun j hj => absurd hj j.not_lt_zero⟩
  | case4 d number raw rest _ line hline ih =>
    obtain ⟨i, fault, rfl, hbroken, hfirst⟩ :=
      ih (fun raw hraw => hshort raw (List.mem_cons_of_mem _ hraw)) h
    refine ⟨i + 1, fault, by rw [Nat.add_right_comm, Nat.add_assoc],
      (brokenAt_of_readLine hline _ _ _).mpr ⟨i, rfl, hbroken⟩, fun j hj other => ?_⟩
    rw [brokenAt_of_readLine hline]
    rintro ⟨k, rfl, hbefore⟩
    exact hfirst k (by omega) other hbefore

/-! ## The lines of a text -/

theorem byteLength_eq (cs : List Char) : byteLength cs = (String.ofList cs).utf8ByteSize := by
  induction cs with
  | nil => rfl
  | cons c rest ih =>
    change c.utf8Size + byteLength rest = _
    simp [ih]

/-- An empty line at the end changes nothing. -/
theorem takeLines_concat_nil (d : Draft) (number : Nat) (raws : List (List Char)) :
    takeLines d number (raws ++ [[]]) = takeLines d number raws := by
  fun_induction takeLines d number raws with
  | case1 d number =>
    have hblank : readLine d.block.isSome [] = .ok .blank := rfl
    rw [List.nil_append, takeLines, if_neg (by decide), hblank]
    rfl
  | case2 d number raw rest hlong => rw [List.cons_append, takeLines, if_pos hlong]
  | case3 d number raw rest hshort fault hline =>
    rw [List.cons_append, takeLines, if_neg hshort, hline]
  | case4 d number raw rest hshort line hline ih =>
    rw [List.cons_append, takeLines, if_neg hshort, hline]
    exact ih

theorem ofIni_eq_takeLines (text : String) :
    ofIni text = takeLines {} 1 (text.toList.splitOn '\n') := by
  obtain ⟨tail, rfl | rfl, hsplit⟩ := splitOn_eq_linesFrom text.toList
  · rw [hsplit, List.append_nil, ofIni]
  · rw [hsplit, takeLines_concat_nil, ofIni]

/-- Each line takes up a character at least, the one that has been begun apart. -/
theorem length_linesFrom_le (begun text : List Char) :
    (linesFrom begun text).length ≤ text.length + if begun.isEmpty then 0 else 1 := by
  fun_induction linesFrom begun text with
  | case1 begun hempty => simp
  | case2 begun hempty => simp [hempty]
  | case3 begun rest ih =>
    simp only [List.isEmpty_nil, if_true] at ih
    simp only [List.length_cons]
    omega
  | case4 begun c rest hc ih =>
    simp only [List.isEmpty_cons, Bool.false_eq_true, if_false] at ih
    simp only [List.length_cons]
    omega

/-- Line `i` of a text, counted from zero, is malformed. -/
def Broken (text : String) (i : Nat) (fault : LineFault) : Prop :=
  ∃ raw, (text.toList.splitOn '\n')[i]? = some raw ∧
    Malformed (∃ j < i, ∃ name, (Outline.ofText text).header j name) raw fault

theorem broken_iff {text : String} {i : Nat} :
    Broken text i fault ↔
      BrokenAt (({} : Draft).block.isSome = true) (text.toList.splitOn '\n') i fault := by
  simp [Broken, BrokenAt, Outline.ofText]

/-- A text has a character for each line up to one that is malformed. -/
theorem lt_length_of_broken {text : String} {i : Nat} (h : Broken text i fault) :
    i < text.length := by
  obtain ⟨raw, hraw, hmalformed⟩ := h
  obtain ⟨tail, htail, hsplit⟩ := splitOn_eq_linesFrom text.toList
  have hlines : i < (linesFrom [] text.toList).length := by
    by_contra hbeyond
    rw [hsplit, List.getElem?_append_right (Nat.not_lt.mp hbeyond)] at hraw
    have hempty : raw = [] := by
      rcases htail with rfl | rfl
      · simp at hraw
      · simpa using List.mem_of_getElem? hraw
    exact hmalformed.content_ne_nil (by rw [hempty]; rfl)
  have hlength := length_linesFrom_le [] text.toList
  rw [String.length_toList] at hlength
  exact hlines.trans_le hlength

/-! ## Reading by positions -/

/-- The characters from one position up to another, where the line reaches that far. -/
def slice? (cs : List Char) (first last : Nat) : Option (List Char) :=
  if first ≤ last ∧ last ≤ cs.length then some ((cs.take last).drop first) else none

/-- What counts of a line, its comment cut off at the position of the sign. -/
def contentAt (line : List Char) : Option (List Char) :=
  match line.findIdx? (· = '#') with
  | some i => (slice? line 0 i).map Text.trimChars
  | none => some (Text.trimChars line)

/-- A header, cut out between the first position and the last. -/
def readHeaderAt (text : List Char) : Option (Except LineFault Line) :=
  if text.getLast? = some ']' then
    (slice? text 1 (text.length - 1)).map fun inside =>
      let name := Text.lower (Text.trim (String.ofList inside))
      if name = "" then .error .emptyHeader else .ok (.header name)
  else some (.error .unterminatedHeader)

/-- An option, cut in two at the position of the first sign. -/
def readOptionAt (text : List Char) : Option (Except LineFault Line) :=
  match text.findIdx? fun c => c = ':' || c = '=' with
  | some (i + 1) => do
    let key ← slice? text 0 (i + 1)
    let value ← slice? text (i + 2) text.length
    return .ok (.option (Text.trim (String.ofList key)) (Text.trim (String.ofList value)))
  | _ => some (.error (.noKey (String.ofList text)))

/-- A line read by positions; nothing comes back where one of them lies outside of it. -/
def readLineAt (inSection : Bool) (line : List Char) : Option (Except LineFault Line) := do
  let text ← contentAt line
  if text = [] then return .ok .blank
  else if text.head? = some '[' then readHeaderAt text
  else if inSection then readOptionAt text
  else return .error .outsideSection

theorem slice?_eq_some {cs : List Char} {first last : Nat} (h : first ≤ last ∧ last ≤ cs.length) :
    slice? cs first last = some ((cs.take last).drop first) :=
  if_pos h

theorem cutAt?_eq_map (p : Char → Bool) (text : List Char) :
    Text.cutAt? p text = (text.findIdx? p).map fun i => (text.take i, text.drop (i + 1)) := by
  induction text with
  | nil => rfl
  | cons c rest ih =>
    rw [Text.cutAt?, List.findIdx?_cons, ih]
    cases p c with
    | true => simp
    | false => simp [Function.comp_def]

theorem contentAt_eq (line : List Char) : contentAt line = some (content line) := by
  have hcut : line.takeWhile (· ≠ '#') = line.take (line.findIdx (· = '#')) := by
    rw [List.takeWhile_eq_take_findIdx_not]
    simp
  rw [contentAt, content, hcut]
  cases hsign : line.findIdx? (· = '#') with
  | none =>
    rw [List.findIdx_eq_length_of_false (by simpa using hsign), List.take_length]
  | some i =>
    obtain ⟨hlt, rfl⟩ := List.findIdx?_eq_some_iff_findIdx_eq.mp hsign
    exact congrArg (Option.map Text.trimChars) (slice?_eq_some ⟨Nat.zero_le _, hlt.le⟩)

/-- A header that is closed, by the name that it gives. -/
theorem readHeader_concat (inside : List Char) : readHeader (inside ++ [']']) =
    if Text.lower (Text.trim (String.ofList inside)) = "" then .error .emptyHeader
    else .ok (.header (Text.lower (Text.trim (String.ofList inside)))) := by
  have hname : Text.lower (Text.trim (String.ofList inside)) =
      String.ofList ((Text.trimChars inside).map Text.toLower) := by
    simp [Text.lower, Text.trim]
  rw [readHeader, List.reverse_concat, hname]
  simp

theorem readHeaderAt_eq (inside : List Char) :
    readHeaderAt ('[' :: inside) = some (readHeader inside) := by
  rw [readHeaderAt]
  rcases List.eq_nil_or_concat inside with rfl | ⟨name, last, rfl⟩
  · rfl
  · rw [List.concat_eq_append, List.getLast?_cons, List.getLast?_concat]
    by_cases hlast : last = ']'
    · subst hlast
      rw [readHeader_concat, slice?_eq_some (by simp)]
      simp
    · rw [readHeader, List.reverse_concat]
      simp [hlast]

theorem readOptionAt_eq (text : List Char) : readOptionAt text = some (readOption text) := by
  rw [readOptionAt, readOption, cutAt?_eq_map]
  cases hsign : text.findIdx? fun c => c = ':' || c = '=' with
  | none => rfl
  | some i =>
    cases i with
    | zero => rfl
    | succ i =>
      obtain ⟨hlt, -⟩ := List.findIdx?_eq_some_iff_findIdx_eq.mp hsign
      obtain ⟨c, rest, rfl⟩ := List.exists_cons_of_length_pos (Nat.zero_lt_of_lt hlt)
      have hkey : slice? (c :: rest) 0 (i + 1) = some (c :: rest.take i) :=
        slice?_eq_some ⟨Nat.zero_le _, hlt.le⟩
      have hvalue : slice? (c :: rest) (i + 2) (c :: rest).length = some (rest.drop (i + 1)) := by
        rw [slice?_eq_some ⟨hlt, le_rfl⟩, List.take_length, List.drop_succ_cons]
      simp only [hkey, hvalue, Text.trim_ofList]
      rfl

/-- No position lies outside of the line, and what is read is the same. -/
theorem readLineAt_eq (inSection : Bool) (line : List Char) :
    readLineAt inSection line = some (readLine inSection line) := by
  rw [readLineAt, contentAt_eq, readLine, Option.bind_eq_bind, Option.bind_some]
  cases content line with
  | nil => rfl
  | cons c rest =>
    by_cases hc : c = '['
    · subst hc
      exact readHeaderAt_eq rest
    · cases inSection with
      | true => simpa [hc] using readOptionAt_eq (c :: rest)
      | false => simp [hc]

/-! ## The whole text -/

/-- The fault is that of a file, and tells the number of a line. -/
def TellsLine (f : Fault) (number : Nat) : Prop :=
  ∃ label, f.label? = some label ∧ label.code = .configFile ∧
    label.context = [("line", .int (Int64.ofInt number))]

/-- A text of short lines is refused exactly where one of its lines is malformed. The fault
is then that of the first such line, and tells its number, counted from one; in a text that
can be stored, a word keeps that number. And no line is ever cut outside of its ends. -/
theorem ofIni_refuses_malformed (text : String)
    (hshort : ∀ raw ∈ text.toList.splitOn '\n', (String.ofList raw).utf8ByteSize < 65536) :
    ((∃ e, ofIni text = .error e) ↔ ∃ i fault, Broken text i fault) ∧
    (∀ e, ofIni text = .error e → ∃ i fault, e = .line (i + 1) fault ∧ Broken text i fault ∧
      (∀ j < i, ∀ other, ¬ Broken text j other) ∧ TellsLine e.toFault (i + 1) ∧
      (text.length < 2 ^ 63 → (Int64.ofInt (i + 1)).toInt = i + 1)) ∧
    ∀ raw ∈ text.toList.splitOn '\n', ∀ inSection,
      readLineAt inSection raw = some (readLine inSection raw) := by
  have hbytes : ∀ raw ∈ text.toList.splitOn '\n', byteLength raw < lineLimit := by
    intro raw hraw
    rw [byteLength_eq]
    exact hshort raw hraw
  have hfirst {e : IniFault} (h : ofIni text = .error e) : ∃ i fault, e = .line (i + 1) fault ∧
      Broken text i fault ∧ ∀ j < i, ∀ other, ¬ Broken text j other := by
    rw [ofIni_eq_takeLines] at h
    obtain ⟨i, fault, rfl, hbroken, hbefore⟩ := takeLines_eq_error hbytes h
    exact ⟨i, fault, by rw [Nat.add_comm], broken_iff.mpr hbroken,
      fun j hj other => mt broken_iff.mp (hbefore j hj other)⟩
  refine ⟨⟨?_, ?_⟩, ?_, fun raw _ inSection => readLineAt_eq inSection raw⟩
  · rintro ⟨e, he⟩
    obtain ⟨i, fault, -, hbroken, -⟩ := hfirst he
    exact ⟨i, fault, hbroken⟩
  · rintro ⟨i, fault, hbroken⟩
    cases hread : ofIni text with
    | error e => exact ⟨e, rfl⟩
    | ok s =>
      rw [ofIni_eq_takeLines] at hread
      exact absurd (broken_iff.mp hbroken) (takeLines_eq_ok_unbroken hread i fault)
  · intro e he
    obtain ⟨i, fault, rfl, hbroken, hbefore⟩ := hfirst he
    refine ⟨i, fault, rfl, hbroken, hbefore, ⟨_, rfl, rfl, rfl⟩, fun hlength => ?_⟩
    have hi := lt_length_of_broken hbroken
    exact Int64.toInt_ofInt_of_le (by omega) (by omega)

/-- A comment, a line end of two characters and a blank line before a value without a key. -/
def keylessText : String := "[a]\r\n# b: 1\n\n = 2 # c\n["

/-- It is refused at line four, although the last line is malformed too. -/
theorem keyless_refused : ∃ i fault, ofIni keylessText = .error (.line (i + 1) fault) ∧ i = 3 ∧
    Broken keylessText i fault ∧ (∀ j < i, ∀ other, ¬ Broken keylessText j other) ∧
    (Int64.ofInt (i + 1)).toInt = 4 := by
  have hread : ofIni keylessText = .error (.line 4 (.noKey "= 2")) := by decide
  obtain ⟨-, hfirst, -⟩ := ofIni_refuses_malformed keylessText (by decide)
  obtain ⟨i, fault, hfault, hbroken, hbefore, -, hword⟩ := hfirst _ hread
  obtain ⟨hnumber, rfl⟩ := IniFault.line.inj hfault
  obtain rfl : i = 3 := by omega
  exact ⟨3, _, hread, rfl, hbroken, hbefore, hword (by decide)⟩

end StepTone.Settings
