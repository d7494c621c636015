/-
StepTone.Proofs.FlagOverrides — flags over a profile, field by field.

Arguments can give a flag in several ways. They are told here as a list of flags with their
values, and of that list only the last value of each flag matters: it is what the reader
of arguments keeps, and what stands in the place of a value of the profile.

* `Spelled`, `WellFormed` — arguments that give flags, and values that the flags take.
* `last?`, `Flags.ofGiven` — the last value of a flag, and the flags as they are read.
* `parse_eq_ok_iff` — which arguments are accepted, and what they are read as.
* `Overridden`, `Forbidden` — a profile under given values, and values it does not take.
* `apply_ofGiven_eq_ok_iff` — flags over a profile.
* `flags_override_fields` — arguments over a profile, in any order.
-/
import Mathlib
import StepTone.Command.Run
import StepTone.Proofs.ProfileMeaning
import StepTone.Proofs.SymbolText

namespace StepTone.Command

open Profile (Parses MeansEncoding MeansFormat MeansName bind_eq_ok_iff exists_field_iff
  ofBits_eq_ok_iff ofName_encoding_iff ofName_format_iff)

/-! ## Arguments that give flags -/

/-- The argument names a flag, with a value behind `=` or without one. -/
def Names (argument : String) (flag : Flag) (value : Option String) : Prop :=
  ∃ dash ∈ ["-", "--"], argument = dash ++ flag.word ++ value.elim "" ("=" ++ ·)

/-- Arguments that give flags. A value stands behind `=` or in the next argument, a switch
may stand alone, and the flags may be ended. -/
inductive Spelled : List (Flag × String) → List String → Prop
  | nil : Spelled [] []
  | ended : Spelled [] ["--"]
  | joined {flag : Flag} {value argument : String} {given : List (Flag × String)}
      {rest : List String} (h : Names argument flag (some value)) (hrest : Spelled given rest) :
      Spelled ((flag, value) :: given) (argument :: rest)
  | apart {flag : Flag} {value argument : String} {given : List (Flag × String)}
      {rest : List String} (h : Names argument flag none) (hflag : flag ≠ .noSummary)
      (hrest : Spelled given rest) : Spelled ((flag, value) :: given) (argument :: value :: rest)
  | alone {argument : String} {given : List (Flag × String)} {rest : List String}
      (h : Names argument .noSummary none) (hrest : Spelled given rest) :
      Spelled ((.noSummary, "true") :: given) (argument :: rest)

/-- A value that a flag takes: a number, a word of a switch, or any text. -/
def Fits : Flag → String → Prop
  | .bits, value => ∃ n, Numeral.anyBase value = .ok n
  | .perLine, value => ∃ n, Numeral.anyBase value = .ok n
  | .noSummary, value => ∃ off, switch? value = some off
  | _, _ => True

/-- The arguments give these flags, each with a value that it takes. -/
structure WellFormed (given : List (Flag × String)) (arguments : List String) : Prop where
  spelled : Spelled given arguments
  fits : ∀ g ∈ given, Fits g.1 g.2

/-! ## The last value of a flag -/

/-- The values that are given for a flag. -/
def valuesOf (given : List (Flag × String)) (flag : Flag) : List String :=
  given.filterMap fun g => if g.1 = flag then some g.2 else none

/-- The last value that is given for a flag. -/
def last? (given : List (Flag × String)) (flag : Flag) : Option String :=
  (valuesOf given flag).getLast?

theorem last?_append (given : List (Flag × String)) (flag : Flag) (value : String)
    (other : Flag) :
    last? (given ++ [(flag, value)]) other =
      if flag = other then some value else last? given other := by
  rw [last?, valuesOf, List.filterMap_append]
  by_cases h : flag = other
  · simp [h]
  · simp [h, last?, valuesOf]

theorem mem_of_last? {given : List (Flag × String)} {flag : Flag} {value : String}
    (h : last? given flag = some value) : (flag, value) ∈ given := by
  obtain ⟨g, hg, hvalue⟩ := List.mem_filterMap.mp (List.mem_of_getLast? h)
  by_cases hflag : g.1 = flag
  · rw [if_pos hflag, Option.some.injEq] at hvalue
    rwa [← hflag, ← hvalue]
  · rw [if_neg hflag] at hvalue
    cases hvalue

/-- A flag that is given once at most has one value at most. -/
theorem length_valuesOf_le {given : List (Flag × String)} (h : (given.map Prod.fst).Nodup)
    (flag : Flag) : (valuesOf given flag).length ≤ 1 := by
  have hcount : (valuesOf given flag).length = (given.map Prod.fst).count flag := by
    induction given with
    | nil => rfl
    | cons g rest ih =>
      have hrest := ih (List.nodup_cons.mp h).2
      by_cases hflag : g.1 = flag
      · simpa [valuesOf, hflag] using hrest
      · simpa [valuesOf, hflag] using hrest
  rw [hcount]
  exact List.nodup_iff_count_le_one.mp h flag

/-- The order of distinct flags does not matter. -/
theorem last?_perm {given given' : List (Flag × String)} (h : given'.Perm given)
    (hnodup : (given.map Prod.fst).Nodup) (flag : Flag) : last? given' flag = last? given flag := by
  have hperm : (valuesOf given' flag).Perm (valuesOf given flag) := h.filterMap _
  rw [last?, last?]
  have hshort := length_valuesOf_le hnodup flag
  rcases Nat.le_one_iff_eq_zero_or_eq_one.mp hshort with hlength | hlength
  · rw [List.length_eq_zero_iff.mp hlength] at hperm ⊢
    rw [hperm.eq_nil]
  · obtain ⟨value, hvalue⟩ := List.length_eq_one_iff.mp hlength
    rw [hvalue] at hperm ⊢
    rw [List.perm_singleton.mp hperm]

/-! ## Flags as they are read -/

/-- The flags that given values make. -/
def Flags.ofGiven (given : List (Flag × String)) : Flags where
  bits := (last? given .bits).bind fun value => (Numeral.anyBase value).toOption
  chart := (last? given .chart).getD ""
  config := (last? given .config).getD ""
  encoding := last? given .encoding
  format := last? given .format
  logLevel := (last? given .logLevel).getD ""
  name := last? given .name
  noSummary := (last? given .noSummary).bind switch?
  out := (last? given .out).getD ""
  perLine := (last? given .perLine).bind fun value => (Numeral.anyBase value).toOption

/-- The flags with a list of values set, one after the other. -/
def Flags.setAll (f : Flags) (given : List (Flag × String)) : Except Misuse Flags :=
  given.foldlM (fun f g => f.set g.1 g.2) f

theorem Flags.setAll_cons (f : Flags) (flag : Flag) (value : String)
    (given : List (Flag × String)) :
    f.setAll ((flag, value) :: given) = (f.set flag value >>= (·.setAll given)) :=
  rfl

/-- A flag that is set after others takes its value, and the others keep theirs. -/
theorem set_ofGiven_eq_ok_iff {given : List (Flag × String)} {flag : Flag} {value : String}
    {f : Flags} :
    (Flags.ofGiven given).set flag value = .ok f ↔
      Fits flag value ∧ f = .ofGiven (given ++ [(flag, value)]) := by
  cases flag with
  | bits =>
    simp only [Flags.set, Fits, Flags.ofGiven, last?_append]
    cases hnumber : Numeral.anyBase value <;>
      simp [hnumber, Except.mapError, bind, Except.bind, pure, Except.pure, Except.toOption,
        eq_comm]
  | perLine =>
    simp only [Flags.set, Fits, Flags.ofGiven, last?_append]
    cases hnumber : Numeral.anyBase value <;>
      simp [hnumber, Except.mapError, bind, Except.bind, pure, Except.pure, Except.toOption,
        eq_comm]
  | noSummary =>
    simp only [Flags.set, Fits, Flags.ofGiven, last?_append]
    cases hswitch : switch? value <;>
      simp [hswitch, throw, throwThe, MonadExceptOf.throw, pure, Except.pure, eq_comm]
  | _ => simp [Flags.set, Fits, Flags.ofGiven, last?_append, pure, Except.pure, eq_comm]

/-- Values are set if all of them are taken, and the last one of each flag stays. -/
theorem setAll_eq_ok_iff {given : List (Flag × String)} {f : Flags} :
    Flags.setAll {} given = .ok f ↔ (∀ g ∈ given, Fits g.1 g.2) ∧ f = .ofGiven given := by
  induction given using List.reverseRecOn generalizing f with
  | nil =>
    have hnone : (Flags.ofGiven [] : Flags) = {} := rfl
    simp [Flags.setAll, hnone, pure, Except.pure, eq_comm]
  | append_singleton given g ih =>
    have hstep : Flags.setAll {} (given ++ [g]) =
        (Flags.setAll {} given >>= fun f => f.set g.1 g.2) := by
      simp [Flags.setAll]
    rw [hstep, bind_eq_ok_iff]
    simp only [ih, List.forall_mem_append, List.forall_mem_singleton]
    constructor
    · rintro ⟨_, ⟨hfits, rfl⟩, hset⟩
      obtain ⟨hlast, rfl⟩ := set_ofGiven_eq_ok_iff.mp hset
      exact ⟨⟨hfits, hlast⟩, rfl⟩
    · rintro ⟨⟨hfits, hlast⟩, rfl⟩
      exact ⟨_, ⟨hfits, rfl⟩, set_ofGiven_eq_ok_iff.mpr ⟨hlast, rfl⟩⟩

/-! ## Reading one argument -/

/-- What stands behind the word of a flag. -/
def behind (value : Option String) : List Char :=
  value.elim [] fun v => '=' :: v.toList

theorem toList_names {dash word : String} {value : Option String} :
    (dash ++ word ++ value.elim "" ("=" ++ ·)).toList =
      dash.toList ++ (word.toList ++ behind value) := by
  cases value <;> simp [behind]

theorem ofBody_eq_flag_iff {body : List Char} {word : String} {value : Option String} :
    Argument.ofBody body = .flag word value ↔
      ∃ c rest, word.toList = c :: rest ∧ (c ≠ '-' ∧ c ≠ '=' ∧ '=' ∉ rest) ∧
        body = word.toList ++ behind value := by
  constructor
  · intro h
    cases body with
    | nil => cases h
    | cons c rest =>
      rw [Argument.ofBody] at h
      split at h
      · cases h
      next hc =>
      obtain ⟨hdash, hequal⟩ := not_or.mp hc
      split at h
      · next front back hcut =>
        obtain ⟨rfl, rfl⟩ := Argument.flag.inj h
        obtain ⟨d, hd, rfl, hfront⟩ := Text.cutAt?_eq_some_iff.mp hcut
        obtain rfl : d = '=' := by simpa using hd
        exact ⟨c, front, by simp, ⟨hdash, hequal, fun hmem => by simpa using hfront _ hmem⟩,
          by simp [behind]⟩
      · next hcut =>
        obtain ⟨rfl, rfl⟩ := Argument.flag.inj h
        have hfront := Text.cutAt?_eq_none_iff.mp hcut
        exact ⟨c, rest, by simp, ⟨hdash, hequal, fun hmem => by simpa using hfront _ hmem⟩,
          by simp [behind]⟩
  · rintro ⟨c, rest, hword, ⟨hdash, hequal, hrest⟩, rfl⟩
    have hback : String.ofList (c :: rest) = word := by rw [← hword, String.ofList_toList]
    have hplain : ∀ d ∈ rest, decide (d = '=') = false := fun d hd =>
      decide_eq_false (ne_of_mem_of_not_mem hd hrest)
    rw [hword, List.cons_append, Argument.ofBody, if_neg (not_or.mpr ⟨hdash, hequal⟩)]
    cases value with
    | none =>
      have hcut : Text.cutAt? (· = '=') (rest ++ behind none) = none := by
        rw [behind, Option.elim_none, List.append_nil]
        exact Text.cutAt?_eq_none_iff.mpr hplain
      simp only [hcut]
      simp [behind, hback]
    | some v =>
      have hcut : Text.cutAt? (· = '=') (rest ++ behind (some v)) = some (rest, v.toList) :=
        Text.cutAt?_eq_some_iff.mpr ⟨'=', by simp, rfl, hplain⟩
      simp only [hcut, hback, String.ofList_toList]

theorem ofString_eq_flag_iff {argument word : String} {value : Option String} :
    Argument.ofString argument = .flag word value ↔
      ∃ dash ∈ ["-", "--"], ∃ body, argument.toList = dash.toList ++ body ∧
        Argument.ofBody body = .flag word value := by
  rw [Argument.ofString]
  constructor
  · intro h
    split at h
    · cases h
    · next body _ hlist => exact ⟨"--", by simp, body, hlist, h⟩
    · next c body _ _ hlist => exact ⟨"-", by simp, c :: body, hlist, h⟩
    · cases h
  · rintro ⟨dash, hdash, body, hlist, hbody⟩
    -- a flag starts with another character than a hyphen
    obtain ⟨c, rest, hword, ⟨hc, -, -⟩, rfl⟩ := ofBody_eq_flag_iff.mp hbody
    rw [hword, List.cons_append] at hbody hlist
    rw [hlist]
    rcases List.mem_pair.mp hdash with rfl | rfl
    · simp [hc, hbody]
    · simpa using hbody

/-- The word of a flag is one that an argument can have. -/
theorem word_shape (flag : Flag) :
    ∃ c rest, flag.word.toList = c :: rest ∧ c ≠ '-' ∧ c ≠ '=' ∧ '=' ∉ rest := by
  cases flag <;> exact ⟨_, _, rfl, by decide⟩

theorem ofString_eq_iff_names {argument : String} {flag : Flag} {value : Option String} :
    Argument.ofString argument = .flag flag.word value ↔ Names argument flag value := by
  rw [ofString_eq_flag_iff]
  constructor
  · rintro ⟨dash, hdash, body, hlist, hbody⟩
    obtain ⟨-, -, -, -, rfl⟩ := ofBody_eq_flag_iff.mp hbody
    exact ⟨dash, hdash, String.toList_injective (hlist.trans toList_names.symm)⟩
  · rintro ⟨dash, hdash, rfl⟩
    obtain ⟨c, rest, hword, hshape⟩ := word_shape flag
    exact ⟨dash, hdash, _, toList_names, ofBody_eq_flag_iff.mpr ⟨c, rest, hword, hshape, rfl⟩⟩

theorem ofWord?_eq_some_iff {word : String} {flag : Flag} :
    Flag.ofWord? word = some flag ↔ flag.word = word := by
  have hmem (flag : Flag) : flag ∈ Flag.all := by cases flag <;> decide
  have hinj : ∀ f ∈ Flag.all, ∀ g ∈ Flag.all, f.word = g.word → f = g := by decide
  rw [Flag.ofWord?]
  constructor
  · intro h
    simpa using List.find?_some h
  · rintro rfl
    cases hfind : Flag.all.find? (·.word = flag.word) with
    | none => simpa using List.find?_eq_none.mp hfind flag (hmem flag)
    | some other =>
      have hword : other.word = flag.word := by simpa using List.find?_some hfind
      rw [hinj _ (hmem other) _ (hmem flag) hword]

theorem ofWord?_word (flag : Flag) : Flag.ofWord? flag.word = some flag :=
  ofWord?_eq_some_iff.mpr rfl

theorem ofString_eq_terminator_iff {argument : String} :
    Argument.ofString argument = .terminator ↔ argument = "--" := by
  constructor
  · intro h
    rw [Argument.ofString] at h
    split at h
    · next hlist => exact String.toList_injective hlist
    · next body _ _ =>
      rw [Argument.ofBody.eq_def] at h
      grind
    · next c body _ _ _ =>
      rw [Argument.ofBody.eq_def] at h
      grind
    · cases h
  · rintro rfl
    rfl

/-! ## Reading all arguments -/

theorem set_bind_take {given : List (Flag × String)} {rest : List String}
    (h : ∀ f : Flags, f.take rest = (f.setAll given).map (·, [])) (f : Flags) (flag : Flag)
    (value : String) :
    (f.set flag value >>= (·.take rest)) = (f.setAll ((flag, value) :: given)).map (·, []) := by
  rw [Flags.setAll_cons]
  simp only [h]
  cases f.set flag value with
  | error misuse => rfl
  | ok g => rfl

/-- Arguments that give flags are read as these flags, set one after the other. -/
theorem take_of_spelled {given : List (Flag × String)} {arguments : List String}
    (h : Spelled given arguments) (f : Flags) :
    f.take arguments = (f.setAll given).map (·, []) := by
  induction h generalizing f with
  | nil =>
    rw [Flags.take]
    rfl
  | ended =>
    rw [Flags.take]
    rfl
  | @joined flag value argument given rest hnames _ ih =>
    rw [Flags.take]
    simp only [ofString_eq_iff_names.mpr hnames, ofWord?_word]
    cases flag <;> exact set_bind_take ih f _ value
  | @apart flag value argument given rest hnames hswitch _ ih =>
    rw [Flags.take]
    simp only [ofString_eq_iff_names.mpr hnames, ofWord?_word]
    cases flag with
    | noSummary => exact absurd rfl hswitch
    | _ => exact set_bind_take ih f _ value
  | @alone argument given rest hnames _ ih =>
    rw [Flags.take]
    simp only [ofString_eq_iff_names.mpr hnames, ofWord?_word]
    exact set_bind_take ih f .noSummary "true"

/-- Arguments that are read without a rest give flags. -/
theorem spelled_of_take {f g : Flags} {arguments : List String}
    (h : f.take arguments = .ok (g, [])) : ∃ given, Spelled given arguments := by
  fun_induction Flags.take f arguments with
  | case1 f => exact ⟨[], .nil⟩
  | case2 f argument rest => cases h
  | case3 f argument rest hargument =>
    obtain rfl := ofString_eq_terminator_iff.mp hargument
    obtain ⟨-, rfl⟩ := Prod.mk.inj (Except.ok.inj h)
    exact ⟨[], .ended⟩
  | case4 f argument rest => cases h
  | case5 f argument rest => cases h
  | case6 f argument word value rest hargument hword ih =>
    obtain ⟨f', -, hrest⟩ := bind_eq_ok_iff.mp h
    obtain ⟨given, hgiven⟩ := ih f' hrest
    obtain rfl := ofWord?_eq_some_iff.mp hword
    have hnames := ofString_eq_iff_names.mp hargument
    cases value with
    | none => exact ⟨_, .alone hnames hgiven⟩
    | some value => exact ⟨_, .joined hnames hgiven⟩
  | case7 f argument word flag value rest _ hargument hword ih =>
    obtain ⟨f', -, hrest⟩ := bind_eq_ok_iff.mp h
    obtain ⟨given, hgiven⟩ := ih f' hrest
    obtain rfl := ofWord?_eq_some_iff.mp hword
    exact ⟨_, .joined (ofString_eq_iff_names.mp hargument) hgiven⟩
  | case8 f argument word flag value rest hswitch hargument hword ih =>
    obtain ⟨f', -, hrest⟩ := bind_eq_ok_iff.mp h
    obtain ⟨given, hgiven⟩ := ih f' hrest
    obtain rfl := ofWord?_eq_some_iff.mp hword
    exact ⟨_, .apart (ofString_eq_iff_names.mp hargument) hswitch hgiven⟩
  | case9 f argument word flag => cases h

theorem parse_eq_ok_iff_take {arguments : List String} {f : Flags} :
    Flags.parse arguments = .ok f ↔ Flags.take {} arguments = .ok (f, []) := by
  rw [Flags.parse]
  split
  · next misuse h => simp [h]
  · next g h => simp [h]
  · next g rest hrest h => simpa [h] using fun _ => hrest

/-- Arguments are accepted where they give flags with values that these take, and they are
read as the last value of each flag. -/
theorem parse_eq_ok_iff {arguments : List String} {f : Flags} :
    Flags.parse arguments = .ok f ↔ ∃ given, WellFormed given arguments ∧ f = .ofGiven given := by
  have hread {given : List (Flag × String)} (h : Spelled given arguments) :
      Flags.parse arguments = .ok f ↔ (∀ g ∈ given, Fits g.1 g.2) ∧ f = .ofGiven given := by
    rw [parse_eq_ok_iff_take, take_of_spelled h, ← setAll_eq_ok_iff]
    cases Flags.setAll {} given with
    | error misuse => simp [Except.map]
    | ok g => simp [Except.map]
  constructor
  · intro h
    obtain ⟨given, hgiven⟩ := spelled_of_take (parse_eq_ok_iff_take.mp h)
    obtain ⟨hfits, hflags⟩ := (hread hgiven).mp h
    exact ⟨given, ⟨hgiven, hfits⟩, hflags⟩
  · rintro ⟨given, ⟨hgiven, hfits⟩, hflags⟩
    exact (hread hgiven).mpr ⟨hfits, hflags⟩

/-! ## Flags over a profile -/

/-- A number of values in a row. -/
def GivesPerLine (value : String) (n : Int64) : Prop :=
  Numeral.anyBase value = .ok n ∧ 0 < n

/-- A width that can be built. -/
def GivesWidth (value : String) (w : Table.Width) : Prop :=
  Numeral.anyBase value = .ok w.bits ∧ (w.bits = 8 ∨ w.bits = 16)

/-- The switch turns the summary off, or on again. -/
def GivesSummary (value : String) (shown : Bool) : Prop :=
  switch? value = some (!shown)

/-- The fields of a profile under given flags: each field that has a flag is the last value
that is given for it, and what it was if none is given. -/
structure Overridden (given : List (Flag × String)) (p q : Profile) : Prop where
  format : Profile.Field (last? given .format) MeansFormat p.output.format q.output.format
  name : Profile.Field (last? given .name) MeansName p.output.name q.output.name
  perLine : Profile.Field (last? given .perLine) GivesPerLine p.output.perLine q.output.perLine
  summary : Profile.Field (last? given .noSummary) GivesSummary p.output.summary q.output.summary
  width : Profile.Field (last? given .bits) GivesWidth p.table.width q.table.width
  encoding : Profile.Field (last? given .encoding) MeansEncoding p.table.encoding q.table.encoding
  constants : q.constants = p.constants
  song : q.song = p.song

/-- A value that a flag takes, but not the field that it stands for. -/
def Forbidden : Flag → String → Prop
  | .format, value => Text.lower (Text.trim value) ∉ Listing.Format.names
  | .name, value => Listing.isIdentifier value = false ∨ value ∈ Listing.reserved ∨
      Listing.camelCase value ∈ Listing.reserved
  | .perLine, value => ∃ n, Numeral.anyBase value = .ok n ∧ n ≤ 0
  | .bits, value => ∃ n, Numeral.anyBase value = .ok n ∧ n ≠ 8 ∧ n ≠ 16
  | .encoding, value => Text.lower (Text.trim value) ∉ ["direct", "inverted", ""]
  | _, _ => False

section

variable {given : List (Flag × String)} {p q : Profile}

/-- The flags are put over the profile field by field. -/
theorem apply_eq (f : Flags) (p : Profile) : f.apply p = (do
    let format ← f.format.elim (pure p.output.format) Listing.Format.ofName
    let name ← f.name.elim (pure p.output.name) fun name =>
      (Listing.checkName name).map fun _ => name
    let perLine ← f.perLine.elim (pure p.output.perLine) fun n =>
      if n ≤ 0 then throw (Profile.badPerLine n) else pure n
    let width ← f.bits.elim (pure p.table.width) Table.Width.ofBits
    let encoding ← f.encoding.elim (pure p.table.encoding) Table.Encoding.ofName
    return { p with
      output := { format, name, perLine, summary := f.noSummary.elim p.output.summary (!·) }
      table := { width, encoding } }) := by
  unfold Flags.apply
  extract_lets summary onFormat
  trans f.format.elim (pure p.output.format) Listing.Format.ofName >>= onFormat
  · cases f.format <;> simp only [Option.elim_none, Option.elim_some]
  refine bind_congr fun format => ?_
  dsimp -zeta only [onFormat]
  extract_lets onName
  trans f.name.elim (pure p.output.name) (fun name =>
    (Listing.checkName name).map fun _ => name) >>= onName
  · cases f.name with
    | none => simp only [Option.elim_none]
    | some name =>
      simp only [Option.elim_some]
      cases Listing.checkName name <;> rfl
  refine bind_congr fun name => ?_
  dsimp -zeta only [onName]
  extract_lets onPerLine
  trans f.perLine.elim (pure p.output.perLine) (fun n =>
    if n ≤ 0 then throw (Profile.badPerLine n) else pure n) >>= onPerLine
  · cases f.perLine with
    | none => simp only [Option.elim_none]
    | some n =>
      simp only [Option.elim_some]
      by_cases hn : n ≤ 0
      · simp only [if_pos hn]
      · simp only [if_neg hn]
  refine bind_congr fun perLine => ?_
  dsimp -zeta only [onPerLine]
  extract_lets onWidth
  trans f.bits.elim (pure p.table.width) Table.Width.ofBits >>= onWidth
  · cases f.bits <;> simp only [Option.elim_none, Option.elim_some]
  refine bind_congr fun width => ?_
  dsimp -zeta only [onWidth]
  extract_lets onEncoding
  trans f.encoding.elim (pure p.table.encoding) Table.Encoding.ofName >>= onEncoding
  · cases f.encoding <;> simp only [Option.elim_none, Option.elim_some]
  refine bind_congr fun encoding => ?_
  simp only [onEncoding, summary]
  cases f.noSummary <;> rfl

/-- One field under its flag, whose value may have to be read first. -/
theorem elim_eq_ok_iff {α β : Type} {text : Option String} {value : Option β}
    {read : β → Except Fault α} {Means : String → α → Prop} {usual a : α}
    (hnone : text = none → value = none)
    (hsome : ∀ t, text = some t → ∃ b, value = some b ∧ (read b = .ok a ↔ Means t a)) :
    value.elim (pure usual) read = .ok a ↔ Profile.Field text Means usual a := by
  cases text with
  | none =>
    rw [hnone rfl]
    simp [Profile.Field, pure, Except.pure, eq_comm]
  | some t =>
    obtain ⟨b, rfl, hread⟩ := hsome t rfl
    exact hread

theorem format_iff {usual f : Listing.Format} :
    (Flags.ofGiven given).format.elim (pure usual) Listing.Format.ofName = .ok f ↔
      Profile.Field (last? given .format) MeansFormat usual f :=
  elim_eq_ok_iff id fun t ht => ⟨t, ht, ofName_format_iff⟩

theorem encoding_iff {usual e : Table.Encoding} :
    (Flags.ofGiven given).encoding.elim (pure usual) Table.Encoding.ofName = .ok e ↔
      Profile.Field (last? given .encoding) MeansEncoding usual e :=
  elim_eq_ok_iff id fun t ht => ⟨t, ht, ofName_encoding_iff⟩

theorem name_iff {usual name : String} :
    (Flags.ofGiven given).name.elim (pure usual)
        (fun t => (Listing.checkName t).map fun _ => t) = .ok name ↔
      Profile.Field (last? given .name) MeansName usual name := by
  refine elim_eq_ok_iff id fun t ht => ⟨t, ht, ?_⟩
  rw [MeansName]
  cases Listing.checkName t with
  | ok u => simp [Except.map, eq_comm]
  | error fault => simp [Except.map]

/-- A number that is given was read when its flag was. -/
theorem number_of_fits {text : Option String} {α : Type} {read : Int64 → Except Fault α}
    {Means : String → α → Prop} {usual a : α}
    (hfits : ∀ t, text = some t → ∃ n, Numeral.anyBase t = .ok n)
    (hread : ∀ t n, Numeral.anyBase t = .ok n → (read n = .ok a ↔ Means t a)) :
    (text.bind fun t => (Numeral.anyBase t).toOption).elim (pure usual) read = .ok a ↔
      Profile.Field text Means usual a := by
  refine elim_eq_ok_iff (fun hnone => by rw [hnone, Option.bind_none]) fun t ht => ?_
  obtain ⟨n, hn⟩ := hfits t ht
  refine ⟨n, ?_, hread t n hn⟩
  rw [ht, Option.bind_some, hn]
  rfl

theorem perLine_iff (h : ∀ g ∈ given, Fits g.1 g.2) {usual n : Int64} :
    (Flags.ofGiven given).perLine.elim (pure usual)
        (fun n => if n ≤ 0 then throw (Profile.badPerLine n) else pure n) =
        (.ok n : Except Fault Int64) ↔
      Profile.Field (last? given .perLine) GivesPerLine usual n := by
  refine number_of_fits (fun t ht => h _ (mem_of_last? ht)) fun t m hm => ?_
  rw [GivesPerLine, hm, Except.ok.injEq, ← Int64.not_le]
  by_cases hpos : m ≤ 0
  · rw [if_pos hpos]
    exact iff_of_false nofun fun hn => hn.2 (hn.1 ▸ hpos)
  · rw [if_neg hpos]
    exact ⟨fun hn => Except.ok.inj hn ▸ ⟨rfl, hpos⟩, fun hn => congrArg _ hn.1⟩

theorem width_iff (h : ∀ g ∈ given, Fits g.1 g.2) {usual w : Table.Width} :
    (Flags.ofGiven given).bits.elim (pure usual) Table.Width.ofBits = .ok w ↔
      Profile.Field (last? given .bits) GivesWidth usual w := by
  refine number_of_fits (fun t ht => h _ (mem_of_last? ht)) fun t m hm => ?_
  rw [ofBits_eq_ok_iff, GivesWidth, hm, Except.ok.injEq, eq_comm (a := m)]

theorem summary_iff (h : ∀ g ∈ given, Fits g.1 g.2) {usual shown : Bool} :
    (Flags.ofGiven given).noSummary.elim usual (!·) = shown ↔
      Profile.Field (last? given .noSummary) GivesSummary usual shown := by
  cases hlast : last? given .noSummary with
  | none => simp [Flags.ofGiven, hlast, Profile.Field, eq_comm]
  | some t =>
    obtain ⟨off, hoff⟩ : ∃ off, switch? t = some off := h _ (mem_of_last? hlast)
    simp [Flags.ofGiven, hlast, hoff, Profile.Field, GivesSummary, Bool.not_eq_eq_eq_not]

/-- Flags that are read from given values make the profile that these values ask for. -/
theorem apply_ofGiven_eq_ok_iff (h : ∀ g ∈ given, Fits g.1 g.2) :
    (Flags.ofGiven given).apply p = .ok q ↔ Overridden given p q := by
  rw [apply_eq]
  simp only [bind_eq_ok_iff, format_iff, name_iff, perLine_iff h, width_iff h, encoding_iff]
  constructor
  · rintro ⟨format, hformat, name, hname, perLine, hperLine, width, hwidth, encoding, hencoding,
      hq⟩
    obtain rfl := Except.ok.inj hq
    exact ⟨hformat, hname, hperLine, (summary_iff h).mp rfl, hwidth, hencoding, rfl, rfl⟩
  · rintro ⟨hformat, hname, hperLine, hshown, hwidth, hencoding, hconstants, hsong⟩
    refine ⟨_, hformat, _, hname, _, hperLine, _, hwidth, _, hencoding, ?_⟩
    rw [(summary_iff h).mpr hshown, ← hconstants, ← hsong]
    rfl

/-! ## Values that are not allowed -/

/-- A profile takes the given values if each field can be read from its flag. -/
theorem exists_overridden_iff (h : ∀ g ∈ given, Fits g.1 g.2) :
    (∃ q, Overridden given p q) ↔
      Parses (last? given .format) MeansFormat ∧ Parses (last? given .name) MeansName ∧
      Parses (last? given .perLine) GivesPerLine ∧ Parses (last? given .bits) GivesWidth ∧
      Parses (last? given .encoding) MeansEncoding := by
  constructor
  · rintro ⟨q, hq⟩
    exact ⟨(exists_field_iff _).mp ⟨_, hq.format⟩, (exists_field_iff _).mp ⟨_, hq.name⟩,
      (exists_field_iff _).mp ⟨_, hq.perLine⟩, (exists_field_iff _).mp ⟨_, hq.width⟩,
      (exists_field_iff _).mp ⟨_, hq.encoding⟩⟩
  · rintro ⟨hformat, hname, hperLine, hwidth, hencoding⟩
    obtain ⟨format, hformat⟩ := (exists_field_iff p.output.format).mpr hformat
    obtain ⟨name, hname⟩ := (exists_field_iff p.output.name).mpr hname
    obtain ⟨perLine, hperLine⟩ := (exists_field_iff p.output.perLine).mpr hperLine
    obtain ⟨width, hwidth⟩ := (exists_field_iff p.table.width).mpr hwidth
    obtain ⟨encoding, hencoding⟩ := (exists_field_iff p.table.encoding).mpr hencoding
    exact ⟨{ p with
        output := { format, name, perLine,
                    summary := (Flags.ofGiven given).noSummary.elim p.output.summary (!·) }
        table := { width, encoding } },
      hformat, hname, hperLine, (summary_iff h).mp rfl, hwidth, hencoding, rfl, rfl⟩

theorem forbidden_format_iff {value : String} :
    Forbidden .format value ↔ ¬ ∃ f, MeansFormat value f := by
  simp [Forbidden, MeansFormat, Listing.Format.names, Profile.mem_formats]

theorem forbidden_name_iff {value : String} :
    Forbidden .name value ↔ ¬ ∃ name, MeansName value name := by
  simp only [Forbidden, MeansName, exists_eq_left, Listing.checkName_eq_ok_iff]
  rw [not_and_or, not_and_or, not_not, not_not, Bool.not_eq_true]

theorem forbidden_encoding_iff {value : String} :
    Forbidden .encoding value ↔ ¬ ∃ e, MeansEncoding value e := by
  rw [Forbidden, not_iff_not]
  constructor
  · intro h
    simp only [List.mem_cons, List.not_mem_nil, or_false] at h
    rcases h with hword | hword | hword
    · exact ⟨.direct, .inl hword⟩
    · exact ⟨.inverted, hword⟩
    · exact ⟨.direct, .inr hword⟩
  · rintro ⟨e, he⟩
    cases e with
    | direct =>
      rw [MeansEncoding] at he
      rcases he with hword | hword
      · simp [hword]
      · simp [hword]
    | inverted =>
      rw [MeansEncoding] at he
      simp [he]

theorem forbidden_perLine_iff {value : String} (h : Fits .perLine value) :
    Forbidden .perLine value ↔ ¬ ∃ n, GivesPerLine value n := by
  obtain ⟨n, hn⟩ := h
  simp [Forbidden, GivesPerLine, hn]

theorem forbidden_bits_iff {value : String} (h : Fits .bits value) :
    Forbidden .bits value ↔ ¬ ∃ w, GivesWidth value w := by
  obtain ⟨n, hn⟩ := h
  simp only [Forbidden, GivesWidth, hn, Except.ok.injEq, exists_eq_left']
  constructor
  · rintro ⟨height, hsixteen⟩ ⟨w, rfl, hw⟩
    exact hw.elim height hsixteen
  · intro hnone
    refine not_or.mp fun hn => hnone ⟨⟨n⟩, rfl, hn⟩

/-- Flags fail over a profile exactly if the last value of some flag is not allowed. -/
theorem apply_ofGiven_eq_error_iff (h : ∀ g ∈ given, Fits g.1 g.2) :
    (∃ fault, (Flags.ofGiven given).apply p = .error fault) ↔
      ∃ flag value, last? given flag = some value ∧ Forbidden flag value := by
  have hfails : (∃ fault, (Flags.ofGiven given).apply p = .error fault) ↔
      ¬ ∃ q, Overridden given p q := by
    simp only [← apply_ofGiven_eq_ok_iff h]
    cases (Flags.ofGiven given).apply p with
    | ok q => simp
    | error fault => simp
  have hlast {flag : Flag} {value : String} (hvalue : last? given flag = some value) :
      Fits flag value := h _ (mem_of_last? hvalue)
  rw [hfails, exists_overridden_iff h, not_iff_comm]
  push Not
  constructor
  · intro hfree
    refine ⟨fun t ht => ?_, fun t ht => ?_, fun t ht => ?_, fun t ht => ?_, fun t ht => ?_⟩
    · exact not_not.mp (mt forbidden_format_iff.mpr (hfree _ _ ht))
    · exact not_not.mp (mt forbidden_name_iff.mpr (hfree _ _ ht))
    · exact not_not.mp (mt (forbidden_perLine_iff (hlast ht)).mpr (hfree _ _ ht))
    · exact not_not.mp (mt (forbidden_bits_iff (hlast ht)).mpr (hfree _ _ ht))
    · exact not_not.mp (mt forbidden_encoding_iff.mpr (hfree _ _ ht))
  · rintro ⟨hformat, hname, hperLine, hwidth, hencoding⟩ flag value hvalue hbad
    cases flag with
    | format => exact forbidden_format_iff.mp hbad (hformat _ hvalue)
    | name => exact forbidden_name_iff.mp hbad (hname _ hvalue)
    | perLine => exact (forbidden_perLine_iff (hlast hvalue)).mp hbad (hperLine _ hvalue)
    | bits => exact (forbidden_bits_iff (hlast hvalue)).mp hbad (hwidth _ hvalue)
    | encoding => exact forbidden_encoding_iff.mp hbad (hencoding _ hvalue)
    | _ => exact hbad

end

/-! ## Arguments over a profile -/

/-- Distinct flags can be given in any order. -/
theorem ofGiven_perm {given given' : List (Flag × String)} (h : given'.Perm given)
    (hnodup : (given.map Prod.fst).Nodup) : Flags.ofGiven given' = Flags.ofGiven given := by
  simp only [Flags.ofGiven, last?_perm h hnodup]

/-- Arguments over a profile. Those that are accepted give flags with values that these
take. They fail over a profile exactly if the last value of some flag is not allowed there;
otherwise each field is what the last value of its flag says, and what it was in the profile
if the flag is not given. Distinct flags can be given in any order, and in any spelling:
the run is the same. -/
theorem flags_override_fields (arguments : List String) :
    ((∃ f, Flags.parse arguments = .ok f) ↔ ∃ given, WellFormed given arguments) ∧
    ∀ given, WellFormed given arguments →
      (∃ f, Flags.parse arguments = .ok f ∧ ∀ p,
        ((∃ fault, f.apply p = .error fault) ↔
          ∃ flag value, last? given flag = some value ∧ Forbidden flag value) ∧
        ∀ q, f.apply p = .ok q ↔ Overridden given p q) ∧
      ∀ given' arguments', WellFormed given' arguments' → given'.Perm given →
        (given.map Prod.fst).Nodup → ∀ (m : Type → Type) [Monad m] (s : Surroundings m),
          run s arguments' = run s arguments := by
  refine ⟨?_, fun given h => ⟨?_, ?_⟩⟩
  · simp only [parse_eq_ok_iff]
    exact ⟨fun ⟨_, given, h, _⟩ => ⟨given, h⟩, fun ⟨given, h⟩ => ⟨_, given, h, rfl⟩⟩
  · exact ⟨_, parse_eq_ok_iff.mpr ⟨given, h, rfl⟩, fun p =>
      ⟨apply_ofGiven_eq_error_iff h.fits, fun q => apply_ofGiven_eq_ok_iff h.fits⟩⟩
  · intro given' arguments' h' hperm hnodup m _ s
    have hsame : Flags.parse arguments' = Flags.parse arguments := by
      rw [parse_eq_ok_iff.mpr ⟨given', h', rfl⟩, parse_eq_ok_iff.mpr ⟨given, h, rfl⟩,
        ofGiven_perm hperm hnodup]
    rw [run, run, runWith, runWith, hsame]

/-- Three flags in two orders and two spellings. -/
theorem flags_override_reordered :
    WellFormed [(.bits, "0x10"), (.noSummary, "false"), (.format, " JSON")]
      ["-bits", "0x10", "--no-summary=false", "-format= JSON"] ∧
    WellFormed [(.format, " JSON"), (.bits, "0x10"), (.noSummary, "false")]
      ["--format", " JSON", "-bits=0x10", "-no-summary=false", "--"] ∧
    (∃ f q, Flags.parse ["-bits", "0x10", "--no-summary=false", "-format= JSON"] = .ok f ∧
      f.apply { output := { summary := false } } = .ok q ∧ q.table.width.bits = 16 ∧
      q.output.format = .json ∧ q.output.summary = true) ∧
    ∀ (m : Type → Type) [Monad m] (s : Surroundings m),
      run s ["--format", " JSON", "-bits=0x10", "-no-summary=false", "--"] =
        run s ["-bits", "0x10", "--no-summary=false", "-format= JSON"] := by
  have hbits : Numeral.anyBase "0x10" = .ok 16 := by decide
  have hfits : ∀ g ∈ [(Flag.bits, "0x10"), (.noSummary, "false"), (.format, " JSON")],
      Fits g.1 g.2 := by
    simp only [List.forall_mem_cons]
    exact ⟨⟨16, hbits⟩, ⟨false, by decide⟩, trivial, by simp⟩
  have hwell : WellFormed [(.bits, "0x10"), (.noSummary, "false"), (.format, " JSON")]
      ["-bits", "0x10", "--no-summary=false", "-format= JSON"] :=
    ⟨.apart ⟨"-", by simp, by decide⟩ (by decide) (.joined ⟨"--", by simp, by decide⟩
      (.joined ⟨"-", by simp, by decide⟩ .nil)), hfits⟩
  have hperm : [(Flag.format, " JSON"), (.bits, "0x10"), (.noSummary, "false")].Perm
      [(.bits, "0x10"), (.noSummary, "false"), (.format, " JSON")] := by decide
  have hwell' : WellFormed [(.format, " JSON"), (.bits, "0x10"), (.noSummary, "false")]
      ["--format", " JSON", "-bits=0x10", "-no-summary=false", "--"] :=
    ⟨.apart ⟨"--", by simp, by decide⟩ (by decide) (.joined ⟨"-", by simp, by decide⟩
      (.joined ⟨"-", by simp, by decide⟩ .ended)), fun g hg => hfits g (hperm.mem_iff.mp hg)⟩
  obtain ⟨⟨f, hf, hover⟩, hruns⟩ := (flags_override_fields _).2 _ hwell
  refine ⟨hwell, hwell', ?_, hruns _ _ hwell' hperm (by decide)⟩
  obtain ⟨herror, hok⟩ := hover { output := { summary := false } }
  cases hq : f.apply { output := { summary := false } } with
  | error fault =>
    obtain ⟨flag, value, hlast, hbad⟩ := herror.mp ⟨fault, hq⟩
    cases flag with
    | format =>
      obtain rfl : " JSON" = value := Option.some.inj hlast
      exact absurd (by decide) hbad
    | bits =>
      obtain rfl : "0x10" = value := Option.some.inj hlast
      obtain ⟨n, hn, -, hsixteen⟩ := hbad
      exact absurd (Except.ok.inj (hn.symm.trans hbits)) hsixteen
    | name => cases hlast
    | perLine => cases hlast
    | encoding => cases hlast
    | _ => exact hbad.elim
  | ok q =>
    have hover := (hok q).mp hq
    have hformat : Listing.Format.ofName " JSON" = .ok q.output.format :=
      ofName_format_iff.mpr hover.format
    have hsummary : some false = some (!q.output.summary) := hover.summary
    refine ⟨f, q, hf, hq, Except.ok.inj (hover.width.1.symm.trans hbits), ?_, ?_⟩
    · exact (Except.ok.inj hformat).symm
    · simpa using hsummary

end StepTone.Command
