/-
StepTone.Proofs.Diagnostics — what a run reports does not touch what it makes.

The level, the layout and the colours of the journal come from one flag, from four variables
of the environment and from where the reports go to. All of them end up in the logger of the
run. Two runs are compared stage by stage, each with a logger of its own: if their operations
give the same answers, then no stage of the one can be told from that of the other by its
result or by what it leaves in files and output.

* `SameButLevel` — arguments that differ in the level of the journal only.
* `Alike` — actions that cannot be told apart, and how they are put together.
* `SameAnswers` — surroundings whose operations are alike, but for the diagnostics.
* `alike_generate`, `alike_runWith` — the stages of a run, and whole runs.
* `diagnostics_leave_no_trace` — runs with other diagnostics.
-/
import Mathlib
import StepTone.Proofs.FlagOverrides
import StepTone.Proofs.RunEffects

namespace StepTone.Command

open Journal (Logger Record Stamp)

variable {σ φ ω α β : Type}

/-! ## Arguments -/

/-- Arguments that give the same flags with the same values, in the same order, but for the
level of the journal: it may have other values, and be given more often or not at all. -/
def SameButLevel (arguments arguments' : List String) : Prop :=
  ∃ given given', WellFormed given arguments ∧ WellFormed given' arguments' ∧
    given.filter (·.1 ≠ .logLevel) = given'.filter (·.1 ≠ .logLevel)

/-- Other flags do not see the level of the journal. -/
theorem last?_filter_level (given : List (Flag × String)) {flag : Flag} (h : flag ≠ .logLevel) :
    last? (given.filter (·.1 ≠ .logLevel)) flag = last? given flag := by
  have hvalues : valuesOf (given.filter (·.1 ≠ .logLevel)) flag = valuesOf given flag := by
    rw [valuesOf, valuesOf, List.filterMap_filter]
    refine List.filterMap_congr fun g _ => ?_
    by_cases hlevel : g.1 = .logLevel
    · simp [hlevel, h.symm]
    · simp [hlevel]
  rw [last?, last?, hvalues]

/-- The flags that are read differ in the level of the journal only. -/
theorem ofGiven_eq {given given' : List (Flag × String)}
    (h : given.filter (·.1 ≠ .logLevel) = given'.filter (·.1 ≠ .logLevel)) :
    Flags.ofGiven given = { Flags.ofGiven given' with
      logLevel := (last? given .logLevel).getD "" } := by
  have hlast {flag : Flag} (hflag : flag ≠ .logLevel) : last? given flag = last? given' flag := by
    rw [← last?_filter_level given hflag, h, last?_filter_level given' hflag]
  simp [Flags.ofGiven, hlast]

/-! ## Actions that cannot be told apart -/

/-- From states that look the same, two actions give the same result and lead to states that
look the same. -/
def Alike (v : View σ φ ω) (x y : StateM σ α) : Prop :=
  ∀ w w', v.Same w w' → (x w).1 = (y w').1 ∧ v.Same (x w).2 (y w').2

section

variable {v : View σ φ ω}

theorem Alike.pure (a : α) : Alike v (Pure.pure a) (Pure.pure a) :=
  fun _ _ hw => ⟨rfl, hw⟩

theorem Alike.bind {x y : StateM σ α} {k k' : α → StateM σ β} (hx : Alike v x y)
    (hk : ∀ a, Alike v (k a) (k' a)) : Alike v (x >>= k) (y >>= k') := by
  intro w w' hw
  rcases hrun : x w with ⟨a, w₁⟩
  rcases hrun' : y w' with ⟨b, w₁'⟩
  obtain ⟨hresult, hsame⟩ := hx w w' hw
  rw [hrun, hrun'] at hresult hsame
  obtain rfl : a = b := hresult
  rw [run_state_bind hrun, run_state_bind hrun']
  exact hk a w₁ w₁' hsame

theorem Alike.lift {x y : StateM σ α} (h : Alike v x y) :
    Alike v (ExceptT.lift x : ExceptT Fault (StateM σ) α).run (ExceptT.lift y).run :=
  fun w w' hw => ⟨congrArg Except.ok (h w w' hw).1, (h w w' hw).2⟩

/-- A fault ends both runs at the same place. -/
theorem Alike.run_bind {x y : ExceptT Fault (StateM σ) α}
    {k k' : α → ExceptT Fault (StateM σ) β} (hx : Alike v x.run y.run)
    (hk : ∀ a, Alike v (k a).run (k' a).run) : Alike v (x >>= k).run (y >>= k').run := by
  change Alike v (x.run >>= ExceptT.bindCont k) (y.run >>= ExceptT.bindCont k')
  refine hx.bind fun r => ?_
  cases r with
  | error e => exact .pure (Except.error e)
  | ok a => exact hk a

/-- Actions that are not seen are alike if they have the same result. -/
theorem Quiet.alike {x y : ExceptT Fault (StateM σ) α} {r : Except Fault α}
    (hx : Quiet v x fun _ => r) (hy : Quiet v y fun _ => r) : Alike v x.run y.run := by
  intro w w' hw
  obtain ⟨w₁, hrun, hsame⟩ := hx w
  obtain ⟨w₁', hrun', hsame'⟩ := hy w'
  rw [hrun, hrun']
  exact ⟨rfl, (hsame.trans hw).trans hsame'.symm⟩

end

/-! ## Surroundings that answer alike -/

/-- Two surroundings that give the same answers to the operations that a run makes its
results with. They may differ in what becomes of reports, in the clock, in the environment
and in the terminal. -/
structure SameAnswers (v : View σ φ ω) (s s' : Surroundings (StateM σ)) : Prop where
  reports : v.HidesReports s
  reports' : v.HidesReports s'
  read : ∀ path, Alike v (s.read path) (s'.read path)
  save : ∀ path text, Alike v (s.save path text) (s'.save path text)
  print : ∀ text, Alike v (s.print text) (s'.print text)
  draw : ∀ page, Alike v (s.draw page) (s'.draw page)
  decode : s.decode = s'.decode
  scale : s.scale = s'.scale

section

variable {v : View σ φ ω} {s s' : Surroundings (StateM σ)}

/-- Records cannot be told apart, whatever they say and whichever loggers write them. -/
theorem alike_note (hs : SameAnswers v s s') (l l' : Logger) (record record' : Record) :
    Alike v (note s l record) (note s' l' record') :=
  fun w w' hw => ⟨rfl, ((note_same hs.reports l record w).trans hw).trans
    (note_same hs.reports' l' record' w').symm⟩

/-! ## The stages of a run, side by side -/

theorem alike_loadProfile (hs : SameAnswers v s s') (l l' : Logger) (path : String) :
    Alike v (loadProfile s l path).run (loadProfile s' l' path).run := by
  unfold loadProfile
  by_cases hpath : path = ""
  · simp only [hpath, if_true]
    exact .pure _
  · simp only [hpath, if_false, hs.decode]
    refine (hs.read path).lift.run_bind fun contents => ?_
    refine Alike.run_bind (.pure _) fun profile => ?_
    exact (alike_note hs l l' _ _).lift.run_bind fun _ => .pure _

theorem alike_makeTable (hs : SameAnswers v s s') (l l' : Logger) (p : Profile) :
    Alike v (makeTable s l p).run (makeTable s' l' p).run := by
  have hquiet := quiet_makeTable hs.reports' l' p
  rw [← hs.scale] at hquiet
  exact (quiet_makeTable hs.reports l p).alike hquiet

theorem alike_makeSong (hs : SameAnswers v s s') (l l' : Logger) (p : Profile)
    (t : Table Float) : Alike v (makeSong s l p t).run (makeSong s' l' p t).run := by
  have hquiet := quiet_makeSong hs.reports' l' p t
  rw [← hs.scale] at hquiet
  exact (quiet_makeSong hs.reports l p t).alike hquiet

theorem alike_makeDraft (hs : SameAnswers v s s') (l l' : Logger) (f : Flags) :
    Alike v (makeDraft s l f).run (makeDraft s' l' f).run := by
  refine (alike_loadProfile hs l l' f.config).run_bind fun profile => ?_
  refine Alike.run_bind (.pure _) fun profile => ?_
  refine (alike_makeTable hs l l' profile).run_bind fun table => ?_
  refine (alike_makeSong hs l l' profile table).run_bind fun sequence => ?_
  exact Alike.run_bind (.pure _) fun listing => .pure _

theorem alike_drawChart (hs : SameAnswers v s s') (f : Flags) (t : Table Float) :
    Alike v (drawChart s f t).run (drawChart s' f t).run := by
  unfold drawChart
  by_cases hchart : f.chart = ""
  · simp only [hchart, if_true]
    exact .pure _
  · simp only [hchart, if_false]
    exact (hs.draw _).bind fun _ => .pure _

theorem alike_assemble (hs : SameAnswers v s s') (l l' : Logger) (f : Flags) :
    Alike v (assemble s l f).run (assemble s' l' f).run := by
  refine (alike_makeDraft hs l l' f).run_bind fun draft => ?_
  exact (alike_drawChart hs f draft.table).run_bind fun chart => .pure _

theorem alike_deliver (target : String) {write write' : StateM σ (Option Fault)}
    (h : Alike v write write') :
    Alike v (deliver target write).run (deliver target write').run := by
  refine h.lift.run_bind fun answer => ?_
  cases answer with
  | none => exact .pure _
  | some cause => exact .pure _

theorem alike_listing (hs : SameAnswers v s s') (l l' : Logger) (f : Flags) (p : Product) :
    Alike v (handOutListing s l f p).run (handOutListing s' l' f p).run := by
  unfold handOutListing
  by_cases hout : f.out = ""
  · simp only [hout, if_true]
    exact alike_deliver _ (hs.print _)
  · simp only [hout, if_false]
    refine (alike_deliver _ (hs.save _ _)).run_bind fun _ => ?_
    exact (alike_note hs l l' _ _).lift

theorem alike_chart (hs : SameAnswers v s s') (l l' : Logger) (f : Flags) (p : Product) :
    Alike v (handOutChart s l f p).run (handOutChart s' l' f p).run := by
  unfold handOutChart
  by_cases hchart : f.chart = ""
  · simp only [hchart, ne_eq, not_true, if_false]
    exact .pure _
  · simp only [hchart, ne_eq, not_false_eq_true, if_true]
    refine (alike_deliver _ (hs.save _ _)).run_bind fun _ => ?_
    exact (alike_note hs l l' _ _).lift

theorem alike_generate (hs : SameAnswers v s s') (l l' : Logger) (f : Flags) :
    Alike v (generate s l f).run (generate s' l' f).run := by
  refine (alike_assemble hs l l' f).run_bind fun p => ?_
  exact (alike_listing hs l l' f p).run_bind fun _ => alike_chart hs l l' f p

/-! ## Whole runs -/

/-- The level of the journal is asked for when the logger is chosen, and nowhere else. -/
theorem alike_runWith (hs : SameAnswers v s s') {arguments arguments' : List String} {f : Flags}
    {level : String} (hflags : Flags.parse arguments = .ok { f with logLevel := level })
    (hflags' : Flags.parse arguments' = .ok f) (choose choose' : Flags → Logger) :
    Alike v (runWith s choose arguments) (runWith s' choose' arguments') := by
  rw [runWith, runWith, hflags, hflags']
  refine Alike.bind (alike_generate hs _ _ f) fun r => ?_
  cases r with
  | ok u => exact .pure 0
  | error fault => exact (alike_note hs _ _ _ _).bind fun _ => .pure 1

end

/-- Two runs on files that look the same, with arguments that differ in the level of the
journal only. Whatever their environments and clocks say, whatever becomes of their reports
and whether or not these go to a terminal, they end with the same code, with the same files
and with the same output. -/
theorem diagnostics_leave_no_trace {v : View σ φ ω} {s s' : Surroundings (StateM σ)}
    (hs : SameAnswers v s s') {arguments arguments' : List String}
    (h : SameButLevel arguments arguments') {w w' : σ} (hw : v.Same w w') :
    let ended := run s arguments w
    let ended' := run s' arguments' w'
    ended.1 = ended'.1 ∧ v.files ended.2 = v.files ended'.2 ∧
      v.output ended.2 = v.output ended'.2 := by
  intro ended ended'
  obtain ⟨given, given', hgiven, hgiven', hsame⟩ := h
  have hflags : Flags.parse arguments = .ok (.ofGiven given) :=
    parse_eq_ok_iff.mpr ⟨given, hgiven, rfl⟩
  have hflags' : Flags.parse arguments' = .ok (.ofGiven given') :=
    parse_eq_ok_iff.mpr ⟨given', hgiven', rfl⟩
  rw [ofGiven_eq hsame] at hflags
  obtain ⟨hcode, hseen⟩ := alike_runWith hs hflags hflags' (logger s) (logger s') w w' hw
  exact ⟨hcode, hseen.files, hseen.output⟩

/-! ## Two runs that fail -/

/-- Two worlds may differ in the environment, in the clock and in the terminal. -/
theorem World.sameAnswers (c : World.Setting) (lookup : String → String) (stamp : Stamp)
    (terminal : Bool) : SameAnswers World.view (World.surroundings c)
      (World.surroundings { c with lookup, stamp, terminal }) where
  reports := (World.orderly c).toHidesReports
  reports' := (World.orderly _).toHidesReports
  read path w w' hw := ⟨congrArg (FileTree.read · path) hw.files, hw⟩
  save path text w w' hw := by
    have htree : w.tree = w'.tree := hw.files
    simp only [World.surroundings, htree]
    cases w'.tree.write path text with
    | ok tree => exact ⟨rfl, rfl, hw.output⟩
    | error fault => exact ⟨rfl, hw⟩
  print text w w' hw := by
    have houtput : w.output = w'.output := hw.output
    simp only [World.surroundings, houtput]
    cases c.jam with
    | none => exact ⟨rfl, hw.files, rfl⟩
    | some jam => exact ⟨rfl, hw.files, rfl⟩
  draw page := .pure _
  decode := rfl
  scale := rfl

/-- An environment that asks for JSON without colours. -/
def jsonEnvironment (name : String) : String :=
  if name = "DELAYTABLE_LOG_FORMAT" then "json" else if name = "NO_COLOR" then "1" else ""

/-- The level of the journal in two spellings, with a number of values that is not allowed. -/
theorem sameButLevel_of_spellings :
    SameButLevel ["-per-line", "0", "-log-level", "DEBUG"]
      ["-log-level=error", "--per-line=0"] := by
  have hzero : Fits .perLine "0" := ⟨0, by decide⟩
  refine ⟨[(.perLine, "0"), (.logLevel, "DEBUG")], [(.logLevel, "error"), (.perLine, "0")],
    ⟨?_, ?_⟩, ⟨?_, ?_⟩, by decide⟩
  · exact .apart ⟨"-", by simp, by decide⟩ (by decide)
      (.apart ⟨"-", by simp, by decide⟩ (by decide) .nil)
  · simpa [Fits] using hzero
  · exact .joined ⟨"-", by simp, by decide⟩ (.joined ⟨"--", by simp, by decide⟩ .nil)
  · simpa [Fits] using hzero

/-- A world that asks for nothing, with a terminal. -/
def plainSetting : World.Setting where
  stamp := ⟨"t", "t", "p"⟩
  terminal := true
  draw _ := .ok ""
  decode _ := .ok []
  scale := ⟨id, id⟩

/-- Two runs that report the same fault differently, one of them in colours. -/
theorem diagnostics_of_two_layouts :
    let ended := run (World.surroundings plainSetting) ["-per-line", "0", "-log-level", "DEBUG"] {}
    let ended' := run (World.surroundings { plainSetting with
      lookup := jsonEnvironment, stamp := ⟨"u", "u", "q"⟩, terminal := true })
      ["-log-level=error", "--per-line=0"] {}
    SameButLevel ["-per-line", "0", "-log-level", "DEBUG"] ["-log-level=error", "--per-line=0"] ∧
    ended.2.reports ≠ ended'.2.reports ∧ ended.1 = 1 ∧
    ended.1 = ended'.1 ∧ ended.2.tree = ended'.2.tree ∧ ended.2.output = ended'.2.output := by
  refine ⟨sameButLevel_of_spellings, by decide +kernel, by decide +kernel, ?_⟩
  exact diagnostics_leave_no_trace (World.sameAnswers plainSetting jsonEnvironment _ true)
    sameButLevel_of_spellings (.refl _)

end StepTone.Command
