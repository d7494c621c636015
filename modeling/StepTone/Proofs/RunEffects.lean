/-
StepTone.Proofs.RunEffects — what a run leaves behind.

A run is looked at through a `View`, which sees the files and the standard output of a state
and not what was reported. Of the operations that a run is given, only two kinds are asked
to change what is seen, and it is written down what the others must not do: `View.Orderly`.
Nothing is asked of how files are kept, of which writes are refused, of how much a broken
output still takes, and of whoever draws charts.

A run makes everything in memory, then writes the listing, then the page of charts. So a run
that fails can be told apart by the stage at which it failed.

* `View`, `View.HidesReports`, `View.Orderly` — what is seen, and what operations must not do.
* `Quiet` — actions that change nothing that is seen; `draft?` — what a run has printed in
  memory, as a function of what it reads.
* `Writes` — actions that write once.
* `PrintBroken`, `ChartLost` — the two ways to fail and leave something behind.
* `failed_run_keeps_view_or_loses_chart` — that there are no others.
-/
import StepTone.Command.Run
import StepTone.Proofs.TableGeneration

namespace StepTone.Command

open Journal (Level Logger Record)

variable {σ φ ω α β : Type}

/-! ## What is seen -/

/-- How a state is looked at: its files, and what was written to the standard output. -/
structure View (σ φ ω : Type) where
  files : σ → φ
  output : σ → ω

namespace View

variable (v : View σ φ ω)

/-- States with the same files and the same output. -/
structure Same (w w' : σ) : Prop where
  files : v.files w = v.files w'
  output : v.output w = v.output w'

variable {v} {w w₁ w₂ : σ}

theorem Same.refl (w : σ) : v.Same w w :=
  ⟨rfl, rfl⟩

theorem Same.symm (h : v.Same w w₁) : v.Same w₁ w :=
  ⟨h.files.symm, h.output.symm⟩

theorem Same.trans (h : v.Same w w₁) (h' : v.Same w₁ w₂) : v.Same w w₂ :=
  ⟨h.files.trans h'.files, h.output.trans h'.output⟩

variable (v)

/-- Reports go elsewhere: they do not change files or output, and no more does asking for the
time. -/
structure HidesReports (s : Surroundings (StateM σ)) : Prop where
  report : ∀ text w, v.Same (s.report text w).2 w
  stamp : ∀ w, v.Same (s.stamp w).2 w

/-- What operations must not do. -/
structure Orderly (s : Surroundings (StateM σ)) : Prop extends HidesReports v s where
  read : ∀ path w, v.Same (s.read path w).2 w
  draw : ∀ page w, v.Same (s.draw page w).2 w
  /-- What is printed goes to the standard output and not to files. -/
  print : ∀ text w, v.files (s.print text w).2 = v.files w
  /-- A file is written as a whole or not at all. -/
  save : ∀ path text w, (s.save path text w).1 ≠ none → v.Same (s.save path text w).2 w

end View

/-! ## Steps of a run -/

section

variable {x : ExceptT Fault (StateM σ) α} {k : α → ExceptT Fault (StateM σ) β} {w w₁ : σ}

theorem ok_bind (a : α) (k : α → Except Fault β) : (Except.ok a >>= k) = k a :=
  rfl

theorem run_bind_ok {a : α} (h : x.run w = (.ok a, w₁)) :
    (x >>= k).run w = (k a).run w₁ := by
  change (match x.run w with | (r, w') => ExceptT.bindCont k r w') = _
  rw [h]
  rfl

theorem run_bind_error {e : Fault} (h : x.run w = (.error e, w₁)) :
    (x >>= k).run w = (.error e, w₁) := by
  change (match x.run w with | (r, w') => ExceptT.bindCont k r w') = _
  rw [h]
  rfl

theorem run_state_bind {x : StateM σ α} {k : α → StateM σ β} {a : α} (h : x w = (a, w₁)) :
    (x >>= k) w = k a w₁ := by
  change k (x w).1 (x w).2 = _
  rw [h]

theorem run_lift {action : StateM σ α} {a : α} (h : action w = (a, w₁)) :
    (ExceptT.lift action : ExceptT Fault (StateM σ) α).run w = (.ok a, w₁) := by
  change (Except.ok (action w).1, (action w).2) = _
  rw [h]

end

variable {v : View σ φ ω} {s : Surroundings (StateM σ)}

/-! ## Actions that are not seen -/

/-- An action that changes nothing that is seen, and its result in each state. -/
def Quiet (v : View σ φ ω) (x : ExceptT Fault (StateM σ) α) (result : σ → Except Fault α) :
    Prop :=
  ∀ w, ∃ w₁, x.run w = (result w, w₁) ∧ v.Same w₁ w

section

variable {x : ExceptT Fault (StateM σ) α} {k : α → ExceptT Fault (StateM σ) β}

/-- Only the first of several actions may look at the state. -/
theorem Quiet.bind {r : σ → Except Fault α} {q : α → Except Fault β} (hx : Quiet v x r)
    (hk : ∀ a, Quiet v (k a) fun _ => q a) : Quiet v (x >>= k) fun w => r w >>= q := by
  intro w
  obtain ⟨w₁, hrun, hsame⟩ := hx w
  dsimp only
  cases hr : r w with
  | error e =>
    rw [hr] at hrun
    exact ⟨w₁, run_bind_error hrun, hsame⟩
  | ok a =>
    rw [hr] at hrun
    obtain ⟨w₂, hnext, hsame'⟩ := hk a w₁
    exact ⟨w₂, (run_bind_ok hrun).trans hnext, hsame'.trans hsame⟩

/-- An action that reports, and then another one. -/
theorem Quiet.after {x : ExceptT Fault (StateM σ) Unit} {k : Unit → ExceptT Fault (StateM σ) β}
    {q : Except Fault β} (hx : Quiet v x fun _ => .ok ()) (hk : Quiet v (k ()) fun _ => q) :
    Quiet v (x >>= k) fun _ => q :=
  hx.bind fun _ => hk

theorem Quiet.congr {r r' : σ → Except Fault α} (hx : Quiet v x r) (h : ∀ w, r w = r' w) :
    Quiet v x r' :=
  fun w => h w ▸ hx w

theorem Quiet.pure (a : α) : Quiet v (Pure.pure a) fun _ => .ok a :=
  fun w => ⟨w, rfl, .refl w⟩

theorem quiet_check (e : Except Fault α) : Quiet v (check e) fun _ => e :=
  fun w => ⟨w, rfl, .refl w⟩

end

/-- A record changes nothing that is seen. -/
theorem note_same (hs : v.HidesReports s) (l : Logger) (record : Record) (w : σ) :
    v.Same (note s l record w).2 w := by
  have hstamp : v.Same (s.stamp w).2 w := hs.stamp w
  rcases htime : s.stamp w with ⟨time, w₁⟩
  rw [htime] at hstamp
  rw [note, run_state_bind htime]
  cases l.line? time record with
  | none => exact hstamp
  | some line => exact (hs.report line w₁).trans hstamp

theorem quiet_note (hs : v.HidesReports s) (l : Logger) (record : Record) :
    Quiet v (ExceptT.lift (note s l record)) fun _ => .ok () :=
  fun w => ⟨_, run_lift rfl, note_same hs l record w⟩

theorem quiet_say (hs : v.HidesReports s) (l : Logger) (level : Level) (template : String)
    (values : List Datum) : Quiet v (say s l level template values) fun _ => .ok () :=
  quiet_note hs l _

theorem quiet_forM_say (hs : v.HidesReports s) (l : Logger) (level : Level) (template : String)
    (texts : List String) :
    Quiet v (texts.forM fun text => say s l level template [.text text]) fun _ => .ok () := by
  induction texts with
  | nil => exact .pure ()
  | cons text rest ih => exact (quiet_say hs l level template _).after ih

/-! ## What a run makes -/

/-- The profile that the flags name. -/
def profile? (s : Surroundings (StateM σ)) (path : String) (w : σ) : Except Fault Profile :=
  if path = "" then .ok {} else Profile.load s.decode path (s.read path w).1

/-- The table of a profile. -/
def table? (scale : LogScale Float) (p : Profile) : Except Fault (Table Float) := do
  let table ← (Table.generate scale p.constants p.table).mapError (·.toFault)
  table.check
  return table

/-- The song of a profile, if it has one. -/
def song? (scale : LogScale Float) (p : Profile) (t : Table Float) :
    Except Fault (Option (Song.Sequence Float)) := do
  match p.song with
  | none => return none
  | some song =>
    let sequence ← (Song.compile scale t song.scale song.notes).mapError (·.toFault)
    return some sequence

/-- The listing that a run prints into memory. It hangs on the state through the profile
only, which is read first. -/
def draft? (s : Surroundings (StateM σ)) (f : Flags) (w : σ) : Except Fault Draft := do
  let profile ← profile? s f.config w
  let profile ← f.apply profile
  let table ← table? s.scale profile
  let sequence ← song? s.scale profile table
  let listing ← Listing.render profile.output table sequence
  return { format := profile.output.format, table, listing }

theorem quiet_read (hs : v.Orderly s) (path : String) :
    Quiet v (ExceptT.lift (s.read path)) fun w => .ok (s.read path w).1 :=
  fun w => ⟨_, run_lift rfl, hs.read path w⟩

theorem quiet_loadProfile (hs : v.Orderly s) (l : Logger) (path : String) :
    Quiet v (loadProfile s l path) (profile? s path) := by
  unfold loadProfile profile?
  by_cases hpath : path = ""
  · simp only [hpath, if_true]
    exact .pure _
  · simp only [hpath, if_false]
    refine (quiet_read hs path).bind (q := Profile.load s.decode path) fun contents => ?_
    refine Quiet.congr (r := fun _ => Profile.load s.decode path contents >>= .ok) ?_
      fun _ => bind_pure _
    refine (quiet_check _).bind fun profile => ?_
    exact (quiet_say hs.toHidesReports l .debug _ _).after (.pure profile)

theorem quiet_makeTable (hs : v.HidesReports s) (l : Logger) (p : Profile) :
    Quiet v (makeTable s l p) fun _ => table? s.scale p := by
  unfold makeTable table?
  refine (quiet_note hs l _).after ?_
  refine (quiet_check _).bind fun table => ?_
  refine (quiet_check _).bind fun _ => ?_
  exact (quiet_forM_say hs l .debug _ _).after (.pure table)

theorem quiet_makeSong (hs : v.HidesReports s) (l : Logger) (p : Profile) (t : Table Float) :
    Quiet v (makeSong s l p t) fun _ => song? s.scale p t := by
  unfold makeSong song?
  cases p.song with
  | none => exact .pure none
  | some song =>
    refine (quiet_check _).bind fun sequence => ?_
    exact (quiet_say hs l .info _ _).after (.pure (some sequence))

theorem quiet_makeDraft (hs : v.Orderly s) (l : Logger) (f : Flags) :
    Quiet v (makeDraft s l f) (draft? s f) := by
  unfold makeDraft draft?
  refine (quiet_loadProfile hs l f.config).bind fun profile => ?_
  refine (quiet_check _).bind fun profile => ?_
  refine (quiet_makeTable hs.toHidesReports l profile).bind fun table => ?_
  refine (quiet_makeSong hs.toHidesReports l profile table).bind fun sequence => ?_
  exact (quiet_check _).bind fun listing => .pure _

theorem drawChart_same (hs : v.Orderly s) (f : Flags) (t : Table Float) (w : σ) :
    v.Same ((drawChart s f t).run w).2 w := by
  unfold drawChart
  by_cases hchart : f.chart = ""
  · simp only [hchart, if_true]
    exact .refl w
  · simp only [hchart, if_false]
    exact hs.draw _ w

/-- Whatever becomes of it, making everything in memory is not seen; and what is made holds
the listing that was to be expected. -/
theorem assemble_same (hs : v.Orderly s) {l : Logger} {f : Flags} {w w₁ : σ}
    {r : Except Fault Product} (h : (assemble s l f).run w = (r, w₁)) :
    v.Same w₁ w ∧ ∀ p, r = .ok p → draft? s f w = .ok p.toDraft := by
  obtain ⟨w₀, hrun, hsame⟩ := quiet_makeDraft hs l f w
  unfold assemble at h
  cases hdraft : draft? s f w with
  | error e =>
    rw [hdraft] at hrun
    rw [run_bind_error hrun] at h
    cases h
    exact ⟨hsame, nofun⟩
  | ok draft =>
    rw [hdraft] at hrun
    rw [run_bind_ok hrun] at h
    have hdrawn := drawChart_same hs f draft.table w₀
    rcases hchart : (drawChart s f draft.table).run w₀ with ⟨answer, w₂⟩
    rw [hchart] at hdrawn
    cases answer with
    | error e =>
      rw [run_bind_error hchart] at h
      cases h
      exact ⟨hdrawn.trans hsame, nofun⟩
    | ok chart =>
      rw [run_bind_ok hchart] at h
      cases h
      refine ⟨hdrawn.trans hsame, ?_⟩
      intro p hp
      cases hp
      rfl

/-! ## The two writes -/

/-- An action that writes once. It succeeds exactly if the write does, and what is seen
afterwards is what the write left. -/
def Writes (v : View σ φ ω) (x : ExceptT Fault (StateM σ) Unit)
    (write : StateM σ (Option Fault)) : Prop :=
  ∀ w, ((write w).1 = none ∧ ∃ w₁, x.run w = (.ok (), w₁) ∧ v.Same w₁ (write w).2) ∨
    ((write w).1 ≠ none ∧ ∃ e, x.run w = (.error e, (write w).2))

theorem writes_deliver (target : String) (write : StateM σ (Option Fault)) :
    Writes v (deliver target write) write := by
  intro w
  rcases hwrite : write w with ⟨answer, w₁⟩
  cases answer with
  | none =>
    have hrun : (deliver target write).run w = (.ok (), w₁) := by
      rw [deliver, run_bind_ok (run_lift hwrite)]
      rfl
    exact .inl ⟨rfl, w₁, hrun, .refl w₁⟩
  | some cause =>
    have hrun : (deliver target write).run w =
        (.error (.unwritten target (some cause)), w₁) := by
      rw [deliver, run_bind_ok (run_lift hwrite)]
      rfl
    exact .inr ⟨nofun, _, hrun⟩

/-- A report of the write does not matter. -/
theorem Writes.after {x : ExceptT Fault (StateM σ) Unit} {write : StateM σ (Option Fault)}
    {k : Unit → ExceptT Fault (StateM σ) Unit} (hx : Writes v x write)
    (hk : Quiet v (k ()) fun _ => .ok ()) : Writes v (x >>= k) write := by
  intro w
  rcases hx w with ⟨hnone, w₁, hrun, hsame⟩ | ⟨hsome, e, hrun⟩
  · obtain ⟨w₂, hnext, hsame'⟩ := hk w₁
    exact .inl ⟨hnone, w₂, (run_bind_ok hrun).trans hnext, hsame'.trans hsame⟩
  · exact .inr ⟨hsome, e, run_bind_error hrun⟩

/-- The write of the listing alone. -/
def writeListing (s : Surroundings (StateM σ)) (f : Flags) (p : Product) :
    StateM σ (Option Fault) :=
  if f.out = "" then s.print p.listing else s.save f.out p.listing

theorem writes_listing (hs : v.HidesReports s) (l : Logger) (f : Flags) (p : Product) :
    Writes v (handOutListing s l f p) (writeListing s f p) := by
  unfold handOutListing writeListing
  by_cases hout : f.out = ""
  · simp only [hout, if_true]
    exact writes_deliver _ _
  · simp only [hout, if_false]
    exact (writes_deliver _ _).after (quiet_say hs l .info _ _)

theorem writes_chart (hs : v.HidesReports s) (l : Logger) {f : Flags} (p : Product)
    (hchart : f.chart ≠ "") : Writes v (handOutChart s l f p) (s.save f.chart p.chart) := by
  unfold handOutChart
  simp only [hchart, ne_eq, not_false_eq_true, if_true]
  exact (writes_deliver _ _).after (quiet_say hs l .info _ _)

/-! ## How a run ends -/

theorem run_of_misuse (hs : v.HidesReports s) {arguments : List String} {w w' : σ}
    {code : UInt32} (h : run s arguments w = (code, w')) {misuse : Misuse}
    (hflags : Flags.parse arguments = .error misuse) : v.Same w' w := by
  rw [run, runWith, hflags] at h
  cases h
  exact hs.report _ w

/-- After its flags were read, a run ends with 0 or 1, and what is seen is what `generate`
left. -/
theorem run_of_flags (hs : v.HidesReports s) {arguments : List String} {w w' : σ}
    {code : UInt32} (h : run s arguments w = (code, w')) {f : Flags}
    (hflags : Flags.parse arguments = .ok f) {r : Except Fault Unit} {w₁ : σ}
    (hrun : (generate s (logger s f) f).run w = (r, w₁)) :
    code = (if r.isOk then 0 else 1) ∧ v.Same w' w₁ := by
  have hgenerate : generate s (logger s f) f w = (r, w₁) := hrun
  rw [run, runWith, hflags] at h
  dsimp only at h
  rw [run_state_bind hgenerate] at h
  cases r with
  | ok u =>
    cases h
    exact ⟨rfl, .refl _⟩
  | error fault =>
    cases h
    exact ⟨rfl, note_same hs _ _ w₁⟩

/-- A run has read its flags `f` and made `p`. It is now in the state `w₁`, and has not
written anything. -/
structure Renders (s : Surroundings (StateM σ)) (arguments : List String) (w : σ) (f : Flags)
    (p : Product) (w₁ : σ) : Prop where
  flags : Flags.parse arguments = .ok f
  product : (assemble s (logger s f) f).run w = (.ok p, w₁)

/-- From there on, the standard output fails while it takes the listing. -/
def PrintBroken (s : Surroundings (StateM σ)) (f : Flags) (p : Product) (w₁ : σ) : Prop :=
  f.out = "" ∧ (s.print p.listing w₁).1 ≠ none

/-- From there on, the listing is written, and then the chart that is asked for cannot be. -/
def ChartLost (s : Surroundings (StateM σ)) (f : Flags) (p : Product) (w₁ : σ) : Prop :=
  ∃ w₂, (handOutListing s (logger s f) f p).run w₁ = (.ok (), w₂) ∧ f.chart ≠ "" ∧
    (s.save f.chart p.chart w₂).1 ≠ none

section

variable {arguments : List String} {f : Flags} {p : Product} {w w₁ : σ}

theorem generate_of_printBroken (hs : v.Orderly s) (h : Renders s arguments w f p w₁)
    (hprint : PrintBroken s f p w₁) :
    ∃ e, (generate s (logger s f) f).run w = (.error e, (s.print p.listing w₁).2) := by
  obtain ⟨hout, hbroken⟩ := hprint
  have hlisting := writes_listing hs.toHidesReports (logger s f) f p w₁
  rw [writeListing, if_pos hout] at hlisting
  rcases hlisting with ⟨hnone, -⟩ | ⟨-, e, hrun⟩
  · exact absurd hnone hbroken
  · rw [generate, run_bind_ok h.product]
    exact ⟨e, run_bind_error hrun⟩

/-- When the chart is lost, exactly the listing is left. -/
theorem generate_of_chartLost (hs : v.Orderly s) (h : Renders s arguments w f p w₁)
    (hchart : ChartLost s f p w₁) :
    (writeListing s f p w₁).1 = none ∧
      ∃ e w', (generate s (logger s f) f).run w = (.error e, w') ∧
        v.Same w' (writeListing s f p w₁).2 := by
  obtain ⟨w₂, hlisting, hasked, hrefused⟩ := hchart
  obtain ⟨hwritten, hlisted⟩ : (writeListing s f p w₁).1 = none ∧
      v.Same w₂ (writeListing s f p w₁).2 := by
    rcases writes_listing hs.toHidesReports (logger s f) f p w₁ with
      ⟨hnone, w₂', hrun, hsame⟩ | ⟨-, e, hrun⟩
    · obtain rfl : w₂ = w₂' := congrArg Prod.snd (hlisting.symm.trans hrun)
      exact ⟨hnone, hsame⟩
    · cases congrArg Prod.fst (hlisting.symm.trans hrun)
  rcases writes_chart hs.toHidesReports (logger s f) p hasked w₂ with
    ⟨hnone, -⟩ | ⟨-, e, hrun⟩
  · exact absurd hnone hrefused
  · refine ⟨hwritten, e, _, ?_, (hs.save f.chart p.chart w₂ hrefused).trans hlisted⟩
    rw [generate, run_bind_ok h.product, run_bind_ok hlisting]
    exact hrun

/-- After everything was made, there are these two ways to fail and leave something behind;
a listing that goes to a file can fail too, and does not. -/
theorem generate_failed (hs : v.Orderly s) (h : Renders s arguments w f p w₁) {e : Fault} {w' : σ}
    (hrun : (generate s (logger s f) f).run w = (.error e, w')) :
    v.Same w' w ∨ PrintBroken s f p w₁ ∨ ChartLost s f p w₁ := by
  have hmade : v.Same w₁ w := (assemble_same hs h.product).1
  rw [generate, run_bind_ok h.product] at hrun
  rcases writes_listing hs.toHidesReports (logger s f) f p w₁ with
    ⟨-, w₂, hlisting, -⟩ | ⟨hrefused, e', hlisting⟩
  · rw [run_bind_ok hlisting] at hrun
    by_cases hasked : f.chart = ""
    · rw [handOutChart, if_neg (not_not.mpr hasked)] at hrun
      cases hrun
    rcases writes_chart hs.toHidesReports (logger s f) p hasked w₂ with
      ⟨-, w₃, hchart, -⟩ | ⟨hlost, -⟩
    · cases congrArg Prod.fst (hrun.symm.trans hchart)
    · exact .inr (.inr ⟨w₂, hlisting, hasked, hlost⟩)
  · rw [run_bind_error hlisting] at hrun
    obtain rfl := congrArg Prod.snd hrun
    by_cases hout : f.out = ""
    · rw [writeListing, if_pos hout] at hrefused
      exact .inr (.inl ⟨hout, hrefused⟩)
    · rw [writeListing, if_neg hout] at hrefused ⊢
      exact .inl ((hs.save f.out p.listing w₁ hrefused).trans hmade)

end

/-! ## Worlds -/

/-- Files and output of a world. -/
def World.view : View World (FileTree String) String :=
  ⟨World.tree, World.output⟩

theorem World.orderly (c : World.Setting) : World.view.Orderly (World.surroundings c) where
  report _ _ := ⟨rfl, rfl⟩
  stamp _ := ⟨rfl, rfl⟩
  read _ _ := ⟨rfl, rfl⟩
  draw _ _ := ⟨rfl, rfl⟩
  print text w := by
    simp only [World.surroundings]
    cases c.jam with
    | none => rfl
    | some jam => rfl
  save path text w := by
    simp only [World.surroundings]
    cases w.tree.write path text with
    | ok tree => exact fun h => absurd rfl h
    | error fault => exact fun _ => .refl w

/-! ## A chart in a directory that is not there -/

namespace StrayChart

open Table (HalfHertz.scale HalfHertz.table)

/-- A world where charts are drawn and no TOML is read. -/
def setting (jam : Option World.Jam) : World.Setting where
  jam := jam
  draw _ := .ok "<html></html>"
  decode _ := .error "not a document"
  scale := HalfHertz.scale

/-- Flags that ask for the usual profile and for a chart. -/
def flags (chart : String) : Flags := { chart }

def arguments : List String := ["-chart", "no/t.html"]

theorem parse_nil : Flags.parse [] = .ok (flags "") := by
  rw [Flags.parse, Flags.take.eq_def]
  rfl

theorem parse_eq : Flags.parse arguments = .ok (flags "no/t.html") := by
  have hargument : Argument.ofString "-chart" = .flag "chart" none := by decide
  have hflag : Flag.ofWord? "chart" = some .chart := by decide
  have htake : Flags.take {} arguments = .ok (flags "no/t.html", []) := by
    rw [Flags.take.eq_def, arguments]
    simp only [hargument, hflag]
    change Flags.take (flags "no/t.html") [] = _
    rw [Flags.take.eq_def]
  rw [Flags.parse, htake]

/-- What the usual profile makes. -/
def draft : Draft where
  format := .bytes
  table := HalfHertz.table
  listing := Listing.renderBytes {} HalfHertz.table none

theorem table_eq : table? HalfHertz.scale {} = .ok HalfHertz.table := by
  have hmade : Table.generate HalfHertz.scale ({} : Profile).constants ({} : Profile).table =
    .ok HalfHertz.table := Table.HalfHertz.generate_eq
  have hcheck := Table.check_eq_ok_iff.mpr (Table.made_of_generate hmade).lawful
  rw [table?, hmade]
  change (Except.ok HalfHertz.table >>= _) = _
  rw [ok_bind, hcheck]
  rfl

theorem draft_eq (jam : Option World.Jam) (chart : String) (w : World) :
    draft? (World.surroundings (setting jam)) (flags chart) w = .ok draft := by
  have hprofile : profile? (World.surroundings (setting jam)) (flags chart).config w = .ok {} := rfl
  have happly : (flags chart).apply {} = .ok {} := rfl
  have htable : table? (World.surroundings (setting jam)).scale {} = .ok HalfHertz.table := table_eq
  have hsong : song? (World.surroundings (setting jam)).scale {} HalfHertz.table = .ok none := rfl
  have hrender : Listing.render ({} : Profile).output HalfHertz.table none =
    .ok draft.listing := rfl
  rw [draft?, hprofile, ok_bind, happly, ok_bind, htable, ok_bind, hsong, ok_bind, hrender,
    ok_bind]
  rfl

/-- The run gets as far as to its first write. -/
theorem exists_renders {arguments : List String} {chart : String}
    (hflags : Flags.parse arguments = .ok (flags chart)) (jam : Option World.Jam) :
    ∃ p w₁, Renders (World.surroundings (setting jam)) arguments {} (flags chart) p w₁ ∧
      p.toDraft = draft ∧ World.view.Same w₁ {} := by
  obtain ⟨w₀, hdraft, hsame⟩ := quiet_makeDraft (World.orderly (setting jam))
    (logger (World.surroundings (setting jam)) (flags chart)) (flags chart) {}
  rw [draft_eq] at hdraft
  obtain ⟨page, hpage⟩ : ∃ page, (drawChart (World.surroundings (setting jam)) (flags chart)
      draft.table).run w₀ = (.ok page, w₀) := by
    unfold drawChart
    by_cases hchart : (flags chart).chart = ""
    · simp only [hchart, if_true]
      exact ⟨"", rfl⟩
    · simp only [hchart, if_false]
      exact ⟨"<html></html>", rfl⟩
  refine ⟨{ toDraft := draft, chart := page }, w₀, ⟨hflags, ?_⟩, rfl, hsame⟩
  rw [assemble, run_bind_ok hdraft, run_bind_ok hpage]
  rfl

/-- No directory, no chart. -/
theorem chart_refused (text : String) :
    ∃ fault, ({} : FileTree String).write "no/t.html" text = .error fault := by
  have hwalk : ({} : FileTree String).walk "no/t.html" = .error "no such file or directory" := by
    decide +kernel
  rw [FileTree.write, hwalk]
  exact ⟨_, rfl⟩

theorem exists_chartLost : ∃ p w₁,
    Renders (World.surroundings (setting none)) arguments {} (flags "no/t.html") p w₁ ∧
      ChartLost (World.surroundings (setting none)) (flags "no/t.html") p w₁ ∧
      p.toDraft = draft ∧ World.view.Same w₁ {} := by
  obtain ⟨p, w₁, hrenders, hdraft, hsame⟩ := exists_renders parse_eq none
  refine ⟨p, w₁, hrenders, ⟨{ w₁ with output := w₁.output ++ p.listing }, rfl, by decide, ?_⟩,
    hdraft, hsame⟩
  obtain ⟨fault, hfault⟩ := chart_refused p.chart
  have htree : w₁.tree = {} := hsame.files
  simp [World.surroundings, htree, flags, hfault]

theorem listing_ne_empty : draft.listing ≠ "" := by
  have hsummary (b : Firmware.Bounds Float) : Listing.summaryText {} b "" ≠ "" := by
    rw [Listing.summaryText, if_pos rfl, Listing.summaryLines, List.map_cons, String.join_cons]
    simp [String.append_eq_empty_iff]
  intro hempty
  rw [draft, Listing.renderBytes, String.append_eq_empty_iff, String.append_eq_empty_iff]
    at hempty
  exact hsummary _ hempty.1.1

/-- How the run ends in a world without files. -/
def ended : UInt32 × World :=
  run (World.surroundings (setting none)) arguments {}

end StrayChart

/-! ## Runs that fail -/

/-- A run can end with a fault and leave a listing behind. -/
theorem failed_run_prints : StrayChart.ended.1 = 1 ∧ StrayChart.ended.2.output ≠ "" := by
  have hs := World.orderly (StrayChart.setting none)
  rcases hended : StrayChart.ended with ⟨code, w'⟩
  obtain ⟨p, w₁, hrenders, hlost, hdraft, hsame⟩ := StrayChart.exists_chartLost
  obtain ⟨-, e, w₂, hrun, hlisted⟩ := generate_of_chartLost hs hrenders hlost
  obtain ⟨hcode, hview⟩ := run_of_flags hs.toHidesReports hended hrenders.flags hrun
  have houtput : w'.output = w₁.output ++ p.listing := hview.output.trans hlisted.output
  refine ⟨hcode, ?_⟩
  rw [houtput, hdraft, ne_eq, String.append_eq_empty_iff]
  exact fun hempty => StrayChart.listing_ne_empty hempty.2

/-- A run that fails leaves files and output as they were, but for two ways to fail; in both
of them everything was made before, the page of charts included. If the standard output
fails, no file was changed, and the output took what it could. If the listing was written
and the chart after it was refused, then exactly the listing is left behind. -/
theorem failed_run_keeps_view_or_loses_chart (hs : v.Orderly s) {arguments : List String}
    {w w' : σ} {code : UInt32} (h : run s arguments w = (code, w')) :
    (code ≠ 0 → v.Same w' w ∨ ∃ f p w₁, Renders s arguments w f p w₁ ∧
      (PrintBroken s f p w₁ ∨ ChartLost s f p w₁)) ∧
    ∀ f p w₁, Renders s arguments w f p w₁ →
      (v.Same w₁ w ∧ draft? s f w = .ok p.toDraft) ∧
      (PrintBroken s f p w₁ → code = 1 ∧ v.files w' = v.files w ∧
        v.output w' = v.output (s.print p.listing w₁).2) ∧
      (ChartLost s f p w₁ → code = 1 ∧ (writeListing s f p w₁).1 = none ∧
        v.Same w' (writeListing s f p w₁).2) := by
  refine ⟨fun hcode => ?_, fun f p w₁ hrenders => ?_⟩
  · cases hflags : Flags.parse arguments with
    | error misuse => exact .inl (run_of_misuse hs.toHidesReports h hflags)
    | ok f =>
      rcases hrun : (generate s (logger s f) f).run w with ⟨r, w₂⟩
      obtain ⟨hends, hsame⟩ := run_of_flags hs.toHidesReports h hflags hrun
      cases r with
      | ok u => exact absurd hends hcode
      | error e =>
        rcases hmade : (assemble s (logger s f) f).run w with ⟨product, w₁⟩
        cases product with
        | error e' =>
          rw [generate, run_bind_error hmade] at hrun
          obtain rfl := congrArg Prod.snd hrun
          exact .inl (hsame.trans (assemble_same hs hmade).1)
        | ok p =>
          rcases generate_failed hs ⟨hflags, hmade⟩ hrun with hkept | hleft
          · exact .inl (hsame.trans hkept)
          · exact .inr ⟨f, p, w₁, ⟨hflags, hmade⟩, hleft⟩
  · obtain ⟨hmade, hdraft⟩ := assemble_same hs hrenders.product
    refine ⟨⟨hmade, hdraft p rfl⟩, fun hprint => ?_, fun hchart => ?_⟩
    · obtain ⟨e, hrun⟩ := generate_of_printBroken hs hrenders hprint
      obtain ⟨hends, hsame⟩ := run_of_flags hs.toHidesReports h hrenders.flags hrun
      exact ⟨hends, (hsame.files.trans (hs.print p.listing w₁)).trans hmade.files, hsame.output⟩
    · obtain ⟨hwritten, e, w₂, hrun, hlisted⟩ := generate_of_chartLost hs hrenders hchart
      obtain ⟨hends, hsame⟩ := run_of_flags hs.toHidesReports h hrenders.flags hrun
      exact ⟨hends, hwritten, hsame.trans hlisted⟩

/-- A chart in a directory that is not there is lost after the listing. A jammed output takes
four characters of it. -/
theorem stray_chart_is_lost :
    (∃ w', run (World.surroundings (StrayChart.setting none)) StrayChart.arguments {} = (1, w') ∧
      w'.tree = {} ∧ w'.output = "" ++ StrayChart.draft.listing) ∧
    ∃ w', run (World.surroundings (StrayChart.setting (some ⟨4, "pipe"⟩))) [] {} = (1, w') ∧
      w'.tree = {} ∧
      w'.output = "" ++ String.ofList (StrayChart.draft.listing.toList.take 4) := by
  refine ⟨?_, ?_⟩
  · rcases hended : run (World.surroundings (StrayChart.setting none)) StrayChart.arguments {}
      with ⟨code, w'⟩
    obtain ⟨p, w₁, hrenders, hlost, hdraft, hsame⟩ := StrayChart.exists_chartLost
    obtain ⟨-, hleft⟩ := failed_run_keeps_view_or_loses_chart (World.orderly _) hended
    obtain ⟨rfl, -, hview⟩ := (hleft _ p w₁ hrenders).2.2 hlost
    refine ⟨w', rfl, hview.files.trans hsame.files, ?_⟩
    rw [← hdraft, show "" = w₁.output from hsame.output.symm]
    exact hview.output
  · rcases hended : run (World.surroundings (StrayChart.setting (some ⟨4, "pipe"⟩))) [] {}
      with ⟨code, w'⟩
    obtain ⟨p, w₁, hrenders, hdraft, hsame⟩ :=
      StrayChart.exists_renders StrayChart.parse_nil (some ⟨4, "pipe"⟩)
    obtain ⟨-, hleft⟩ := failed_run_keeps_view_or_loses_chart (World.orderly _) hended
    obtain ⟨rfl, hfiles, houtput⟩ := (hleft _ p w₁ hrenders).2.1 ⟨rfl, nofun⟩
    refine ⟨w', rfl, hfiles, ?_⟩
    rw [← hdraft, show "" = w₁.output from hsame.output.symm]
    exact houtput

end StepTone.Command
