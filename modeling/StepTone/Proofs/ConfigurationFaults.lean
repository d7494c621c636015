/-
StepTone.Proofs.ConfigurationFaults — what is wrong with a configuration is reported as such.

Faults arise in many places on the way from a file to a table: in the operating system, in
the readers of two notations, in the kinds of options, in the checks of three parts of a
profile. Some of them start without a code, or with a code of another class. On their way
out all of them get a coded link of the configuration class on top.

* `Fault.CodedIn` — a fault whose outermost link is coded, with one of some codes.
* `ErrsIn`, `Settings.FailsIn` — results and readings that fail with such faults only.
* `failsIn_ofSettings` — settings that make no profile.
* `errsIn_settingsOfFile` — files that give no settings.
* `codedIn_toFault` — constants and registers that give no table.
* `configuration_faults_are_coded` — all of them together.
-/
import StepTone.Proofs.AccessTracking
import StepTone.Profile
import StepTone.Table.Generate
import StepTone.Toml.Document

namespace StepTone

/-! ## Faults by their code -/

namespace Fault

/-- The outermost link is a coded one, and has one of the codes. -/
def CodedIn (codes : List Code) (f : Fault) : Prop :=
  ∃ label cause, f = .ofLabel label cause ∧ label.code ∈ codes

theorem label?_ofLabel (label : Label) (cause : Option Fault) :
    (ofLabel label cause).label? = some label := by
  cases cause with
  | none => rfl
  | some cause => rfl

theorem hasCode_iff {f : Fault} {code : Code} :
    f.hasCode code = true ↔ ∃ label, f.label? = some label ∧ label.code = code := by
  simp [hasCode, Option.any_eq_true]

namespace CodedIn

variable {codes : List Code} {f : Fault}

theorem exists_label (h : f.CodedIn codes) : ∃ label cause, f = .ofLabel label cause := by
  obtain ⟨label, cause, hf, -⟩ := h
  exact ⟨label, cause, hf⟩

theorem exists_hasCode (h : f.CodedIn codes) : ∃ code ∈ codes, f.hasCode code = true := by
  obtain ⟨label, cause, rfl, hcode⟩ := h
  exact ⟨label.code, hcode, hasCode_iff.mpr ⟨label, label?_ofLabel label cause, rfl⟩⟩

/-- A fault has no other code than that of its outermost link. -/
theorem mem_of_hasCode (h : f.CodedIn codes) {code : Code} (hcode : f.hasCode code = true) :
    code ∈ codes := by
  obtain ⟨label, cause, rfl, hmem⟩ := h
  obtain ⟨label', hlabel, rfl⟩ := hasCode_iff.mp hcode
  rw [label?_ofLabel, Option.some.injEq] at hlabel
  exact hlabel ▸ hmem

theorem isConfig (h : f.CodedIn codes) (hcodes : codes ⊆ Code.config) : f.isConfig = true := by
  obtain ⟨code, hmem, hcode⟩ := h.exists_hasCode
  exact List.any_eq_true.mpr ⟨code, hcodes hmem, hcode⟩

end CodedIn

end Fault

/-! ## Results that are faults -/

section

variable {α β : Type} {codes : List Code}

/-- A result that is no fault of other codes. -/
def ErrsIn (codes : List Code) (e : Except Fault α) : Prop :=
  ∀ fault, e = .error fault → fault.CodedIn codes

namespace ErrsIn

theorem ok (a : α) : ErrsIn codes (.ok a) := by
  intro fault h
  cases h

theorem error {fault : Fault} (h : fault.CodedIn codes) :
    ErrsIn codes (.error fault : Except Fault α) := by
  intro fault' h'
  cases h'
  exact h

theorem bind {e : Except Fault α} {f : α → Except Fault β} (he : ErrsIn codes e)
    (hf : ∀ a, ErrsIn codes (f a)) : ErrsIn codes (e >>= f) := by
  cases e with
  | ok a => exact hf a
  | error fault => exact error (he fault rfl)

/-- What a fault was before does not matter once another link stands on top of it. -/
theorem mapError {ε : Type} {e : Except ε α} {f : ε → Fault}
    (hf : ∀ cause, (f cause).CodedIn codes) : ErrsIn codes (e.mapError f) := by
  cases e with
  | ok a => exact ok a
  | error cause => exact error (hf cause)

theorem mapM {f : α → Except Fault β} (hf : ∀ a, ErrsIn codes (f a)) (l : List α) :
    ErrsIn codes (l.mapM f) := by
  induction l with
  | nil => exact ok []
  | cons a rest ih =>
    rw [List.mapM_cons]
    exact (hf a).bind fun b => ih.bind fun bs => ok (b :: bs)

end ErrsIn

/-! ## Readings that fail -/

namespace Settings

/-- A reading that fails with faults of these codes only. -/
def FailsIn (codes : List Code) (x : Reading α) : Prop :=
  ∀ s, ErrsIn codes (x.run s).1

namespace FailsIn

theorem pure (a : α) : FailsIn codes (Pure.pure a) := by
  intro s
  exact .ok a

theorem throw {fault : Fault} (h : fault.CodedIn codes) :
    FailsIn codes (MonadExcept.throw fault : Reading α) := by
  intro s
  exact .error h

theorem bind {x : Reading α} {f : α → Reading β} (hx : FailsIn codes x)
    (hf : ∀ a, FailsIn codes (f a)) : FailsIn codes (x >>= f) := by
  intro s
  have hfirst := hx s
  rw [Reading.run_bind]
  rcases hrun : x.run s with ⟨r, t⟩
  rw [hrun] at hfirst
  cases r with
  | ok a => exact hf a t
  | error fault => exact .error (hfirst fault rfl)

theorem map {x : Reading α} (hx : FailsIn codes x) (f : α → β) : FailsIn codes (f <$> x) := by
  rw [← bind_pure_comp]
  exact hx.bind fun a => .pure (f a)

/-- A reading that goes on only if a test fails. -/
theorem guarded {c : Prop} [Decidable c] {fault : Fault} {k : Unit → Reading α}
    (hfault : fault.CodedIn codes) (hk : FailsIn codes (k ())) :
    FailsIn codes (if c then MonadExcept.throw fault >>= k else k ()) := by
  split
  · exact (throw hfault).bind fun _ => hk
  · exact hk

theorem lift {e : Except Fault α} (h : ErrsIn codes e) : FailsIn codes (Profile.lift e) := by
  cases e with
  | ok a => exact .pure a
  | error fault => exact .throw (h fault rfl)

theorem foldlM {f : β → α → Reading β} (hf : ∀ b a, FailsIn codes (f b a)) (l : List α) (b : β) :
    FailsIn codes (l.foldlM f b) := by
  induction l generalizing b with
  | nil => exact .pure b
  | cons a rest ih =>
    rw [List.foldlM_cons]
    exact (hf b a).bind ih

theorem check {f : Settings → Except Fault Unit} (h : ∀ s, ErrsIn codes (f s)) :
    FailsIn codes (Reading.check f) := by
  intro s
  rw [Reading.run_check]
  exact h s

theorem ifPresent {read : Reading α} (hread : FailsIn codes read) (name : String) (usual : α) :
    FailsIn codes (Profile.ifPresent name usual read) := by
  have hfetch : FailsIn codes (Reading.fetch? name) := fun s => .ok (s.section? name)
  refine hfetch.bind fun found => ?_
  cases found with
  | none => exact .pure usual
  | some sec => exact hread

end FailsIn

end Settings

end

/-! ## Settings that make no profile -/

namespace Profile

open Settings

/-- The codes of what can be wrong with settings. -/
def codes : List Code :=
  [.configSection, .configOption, .configValidation, .configType]

theorem codedIn_invalid (sectionName optionName reason : String) :
    (Fault.invalid sectionName optionName reason).CodedIn codes :=
  ⟨_, none, rfl, (by decide : Code.configValidation ∈ codes)⟩

theorem codedIn_mistyped (sectionName optionName value kind : String) (cause : Option Fault) :
    (Fault.mistyped sectionName optionName value kind cause).CodedIn codes :=
  ⟨_, cause, rfl, (by decide : Code.configType ∈ codes)⟩

theorem errsIn_get {α : Type} (sec : Section) (kind : Kind α) (asked : String)
    (fallback : Option α) : ErrsIn codes (sec.get kind asked fallback) := by
  unfold Section.get
  split
  · split
    · exact .ok _
    · exact .error (codedIn_mistyped _ _ _ _ _)
  · split
    · exact .ok _
    · exact .error ⟨_, none, rfl, (by decide : Code.configOption ∈ codes)⟩

theorem failsIn_option {α : Type} (name : String) (kind : Kind α) (asked : String)
    (fallback : Option α) : FailsIn codes (Reading.option name kind asked fallback) := by
  intro s
  cases hsec : s.section? name with
  | none =>
    rw [Reading.run_option_of_none hsec]
    exact .error ⟨_, none, rfl, (by decide : Code.configSection ∈ codes)⟩
  | some sec =>
    rw [Reading.run_option_of_section hsec]
    exact errsIn_get sec kind asked fallback

theorem errsIn_width (bits : Int64) : ErrsIn codes (Table.Width.ofBits bits) := by
  unfold Table.Width.ofBits
  split
  · exact .ok _
  · exact .error (codedIn_invalid _ _ _)

theorem errsIn_encoding (name : String) : ErrsIn codes (Table.Encoding.ofName name) := by
  unfold Table.Encoding.ofName
  dsimp only
  split
  · exact .ok _
  · split
    · exact .ok _
    · exact .error (codedIn_invalid _ _ _)

theorem errsIn_checkName (name : String) : ErrsIn codes (Listing.checkName name) := by
  unfold Listing.checkName
  split
  · exact .error (codedIn_invalid _ _ _)
  · split
    · exact .error (codedIn_invalid _ _ _)
    · exact .ok _

theorem errsIn_note (sectionName item : String) : ErrsIn codes (note sectionName item) := by
  unfold note
  dsimp only
  split
  · exact .error (codedIn_mistyped _ _ _ _ _)
  · refine (ErrsIn.mapError fun _ => codedIn_mistyped _ _ _ _ _).bind fun frequency => ?_
    refine (ErrsIn.mapError fun _ => codedIn_mistyped _ _ _ _ _).bind fun durationMs => ?_
    split
    · exact .ok _
    · exact .error (codedIn_mistyped _ _ _ _ _)

theorem failsIn_readTiming (c : Firmware.Constants) : FailsIn codes (readTiming c) := by
  refine FailsIn.foldlM (fun c k => ?_) _ _
  exact (failsIn_option _ _ _ _).bind fun value => .pure _

theorem failsIn_readTable (o : Table.Options) : FailsIn codes (readTable o) := by
  refine (failsIn_option _ _ _ _).bind fun bits => ?_
  refine (FailsIn.lift (errsIn_width bits)).bind fun width => ?_
  refine (failsIn_option _ _ _ _).bind fun name => ?_
  exact (FailsIn.lift (errsIn_encoding name)).bind fun encoding => .pure _

theorem failsIn_readOutput (l : Listing.Layout) : FailsIn codes (readOutput l) := by
  refine (failsIn_option _ _ _ _).bind fun formatName => ?_
  -- an unknown format has a code of another class, which ends up inside the message
  refine (FailsIn.lift (.mapError fun _ => codedIn_invalid _ _ _)).bind fun format => ?_
  refine (failsIn_option _ _ _ _).bind fun name => ?_
  refine (FailsIn.lift (errsIn_checkName name)).bind fun _ => ?_
  refine (failsIn_option _ _ _ _).bind fun perLine => ?_
  refine .guarded (codedIn_invalid _ _ _) ?_
  exact (failsIn_option _ _ _ _).bind fun summary => .pure _

theorem failsIn_readSong : FailsIn codes readSong := by
  refine (failsIn_option _ _ _ _).bind fun scale => ?_
  refine .guarded (codedIn_invalid _ _ _) ?_
  refine (failsIn_option _ _ _ _).bind fun items => ?_
  exact (FailsIn.lift (.mapM (errsIn_note "song") items)).bind fun notes => .pure _

theorem errsIn_checkUnusedSections (s : Settings) : ErrsIn codes s.checkUnusedSections := by
  unfold checkUnusedSections
  split
  · exact .ok _
  · exact .error ⟨_, none, rfl, (by decide : Code.configSection ∈ codes)⟩

theorem errsIn_checkUnusedOptions (s : Settings) : ErrsIn codes s.checkUnusedOptions := by
  unfold checkUnusedOptions
  split
  · exact .ok _
  · exact .error ⟨_, none, rfl, (by decide : Code.configOption ∈ codes)⟩

/-- Settings that make no profile fail with a fault of the settings. -/
theorem failsIn_ofSettings : FailsIn codes ofSettings := by
  refine ((failsIn_readTiming _).ifPresent _ _).bind fun constants => ?_
  refine ((failsIn_readTable _).ifPresent _ _).bind fun table => ?_
  refine ((failsIn_readOutput _).ifPresent _ _).bind fun output => ?_
  refine ((failsIn_readSong.map some).ifPresent _ _).bind fun song => ?_
  refine (FailsIn.check errsIn_checkUnusedSections).bind fun _ => ?_
  exact (FailsIn.check errsIn_checkUnusedOptions).bind fun _ => .pure _

/-! ## Files -/

/-- Whatever keeps a file from giving settings, the file is reported as unreadable. -/
theorem errsIn_settingsOfFile (decode : Toml.Decoder) (path : String)
    (contents : Except Fault String) :
    ErrsIn [.configFile] (settingsOfFile decode path contents) :=
  .mapError fun cause => ⟨_, some cause, rfl, List.mem_singleton_self Code.configFile⟩

/-- A file that makes no profile gives no settings, or settings that make none. -/
theorem load_eq_error {decode : Toml.Decoder} {path : String} {contents : Except Fault String}
    {fault : Fault} (h : load decode path contents = .error fault) :
    ((∃ cause, settingsOfFile decode path contents = .error cause) ∧
      fault.CodedIn [.configFile]) ∨
    ((∃ s, settingsOfFile decode path contents = .ok s) ∧ fault.CodedIn codes) := by
  have hfile := errsIn_settingsOfFile decode path contents
  unfold load at h
  cases hsettings : settingsOfFile decode path contents with
  | error cause =>
    rw [hsettings] at h hfile
    cases h
    exact .inl ⟨⟨fault, rfl⟩, hfile fault rfl⟩
  | ok s =>
    rw [hsettings] at h
    exact .inr ⟨⟨s, rfl⟩, failsIn_ofSettings s fault h⟩

end Profile

/-! ## Tables -/

/-- Every reason for which there is no table is reported with a code of the configuration. -/
theorem Table.codedIn_toFault (fault : Table.GenerateFault Float) :
    fault.toFault.CodedIn [.configValidation, .configDegenerate] := by
  cases fault with
  | width bits => exact ⟨_, none, rfl, List.mem_cons_self⟩
  | bounds fault =>
    cases fault with
    | nonPositive k value => exact ⟨_, none, rfl, List.mem_cons_self⟩
    | cycleOverflow c => exact ⟨_, none, rfl, List.mem_cons_of_mem _ List.mem_cons_self⟩
    | degenerate fMin fMax => exact ⟨_, none, rfl, List.mem_cons_of_mem _ List.mem_cons_self⟩
  | narrow fMin fMax row => exact ⟨_, none, rfl, List.mem_cons_of_mem _ List.mem_cons_self⟩

/-! ## Everything together -/

/-- Whatever a file holds, whether or not it can be read, and whatever reads TOML: if it makes
no profile, this is reported by a coded fault of the configuration class, and its code is that
of files exactly if not even settings could be read. The same class reports constants and
registers that give no table. -/
theorem configuration_faults_are_coded (decode : Toml.Decoder) (path : String)
    (contents : Except Fault String) (scale : LogScale Float) (c : Firmware.Constants)
    (o : Table.Options) :
    (∀ fault, Profile.load decode path contents = .error fault →
      (∃ label cause, fault = .ofLabel label cause) ∧ fault.isConfig = true ∧
      (fault.hasCode .configFile = true ↔
        ∃ cause, Profile.settingsOfFile decode path contents = .error cause)) ∧
    ∀ fault, Table.generate scale c o = .error fault →
      (∃ label cause, fault.toFault = .ofLabel label cause) ∧ fault.toFault.isConfig = true := by
  refine ⟨?_, ?_⟩
  · intro fault h
    rcases Profile.load_eq_error h with ⟨hunread, hcoded⟩ | ⟨⟨s, hread⟩, hcoded⟩
    · obtain ⟨code, hcode, hhas⟩ := hcoded.exists_hasCode
      obtain rfl := List.mem_singleton.mp hcode
      exact ⟨hcoded.exists_label, hcoded.isConfig (by decide), iff_of_true hhas hunread⟩
    · have hno : ¬ fault.hasCode .configFile = true := by
        intro hhas
        exact absurd (hcoded.mem_of_hasCode hhas) (by decide)
      refine ⟨hcoded.exists_label, hcoded.isConfig (by decide), iff_of_false hno ?_⟩
      simp [hread]
  · intro fault _
    have hcoded := Table.codedIn_toFault fault
    exact ⟨hcoded.exists_label, hcoded.isConfig (by decide)⟩

/-- A file that is not there, a file with a format that is not known, and a register of
seven bits. -/
theorem configuration_faults_of_three :
    (∃ fault, Profile.load Toml.decode "p.toml"
        (.error (.plain "open p.toml: no such file or directory")) = .error fault ∧
      fault.isConfig = true ∧ fault.hasCode .configFile = true) ∧
    (∃ fault, Profile.load Toml.decode "p.cfg" (.ok "[output]\nformat: wav\n") = .error fault ∧
      fault.isConfig = true ∧ fault.hasCode .configFile = false) ∧
    ∃ fault, Table.generate ⟨id, id⟩ {} { width := ⟨7⟩ } = .error fault ∧
      fault.toFault.isConfig = true := by
  refine ⟨?_, ?_, ?_⟩
  · obtain ⟨hload, -⟩ := configuration_faults_are_coded Toml.decode "p.toml"
      (.error (.plain "open p.toml: no such file or directory")) ⟨id, id⟩ {} {}
    obtain ⟨-, hconfig, hfile⟩ := hload _ rfl
    exact ⟨_, rfl, hconfig, hfile.mpr ⟨_, rfl⟩⟩
  · obtain ⟨hload, -⟩ := configuration_faults_are_coded Toml.decode "p.cfg"
      (.ok "[output]\nformat: wav\n") ⟨id, id⟩ {} {}
    have hread :
        (Profile.settingsOfFile Toml.decode "p.cfg" (.ok "[output]\nformat: wav\n")).isOk =
          true := by
      decide +kernel
    have hfails :
        (Profile.load Toml.decode "p.cfg" (.ok "[output]\nformat: wav\n")).isOk = false := by
      decide +kernel
    cases h : Profile.load Toml.decode "p.cfg" (.ok "[output]\nformat: wav\n") with
    | ok p =>
      rw [h] at hfails
      cases hfails
    | error fault =>
      obtain ⟨-, hconfig, hfile⟩ := hload fault h
      refine ⟨fault, rfl, hconfig, Bool.eq_false_iff.mpr fun hhas => ?_⟩
      obtain ⟨cause, hcause⟩ := hfile.mp hhas
      rw [hcause] at hread
      cases hread
  · obtain ⟨-, hgenerate⟩ := configuration_faults_are_coded Toml.decode "" (.ok "") ⟨id, id⟩ {}
      { width := ⟨7⟩ }
    exact ⟨_, rfl, (hgenerate _ rfl).2⟩

end StepTone
