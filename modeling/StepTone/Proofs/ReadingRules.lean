/-
StepTone.Proofs.ReadingRules — how a profile is put together from readings.

A profile is read in steps that look for a section, read an option of it, or settle on a
value or a fault. A property that these steps have, and that a reading takes over from its
parts, is therefore one of all that is read before the names left over are looked at.

* `Compositional` — a property of that kind.
* `Profile.collect` — the reading of a profile without the look at what is left over.
* `Compositional.collect` — what is compositional holds of it.
* `Profile.ofSettings_eq` — a profile is collected, and then the rest is judged.
-/
import StepTone.Profile
import StepTone.Proofs.AccessTracking

namespace StepTone

open Settings (Kind Reading)

/-! ## Profiles before they are judged -/

namespace Profile

/-- The profile that settings give, whatever else they hold. -/
def collect : Reading Profile := do
  let usual : Profile := {}
  let constants ← ifPresent "timing" usual.constants (readTiming usual.constants)
  let table ← ifPresent "table" usual.table (readTable usual.table)
  let output ← ifPresent "output" usual.output (readOutput usual.output)
  let song ← ifPresent "song" none (some <$> readSong)
  return { constants, table, output, song }

/-- A profile stands if nothing is left over. -/
def judge (p : Profile) : Reading Profile := do
  Reading.check Settings.checkUnusedSections
  Reading.check Settings.checkUnusedOptions
  return p

/-- Reading a profile is collecting its values and then judging what was left unread. -/
theorem ofSettings_eq : ofSettings = collect >>= judge := by
  simp only [ofSettings, collect, judge, bind_assoc, pure_bind]

end Profile

/-! ## Properties of readings -/

namespace Settings

/-- A property of the single steps that a reading takes over from its parts. -/
structure Compositional (P : {α : Type} → Reading α → Prop) : Prop where
  pure {α : Type} (a : α) : P (Pure.pure a : Reading α)
  throw {α : Type} (fault : Fault) : P (MonadExcept.throw fault : Reading α)
  bind {α β : Type} {x : Reading α} {f : α → Reading β} : P x → (∀ a, P (f a)) → P (x >>= f)
  option {α : Type} (name : String) (kind : Kind α) (asked : String) (fallback : Option α) :
    P (Reading.option name kind asked fallback)
  ifPresent {α : Type} {read : Reading α} (name : String) (usual : α) :
    P read → P (Profile.ifPresent name usual read)

namespace Compositional

variable {P : {α : Type} → Reading α → Prop} (h : Compositional P) {α β : Type}

include h

theorem map {x : Reading α} (hx : P x) (f : α → β) : P (f <$> x) := by
  rw [← bind_pure_comp]
  exact h.bind hx fun a => h.pure (f a)

/-- A reading that goes on only if a test fails. -/
theorem guarded {c : Prop} [Decidable c] {fault : Fault} {k : Unit → Reading α}
    (hk : P (k ())) : P (if c then MonadExcept.throw fault >>= k else k ()) := by
  split
  · exact h.bind (h.throw fault) fun _ => hk
  · exact hk

theorem lift (e : Except Fault α) : P (Profile.lift e) := by
  cases e with
  | ok a => exact h.pure a
  | error fault => exact h.throw fault

/-- A property of every round of a loop is one of the loop. -/
theorem foldlM {f : β → α → Reading β} (hf : ∀ b a, P (f b a)) (l : List α) (b : β) :
    P (l.foldlM f b) := by
  induction l generalizing b with
  | nil => exact h.pure b
  | cons a rest ih =>
    rw [List.foldlM_cons]
    exact h.bind (hf b a) ih

/-! ### The four sections -/

theorem readTiming (c : Firmware.Constants) : P (Profile.readTiming c) := by
  refine h.foldlM (fun c k => ?_) _ _
  exact h.bind (h.option _ _ _ _) fun value => h.pure _

theorem readTable (o : Table.Options) : P (Profile.readTable o) := by
  refine h.bind (h.option _ _ _ _) fun bits => ?_
  refine h.bind (h.lift _) fun width => ?_
  refine h.bind (h.option _ _ _ _) fun name => ?_
  exact h.bind (h.lift _) fun encoding => h.pure _

theorem readOutput (l : Listing.Layout) : P (Profile.readOutput l) := by
  refine h.bind (h.option _ _ _ _) fun formatName => ?_
  refine h.bind (h.lift _) fun format => ?_
  refine h.bind (h.option _ _ _ _) fun name => ?_
  refine h.bind (h.lift _) fun _ => ?_
  refine h.bind (h.option _ _ _ _) fun perLine => ?_
  refine h.guarded ?_
  exact h.bind (h.option _ _ _ _) fun summary => h.pure _

theorem readSong : P Profile.readSong := by
  refine h.bind (h.option _ _ _ _) fun scale => ?_
  refine h.guarded ?_
  refine h.bind (h.option _ _ _ _) fun items => ?_
  exact h.bind (h.lift _) fun notes => h.pure _

/-- So it is one of collecting a whole profile. -/
theorem collect : P Profile.collect := by
  refine h.bind (h.ifPresent _ _ (h.readTiming _)) fun constants => ?_
  refine h.bind (h.ifPresent _ _ (h.readTable _)) fun table => ?_
  refine h.bind (h.ifPresent _ _ (h.readOutput _)) fun output => ?_
  exact h.bind (h.ifPresent _ _ (h.map h.readSong some)) fun song => h.pure _

end Compositional

end Settings

end StepTone
