/-
StepTone.Proofs.RegisterStorage — what the register has to do with a table.

Width and encoding of the register say how a delay is stored. They come in after the
frequencies and the exact numbers of halts are settled, so tables for two registers, made
from the same constants, differ in what is stored and in nothing else.

* `Constants.SameTable` — constants that agree on all that a table depends on.
* `climb`, `sampled` — making a table, cut in two: what the register has no part in, and the
  rows for a register.
* `generate_eq_map` — the two parts together.
* `clamp_eight`, `outgrows_eight` — a narrow register against a wide one.
* `storage_only` — tables for two registers.
-/
import StepTone.Proofs.TableGeneration

namespace StepTone

namespace Firmware.Constants

/-- The two agree on the constants that a table depends on. -/
def SameTable (c c' : Constants) : Prop :=
  ∀ k ∈ Constant.ofTable, c.get k = c'.get k

instance (c c' : Constants) : Decidable (SameTable c c') :=
  inferInstanceAs (Decidable (∀ k ∈ Constant.ofTable, c.get k = c'.get k))

variable {c c' : Constants}

/-- Only the bookkeeping between two notes is left open. -/
theorem SameTable.eq_set (h : c.SameTable c') : c' = c.set .outerLoopMoves c'.outerLoopMoves := by
  obtain ⟨clock, move, halt, moves, outer⟩ := c
  obtain ⟨clock', move', halt', moves', outer'⟩ := c'
  obtain rfl : clock = clock' := h .clockHz (by decide)
  obtain rfl : move = move' := h .moveCycles (by decide)
  obtain rfl : halt = halt' := h .haltCycles (by decide)
  obtain rfl : moves = moves' := h .freqLoopMoves (by decide)
  rfl

theorem SameTable.delayForFrequency_eq {F : Type} [Arithmetic F] (h : c.SameTable c') (freq : F) :
    c.delayForFrequency freq = c'.delayForFrequency freq := by
  rw [h.eq_set]
  rfl

theorem SameTable.validate_eq {F : Type} (h : c.SameTable c') :
    (c.validate : Except (BoundsFault F) Unit) = c'.validate := by
  have hfirst : c.firstNonPositive = c'.firstNonPositive :=
    List.find?_congr fun k hk => by rw [h k hk]
  rw [validate, validate, hfirst]
  cases hk : c'.firstNonPositive with
  | none => rfl
  | some k => simp only [h k (List.mem_of_find?_eq_some hk)]

/-- Constants that agree have the same bounds, or lack them for the same reason. -/
theorem SameTable.bounds_eq (h : c.SameTable c') :
    (c.bounds : Except (BoundsFault Float) (Bounds Float)).mapError (·.toFault) =
      (c'.bounds : Except (BoundsFault Float) (Bounds Float)).mapError (·.toFault) := by
  have hover : c.overflows = c'.overflows := by
    rw [h.eq_set]
    rfl
  have hlimits : (c.limits : Bounds Float) = c'.limits := by
    rw [h.eq_set]
    rfl
  have hfault : (BoundsFault.cycleOverflow c : BoundsFault Float).toFault =
      (BoundsFault.cycleOverflow c').toFault := by
    rw [h.eq_set]
    rfl
  rw [bounds, bounds, h.validate_eq, hover, hlimits]
  cases (c'.validate : Except (BoundsFault Float) Unit) with
  | error fault => rfl
  | ok _ =>
    cases c'.overflows with
    | true => exact congrArg Except.error hfault
    | false => rfl

end Firmware.Constants

namespace Table

open Firmware (Constants Bounds BoundsFault)

/-! ## Making a table in two parts -/

section

variable {F : Type} [Arithmetic F]

/-- The bounds of constants whose ladder rises at every row, or why it does not. -/
def climb (scale : LogScale F) (c : Constants) : Except (GenerateFault F) (Bounds F) := do
  let b ← (c.bounds : Except (BoundsFault F) (Bounds F)).mapError .bounds
  match firstStall (ladder scale b) with
  | some row => throw (.narrow b.fMin b.fMax row)
  | none => return b

/-- The table between bounds for a register. -/
def sampled (scale : LogScale F) (c : Constants) (o : Options) (b : Bounds F) : Table F where
  constants := c
  bounds := b
  options := o
  entries := Vector.ofFn fun i => .sample c o.width i.val ((ladder scale b).get i)

theorem generate_eq_map (scale : LogScale F) (c : Constants) {o : Options}
    (h : o.withDefault.width.isBuilt = true) :
    generate scale c o = (climb scale c).map (sampled scale c o.withDefault) := by
  rw [generate, climb, h]
  cases (c.bounds : Except (BoundsFault F) (Bounds F)) with
  | error fault => rfl
  | ok b =>
    simp only [Except.mapError, bind, Except.bind]
    cases firstStall (ladder scale b) with
    | some row => rfl
    | none => rfl

theorem generate_of_unbuilt (scale : LogScale F) (c : Constants) {o : Options}
    (h : o.withDefault.width.isBuilt = false) :
    generate scale c o = .error (.width o.withDefault.width.bits) := by
  rw [generate, h]
  rfl

@[simp] theorem sampled_get (scale : LogScale F) (c : Constants) (o : Options) (b : Bounds F)
    (i : Fin size) : (sampled scale c o b).entries.get i =
      .sample c o.width i.val ((ladder scale b).get i) :=
  Vector.getElem_ofFn i.isLt

end

/-! ## Two registers -/

/-- A narrow register keeps what a wide one keeps, up to its own largest value. -/
theorem clamp_eight (n : ℤ) :
    (clamp .eight n).toNat = min (clamp .sixteen n).toNat 255 := by
  have hnarrow := clamp_toNat .eight n
  have hwide := clamp_toNat .sixteen n
  have hmax : Width.eight.max.toNat = 255 := by decide
  have hmax' : Width.sixteen.max.toNat = 65535 := by decide
  omega

/-- A number of halts outgrows a narrow register if it outgrows a wide one, or if it is
stored there and is too large for a narrow one. -/
theorem outgrows_eight (n : ℤ) : outgrows .eight n = true ↔
    outgrows .sixteen n = true ∨ 255 < (clamp .sixteen n).toNat := by
  have hwide := clamp_toNat .sixteen n
  have hmax : Width.eight.max.toNat = 255 := by decide
  have hmax' : Width.sixteen.max.toNat = 65535 := by decide
  rw [outgrows_iff, outgrows_iff]
  omega

/-- Two tables that differ in what is stored: the first one for a narrow register, the second
one for a wide one. -/
structure Narrowed (t t' : Table Float) : Prop where
  bounds : t.bounds = t'.bounds
  frequency : ∀ i, (t.entries.get i).frequency = (t'.entries.get i).frequency
  exact : ∀ i, (t.entries.get i).exact = (t'.entries.get i).exact
  delay : ∀ i, (t.entries.get i).delay.toNat = min (t'.entries.get i).delay.toNat 255
  clamped : ∀ i, (t.entries.get i).clamped = true ↔
    (t'.entries.get i).clamped = true ∨ 255 < (t'.entries.get i).delay.toNat

/-- Two tables with the same bounds and the same rows. -/
structure SameRows (t t' : Table Float) : Prop where
  bounds : t.bounds = t'.bounds
  entries : t.entries = t'.entries

/-- Two runs that fail for the same reason, or make tables that are related. -/
inductive Parallel (R : Table Float → Table Float → Prop) :
    Except (GenerateFault Float) (Table Float) → Except (GenerateFault Float) (Table Float) → Prop
  | fail {fault fault' : GenerateFault Float} (h : fault.toFault = fault'.toFault) :
    Parallel R (.error fault) (.error fault')
  | make {t t' : Table Float} (h : R t t') : Parallel R (.ok t) (.ok t')

section

variable {scale : LogScale Float} {c c' : Constants} {o o' : Options}

theorem sample_eq (h : c.SameTable c') (w : Width) (i : ℕ) (f : Float) :
    Entry.sample c w i f = Entry.sample c' w i f := by
  simp only [Entry.sample, h.delayForFrequency_eq]

theorem sameRows_sampled (h : c.SameTable c') (hwidth : o.width = o'.width) (b : Bounds Float) :
    SameRows (sampled scale c o b) (sampled scale c' o' b) where
  bounds := rfl
  entries := by simp only [sampled, hwidth, sample_eq h]

theorem narrowed_sampled (h : c.SameTable c') (hnarrow : o.width = .eight)
    (hwide : o'.width = .sixteen) (b : Bounds Float) :
    Narrowed (sampled scale c o b) (sampled scale c' o' b) where
  bounds := rfl
  frequency i := by simp only [sampled_get, Entry.sample]
  exact i := by simp only [sampled_get, Entry.sample, h.delayForFrequency_eq]
  delay i := by
    simp only [sampled_get, Entry.sample, hnarrow, hwide, h.delayForFrequency_eq]
    exact clamp_eight _
  clamped i := by
    simp only [sampled_get, Entry.sample, hnarrow, hwide, h.delayForFrequency_eq]
    exact outgrows_eight _

/-- Constants that agree have the same ladder, or none for the same reason. -/
theorem climb_eq (scale : LogScale Float) (h : c.SameTable c') :
    (climb scale c).mapError (·.toFault) = (climb scale c').mapError (·.toFault) := by
  have hbounds := h.bounds_eq
  rw [climb, climb]
  cases hb : (c.bounds : Except (BoundsFault Float) (Bounds Float)) with
  | error fault =>
    cases hb' : (c'.bounds : Except (BoundsFault Float) (Bounds Float)) with
    | error fault' =>
      rw [hb, hb'] at hbounds
      exact congrArg Except.error (Except.error.inj hbounds)
    | ok b' =>
      rw [hb, hb'] at hbounds
      cases hbounds
  | ok b =>
    cases hb' : (c'.bounds : Except (BoundsFault Float) (Bounds Float)) with
    | error fault' =>
      rw [hb, hb'] at hbounds
      cases hbounds
    | ok b' =>
      rw [hb, hb'] at hbounds
      rw [Except.ok.inj hbounds]

/-- What holds of the rows for two registers, whatever the bounds, holds of two runs. -/
theorem parallel_generate {R : Table Float → Table Float → Prop} (h : c.SameTable c')
    (hbuilt : o.withDefault.width.isBuilt = true) (hbuilt' : o'.withDefault.width.isBuilt = true)
    (hR : ∀ b, R (sampled scale c o.withDefault b) (sampled scale c' o'.withDefault b)) :
    Parallel R (generate scale c o) (generate scale c' o') := by
  have hclimb := climb_eq scale h
  rw [generate_eq_map scale c hbuilt, generate_eq_map scale c' hbuilt']
  cases hrun : climb scale c with
  | error fault =>
    cases hrun' : climb scale c' with
    | error fault' =>
      rw [hrun, hrun'] at hclimb
      exact .fail (Except.error.inj hclimb)
    | ok b' =>
      rw [hrun, hrun'] at hclimb
      cases hclimb
  | ok b =>
    cases hrun' : climb scale c' with
    | error fault' =>
      rw [hrun, hrun'] at hclimb
      cases hclimb
    | ok b' =>
      rw [hrun, hrun'] at hclimb
      obtain rfl : b = b' := Except.ok.inj hclimb
      exact .make (hR b)

/-- The register says how delays are stored and nothing else. From constants that agree, a
narrow and a wide register give the same fault, or tables with the same bounds, frequencies
and exact numbers of halts, in which the narrow register keeps what it can of the wide one;
and registers of one width give the same fault or the same rows. -/
theorem storage_only (scale : LogScale Float) (h : c.SameTable c') :
    (∀ o o' : Options, o.width.bits = 8 ∨ o.width.bits = 0 → o'.width.bits = 16 →
      Parallel Narrowed (generate scale c o) (generate scale c' o')) ∧
    ∀ o o' : Options, o.width = o'.width →
      Parallel SameRows (generate scale c o) (generate scale c' o') := by
  constructor
  · intro o o' hnarrow hwide
    have hwidth : o.withDefault.width = .eight := by
      obtain ⟨⟨bits⟩, encoding⟩ := o
      rcases hnarrow with rfl | rfl
      · rfl
      · rfl
    have hwidth' : o'.withDefault.width = .sixteen := by
      obtain ⟨⟨bits⟩, encoding⟩ := o'
      obtain rfl := hwide
      rfl
    exact parallel_generate h (by rw [hwidth]; decide) (by rw [hwidth']; decide)
      (narrowed_sampled h hwidth hwidth')
  · intro o o' hsame
    have hwidth : o.withDefault.width = o'.withDefault.width := by
      simp only [Options.withDefault, hsame]
      split
      · rfl
      · exact hsame
    cases hbuilt : o.withDefault.width.isBuilt with
    | true => exact parallel_generate h hbuilt (hwidth ▸ hbuilt) (sameRows_sampled h hwidth)
    | false =>
      rw [generate_of_unbuilt scale c hbuilt, generate_of_unbuilt scale c' (hwidth ▸ hbuilt),
        hwidth]
      exact .fail rfl

end

/-- The lowest frequency of the usual constants asks for one halt more than a narrow register
holds. -/
theorem sample_lowest (c : Constants) (h : ({} : Constants).SameTable c) :
    (Entry.sample c .sixteen 0 HalfHertz.limits.fMin).delay = 256 ∧
      (Entry.sample c .sixteen 0 HalfHertz.limits.fMin).clamped = false := by
  have hhalts :
      Arithmetic.round (({} : Constants).delayForFrequency HalfHertz.limits.fMin) = 256 := by
    decide +kernel
  rw [← sample_eq h]
  simp only [Entry.sample, hhalts]
  decide

/-- The usual constants for a narrow register, inverted, and for a wide one, with another
bookkeeping between notes. -/
theorem storage_of_usual : ({} : Constants).SameTable { outerLoopMoves := 5 } ∧
    ∃ t t', generate HalfHertz.scale {} { width := ⟨0⟩, encoding := .inverted } = .ok t ∧
      generate HalfHertz.scale { outerLoopMoves := 5 } { width := ⟨16⟩ } = .ok t' ∧
      Narrowed t t' ∧ (t'.entries.get 0).delay = 256 ∧ (t'.entries.get 0).clamped = false ∧
      (t.entries.get 0).delay.toNat = 255 ∧ (t.entries.get 0).clamped = true := by
  have hsame : ({} : Constants).SameTable { outerLoopMoves := 5 } := by decide
  have hmade := generate_eq_ok (o := { width := ⟨0⟩, encoding := .inverted }) rfl
    HalfHertz.bounds_eq HalfHertz.climbs
  have hnarrowed := (storage_only HalfHertz.scale hsame).1
    { width := ⟨0⟩, encoding := .inverted } { width := ⟨16⟩ } (.inr rfl) rfl
  cases hrun : generate HalfHertz.scale { outerLoopMoves := 5 } { width := ⟨16⟩ } with
  | error fault =>
    rw [hmade, hrun] at hnarrowed
    cases hnarrowed
  | ok t' =>
    rw [hmade, hrun] at hnarrowed
    obtain ⟨⟩ | ⟨hnarrowed⟩ := hnarrowed
    have hmade' := made_of_generate hrun
    have hwidth : t'.options.width = .sixteen := congrArg Options.width hmade'.options
    have hbounds : t'.bounds = HalfHertz.limits := hnarrowed.bounds.symm
    have hrow : t'.entries.get 0 =
        .sample { outerLoopMoves := 5 } .sixteen 0 HalfHertz.limits.fMin := by
      rw [hmade'.row, hwidth, hbounds, ladder_zero]
      rfl
    obtain ⟨hdelay, hclamped⟩ := sample_lowest _ hsame
    rw [← hrow] at hdelay hclamped
    refine ⟨hsame, _, t', hmade, rfl, hnarrowed, hdelay, hclamped, ?_, ?_⟩
    · rw [hnarrowed.delay, hdelay]
      decide
    · rw [hnarrowed.clamped, hdelay]
      exact .inr (by decide)

end Table

end StepTone
