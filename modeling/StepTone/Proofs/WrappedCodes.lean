/-
StepTone.Proofs.WrappedCodes — which codes of a chain are seen from outside.

The links of a fault that are coded each have a code of their own, and a fault may wrap
others to any depth. `Fault.hasCode` stops at the first coded link. A code further inside is
seen through remarks, and not through another code: a mistyped option of a file that cannot
be loaded counts as an unreadable file only.

* `Wraps`, `Carries` — a fault on top of another one, and a code anywhere in a chain.
* `codes` — the codes of a chain, outermost first.
* `carries_iff_mem_codes`, `hasCode_iff_head?` — anywhere in the chain, or in front.
* `hasCode_sees_outermost` — what is seen, and where nothing is missed.
* `mistyping_hides_in_file` — a code that is carried and not seen.
-/
import Mathlib.Logic.Relation
import StepTone.Proofs.ConfigurationFaults

namespace StepTone.Fault

/-! ## Chains -/

/-- The fault stands directly on the other one. -/
def Wraps (f g : Fault) : Prop :=
  f.cause? = some g

/-- The label of the fault's own link, where that link is a coded one. -/
def ownLabel? : Fault → Option Label
  | .coded label | .coding label _ => some label
  | _ => none

/-- The fault is a coded one of this code, whatever it stands on. -/
def IsCoded (f : Fault) (code : Code) : Prop :=
  ∃ label, f.ownLabel? = some label ∧ label.code = code

/-- The fault itself, or one that it wraps directly or through others, is a coded one of
this code. -/
def Carries (f : Fault) (code : Code) : Prop :=
  ∃ g, Relation.ReflTransGen Wraps f g ∧ g.IsCoded code

/-- The fault stands directly on the other one and has no code itself. -/
def Remarks (f g : Fault) : Prop :=
  f.Wraps g ∧ f.ownLabel? = none

/-- The first coded link, from the outside, is one of this code. -/
def IsOutermost (f : Fault) (code : Code) : Prop :=
  ∃ g, Relation.ReflTransGen Remarks f g ∧ g.IsCoded code

/-- The codes of a chain, outermost first. -/
def codes : Fault → List Code
  | .plain _ | .notExist => []
  | .coded label => [label.code]
  | .remark _ cause => cause.codes
  | .coding label cause => label.code :: cause.codes

/-! ## One link -/

/-- What is reached along a chain is reached in no step, or from the cause. -/
theorem exists_reached_iff {r : Fault → Fault → Prop} {p : Fault → Prop} {f : Fault} :
    (∃ g, Relation.ReflTransGen r f g ∧ p g) ↔
      p f ∨ ∃ cause, r f cause ∧ ∃ g, Relation.ReflTransGen r cause g ∧ p g := by
  constructor
  · rintro ⟨g, hchain, hg⟩
    rcases hchain.cases_head with rfl | ⟨cause, hstep, hrest⟩
    · exact .inl hg
    · exact .inr ⟨cause, hstep, g, hrest, hg⟩
  · rintro (hf | ⟨cause, hstep, g, hrest, hg⟩)
    · exact ⟨f, .refl, hf⟩
    · exact ⟨g, .head hstep hrest, hg⟩

theorem carries_step {f : Fault} {code : Code} :
    f.Carries code ↔ f.IsCoded code ∨ ∃ cause, f.Wraps cause ∧ cause.Carries code :=
  exists_reached_iff

theorem isOutermost_step {f : Fault} {code : Code} :
    f.IsOutermost code ↔ f.IsCoded code ∨ ∃ cause, f.Remarks cause ∧ cause.IsOutermost code :=
  exists_reached_iff

/-! ## Whole chains -/

theorem carries_iff_mem_codes {f : Fault} {code : Code} : f.Carries code ↔ code ∈ f.codes := by
  induction f with
  | plain text =>
    rw [carries_step]
    simp [IsCoded, ownLabel?, Wraps, cause?, codes]
  | notExist =>
    rw [carries_step]
    simp [IsCoded, ownLabel?, Wraps, cause?, codes]
  | coded label =>
    rw [carries_step]
    simp [IsCoded, ownLabel?, Wraps, cause?, codes, eq_comm]
  | remark text cause ih =>
    rw [carries_step]
    simp [IsCoded, ownLabel?, Wraps, cause?, codes, ih]
  | coding label cause ih =>
    rw [carries_step]
    simp [IsCoded, ownLabel?, Wraps, cause?, codes, ih, eq_comm]

/-- A coded link hides what it stands on, and only a remark lets it through. -/
theorem isOutermost_iff_head? {f : Fault} {code : Code} :
    f.IsOutermost code ↔ f.codes.head? = some code := by
  induction f with
  | plain text =>
    rw [isOutermost_step]
    simp [IsCoded, ownLabel?, Remarks, Wraps, cause?, codes]
  | notExist =>
    rw [isOutermost_step]
    simp [IsCoded, ownLabel?, Remarks, Wraps, cause?, codes]
  | coded label =>
    rw [isOutermost_step]
    simp [IsCoded, ownLabel?, Remarks, Wraps, cause?, codes]
  | remark text cause ih =>
    rw [isOutermost_step]
    simp [IsCoded, ownLabel?, Remarks, Wraps, cause?, codes, ih]
  | coding label cause _ =>
    rw [isOutermost_step]
    simp [IsCoded, ownLabel?, Remarks, codes]

theorem hasCode_iff_head? {f : Fault} {code : Code} :
    f.hasCode code = true ↔ f.codes.head? = some code := by
  induction f with
  | plain text => simp [hasCode, label?, codes]
  | notExist => simp [hasCode, label?, codes]
  | coded label => simp [hasCode, label?, codes]
  | remark text cause ih => exact ih
  | coding label cause _ => simp [hasCode, label?, codes]

instance (f : Fault) (code : Code) : Decidable (f.Carries code) :=
  decidable_of_iff (code ∈ f.codes) carries_iff_mem_codes.symm

/-- Looking at the front of a list finds all its members exactly if they are all the same. -/
theorem head?_eq_some_iff_mem {α : Type} {xs : List α} :
    (∀ x, xs.head? = some x ↔ x ∈ xs) ↔ ∀ x ∈ xs, ∀ y ∈ xs, x = y := by
  cases xs with
  | nil => simp
  | cons a rest =>
    constructor
    · intro h x hx y hy
      have hfront : ∀ z ∈ a :: rest, a = z := fun z hz => Option.some.inj ((h z).mpr hz)
      exact (hfront x hx).symm.trans (hfront y hy)
    · intro h x
      rw [List.head?_cons, Option.some_inj]
      exact ⟨fun hx => hx ▸ List.mem_cons_self, fun hx => h a List.mem_cons_self x hx⟩

/-- What is seen of a chain from outside. A code is seen exactly if the first coded link has
it. So no code is seen that is not carried, some code is seen where one is carried, and all
codes that are carried are seen exactly in the chains that carry no two different ones. -/
theorem hasCode_sees_outermost (f : Fault) :
    (∀ code, f.hasCode code = true ↔ f.IsOutermost code) ∧
    (∀ code, f.hasCode code = true → f.Carries code) ∧
    ((∃ code, f.Carries code) → ∃ code, f.hasCode code = true) ∧
    ((∀ code, f.hasCode code = true ↔ f.Carries code) ↔
      ∀ code code', f.Carries code → f.Carries code' → code = code') := by
  simp only [hasCode_iff_head?, isOutermost_iff_head?, carries_iff_mem_codes]
  refine ⟨fun _ => trivial, fun _ => List.mem_of_head?, ?_, ?_⟩
  · rintro ⟨code, hcode⟩
    exact ⟨_, List.head?_eq_some_head (List.ne_nil_of_mem hcode)⟩
  · rw [head?_eq_some_iff_mem]
    constructor
    · exact fun h code code' hcode => h code hcode code'
    · exact fun h code hcode code' => h code code' hcode

/-! ## A code behind a code -/

/-- A profile with a date for a name. -/
def datedProfile : String :=
  "[output]\nname = 1979-05-27\n"

/-- The fault of loading this profile carries the code of a mistyped option, and a question
for that code is answered with no: the file is all that is seen. -/
theorem mistyping_hides_in_file :
    ∃ f, Profile.load Toml.decode "p.toml" (.ok datedProfile) = .error f ∧
      f.Carries .configType ∧ f.hasCode .configType = false ∧
      f.Carries .configFile ∧ f.hasCode .configFile = true := by
  have hload : ((Profile.load Toml.decode "p.toml" (.ok datedProfile)).map fun _ => ()).mapError
      codes = .error [.configFile, .configType] := by
    decide +kernel
  cases hf : Profile.load Toml.decode "p.toml" (.ok datedProfile) with
  | ok p =>
    rw [hf] at hload
    cases hload
  | error f =>
    rw [hf] at hload
    have hcodes : f.codes = [.configFile, .configType] := Except.error.inj hload
    have hasked (code : Code) : f.hasCode code = true ↔ Code.configFile = code := by
      rw [hasCode_iff_head?, hcodes, List.head?_cons, Option.some_inj]
    refine ⟨f, rfl, ?_, ?_, ?_, (hasked _).mpr rfl⟩
    · rw [carries_iff_mem_codes, hcodes]
      decide
    · rw [Bool.eq_false_iff, ne_eq, hasked]
      decide
    · rw [carries_iff_mem_codes, hcodes]
      decide

end StepTone.Fault
