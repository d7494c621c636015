/-
StepTone.Proofs.BoundsFaults — which constants have no bounds, and what is said of them.

`Constants.bounds` tests words with words: a comparison with zero for each constant, then
two quotients and a difference that could wrap themselves. Told over the integers instead,
these tests leave no gap and no overlap: constants are refused by name when one of them is
not positive, refused as too long when the cycles of the longest period do not fit a word,
and in all other cases no product has wrapped.

* `named`, `FirstNonPositive` — the constants by name, and the first one to be refused.
* `firstNonPositive_iff` — it is the one that the program finds.
* `sound_of_bounds` — constants that are refused for neither reason are sound.
* `bounds_classify_constants` — the three cases together.
-/
import StepTone.Proofs.FirmwareBounds

namespace StepTone.Firmware.Constants

/-! ## Constants by name -/

/-- The constants that a table depends on, under the names of their options. -/
def named (c : Constants) : List (String × Int64) :=
  [("clock_hz", c.clockHz), ("move_cycles", c.moveCycles), ("halt_cycles", c.haltCycles),
    ("freq_loop_moves", c.freqLoopMoves)]

theorem named_eq (c : Constants) : c.named = Constant.ofTable.map fun k => (k.name, c.get k) :=
  rfl

theorem positive_iff_named {c : Constants} : c.Positive ↔ ∀ p ∈ c.named, 0 < p.2.toInt := by
  rw [named_eq, List.forall_mem_map]
  rfl

/-- The first constant that is not positive, by name. -/
structure FirstNonPositive (c : Constants) (name : String) (value : Int64) : Prop where
  nonPositive : value.toInt ≤ 0
  first : ∃ before after, c.named = before ++ (name, value) :: after ∧
    ∀ p ∈ before, 0 < p.2.toInt

theorem firstNonPositive_eq_some_iff {c : Constants} {k : Constant} :
    c.firstNonPositive = some k ↔ (c.get k).toInt ≤ 0 ∧ ∃ before after,
      Constant.ofTable = before ++ k :: after ∧ ∀ j ∈ before, 0 < (c.get j).toInt := by
  have hsign (j : Constant) : c.get j ≤ 0 ↔ (c.get j).toInt ≤ 0 := by
    rw [Int64.le_iff_toInt_le, Int64.toInt_zero]
  rw [firstNonPositive, List.find?_eq_some_iff_append]
  simp only [decide_eq_true_eq, Bool.not_eq_true', decide_eq_false_iff_not, hsign, not_le]

/-- The constant that the program finds is the first one that is not positive. -/
theorem firstNonPositive_iff {c : Constants} {name : String} {value : Int64} :
    c.FirstNonPositive name value ↔
      ∃ k, c.firstNonPositive = some k ∧ k.name = name ∧ c.get k = value := by
  constructor
  · rintro ⟨hvalue, before, after, hnamed, hbefore⟩
    rw [named_eq, List.map_eq_append_iff] at hnamed
    obtain ⟨front, back, htable, rfl, hback⟩ := hnamed
    obtain ⟨k, rest, rfl, hk, -⟩ := List.map_eq_cons_iff.mp hback
    obtain ⟨rfl, rfl⟩ := Prod.mk.inj hk
    refine ⟨k, firstNonPositive_eq_some_iff.mpr ⟨hvalue, front, rest, htable, ?_⟩, rfl, rfl⟩
    exact fun j hj => hbefore _ (List.mem_map_of_mem hj)
  · rintro ⟨k, hk, rfl, rfl⟩
    obtain ⟨hvalue, before, after, htable, hbefore⟩ := firstNonPositive_eq_some_iff.mp hk
    refine ⟨hvalue, before.map fun k => (k.name, c.get k), after.map fun k => (k.name, c.get k),
      ?_, List.forall_mem_map.mpr hbefore⟩
    rw [named_eq, htable, List.map_append, List.map_cons]

theorem exists_firstNonPositive {c : Constants} (h : ∃ p ∈ c.named, p.2.toInt ≤ 0) :
    ∃ name value, c.FirstNonPositive name value := by
  obtain ⟨p, hp, hvalue⟩ := h
  cases hfirst : c.firstNonPositive with
  | none =>
    have hpos := positive_iff_named.mp (firstNonPositive_eq_none_iff.mp hfirst) p hp
    exact absurd hvalue (not_le.mpr hpos)
  | some k => exact ⟨k.name, c.get k, firstNonPositive_iff.mpr ⟨k, hfirst, rfl, rfl⟩⟩

/-! ## The three cases -/

/-- Constants that are refused neither by name nor as too long are sound. -/
theorem sound_of_bounds {F : Type} [Arithmetic F] {c : Constants}
    (hvalid : ∀ k value, c.bounds (F := F) ≠ .error (.nonPositive k value))
    (hshort : ∀ d, c.bounds (F := F) ≠ .error (.cycleOverflow d)) : c.Sound := by
  cases hfirst : c.firstNonPositive with
  | some k => exact absurd (bounds_of_nonPositive hfirst) (hvalid k _)
  | none =>
    have hpos := firstNonPositive_eq_none_iff.mp hfirst
    refine ⟨hpos, not_le.mp fun hover => hshort c ?_⟩
    rw [bounds_of_positive hpos, if_pos hover]

/-- The fault is reported with a code, for an option of the timing section; where it is for
no option, that name is empty. -/
def Blames (f : Fault) (code : Code) (optionName : String) : Prop :=
  ∃ label, f.label? = some label ∧ label.code = code ∧ label.sectionName = "timing" ∧
    label.optionName = optionName

/-- The words among the inputs of `bounds` are told apart exactly. If a constant is not
positive, the first such one is reported by the name of its option. If all are positive,
they are reported as too long exactly where the cycles of the longest period, as an integer,
exceed the largest word. And where neither is reported, the product that gives the cycles of
the loop has not wrapped. -/
theorem bounds_classify_constants (c : Constants) :
    ((∃ p ∈ c.named, p.2.toInt ≤ 0) → ∃ name value, c.FirstNonPositive name value) ∧
    (∀ name value, c.FirstNonPositive name value → ∃ k,
      c.bounds (F := Float) = .error (.nonPositive k value) ∧
        Blames (BoundsFault.nonPositive k value).toFault .configValidation name) ∧
    ((∀ p ∈ c.named, 0 < p.2.toInt) →
      (c.bounds (F := Float) = .error (.cycleOverflow c) ↔
        2 ^ 63 - 1 < c.freqLoopMoves.toInt * c.moveCycles.toInt + 256 * c.haltCycles.toInt) ∧
      Blames (BoundsFault.cycleOverflow c).toFault .configDegenerate "") ∧
    ((∀ k value, c.bounds (F := Float) ≠ .error (.nonPositive k value)) →
      (∀ d, c.bounds (F := Float) ≠ .error (.cycleOverflow d)) →
      c.loopCycles.toInt = c.freqLoopMoves.toInt * c.moveCycles.toInt) := by
  refine ⟨exists_firstNonPositive, ?_, ?_, ?_⟩
  · intro name value hfirst
    obtain ⟨k, hk, rfl, rfl⟩ := firstNonPositive_iff.mp hfirst
    exact ⟨k, bounds_of_nonPositive hk, _, rfl, rfl, rfl, rfl⟩
  · intro hnamed
    refine ⟨?_, _, rfl, rfl, rfl, rfl⟩
    rw [bounds_of_positive (positive_iff_named.mpr hnamed)]
    change _ ↔ 2 ^ 63 - 1 < c.longestPeriod
    by_cases hover : 2 ^ 63 ≤ c.longestPeriod
    · rw [if_pos hover]
      exact iff_of_true rfl (by omega)
    · rw [if_neg hover]
      refine iff_of_false ?_ (by omega)
      split
      · nofun
      · nofun
  · intro hvalid hshort
    exact (sound_of_bounds hvalid hshort).loopCycles_eq

/-! ## Constants at the edges -/

/-- The longest period has as many cycles as the largest word says. -/
def fullest : Constants where
  moveCycles := 51
  haltCycles := 36028797018963967
  freqLoopMoves := 5

/-- One cycle more. -/
def overfull : Constants where
  moveCycles := 256
  haltCycles := 36028797018963967
  freqLoopMoves := 1

/-- Two constants that are not positive. -/
def halted : Constants where
  haltCycles := 0
  freqLoopMoves := -5

/-- Of two constants that are not positive the first is named, and one cycle makes the
difference between constants that are too long and those that are not. -/
theorem bounds_classify_edges :
    (∃ k, halted.bounds (F := Float) = .error (.nonPositive k 0) ∧
      Blames (BoundsFault.nonPositive k 0).toFault .configValidation "halt_cycles") ∧
    fullest.bounds (F := Float) ≠ .error (.cycleOverflow fullest) ∧
    fullest.loopCycles.toInt = 255 ∧
    overfull.bounds (F := Float) = .error (.cycleOverflow overfull) := by
  have hhalted : halted.FirstNonPositive "halt_cycles" 0 :=
    ⟨by decide, [("clock_hz", 125000), ("move_cycles", 24)], [("freq_loop_moves", -5)], rfl,
      by decide⟩
  have hfullest : ∀ p ∈ fullest.named, 0 < p.2.toInt := by decide
  have hoverfull : ∀ p ∈ overfull.named, 0 < p.2.toInt := by decide
  obtain ⟨-, hnames, -, -⟩ := bounds_classify_constants halted
  obtain ⟨-, -, hlong, -⟩ := bounds_classify_constants overfull
  obtain ⟨-, -, hshort, hexact⟩ := bounds_classify_constants fullest
  have hbounds := bounds_of_positive (F := Float) (positive_iff_named.mpr hfullest)
  rw [if_neg (by decide)] at hbounds
  refine ⟨hnames _ _ hhalted, fun h => absurd ((hshort hfullest).1.mp h) (by decide),
    hexact ?_ ?_, (hlong hoverfull).1.mpr (by decide)⟩
  · intro k value
    rw [hbounds]
    split
    · nofun
    · nofun
  · intro d
    rw [hbounds]
    split
    · nofun
    · nofun

end StepTone.Firmware.Constants
