/-
StepTone.Proofs.DecimalText — the characters of written numbers.

Whatever notation a number is written in, it is made of letters, digits, points and
signs. So nothing that separates numbers in a listing can stand inside one.

* `Numeric` — a text of such characters.
* `numeric_fixed`, `numeric_general`, `numeric_interchange` — doubles in several notations.
* `numeric_nat`, `numeric_int` — naturals and integers.
* `interchange_ne_nil`, `int_ne_nil` — a written number is not empty.
-/
import StepTone.Decimal.Notation

namespace StepTone.Decimal

/-- A letter, a digit, a point or a sign. -/
def isNumeric (c : Char) : Bool :=
  c.isAlphanum || c = '.' || c = '+' || c = '-'

/-- A text of letters, digits, points and signs. -/
def Numeric (text : List Char) : Prop :=
  ∀ c ∈ text, isNumeric c = true

-- The characters of a text are gone through one by one; this must not be left to an
-- instance for finite types, which goes through all characters there are.
instance decidableForallMemText (p : Char → Prop) [DecidablePred p] (text : List Char) :
    Decidable (∀ c ∈ text, p c) :=
  List.decidableBAll p text

instance (text : List Char) : Decidable (Numeric text) :=
  decidableForallMemText (isNumeric · = true) text

namespace Numeric

variable {c : Char} {xs ys : List Char}

theorem nil : Numeric [] :=
  fun _ h => absurd h List.not_mem_nil

theorem cons (hc : isNumeric c = true) (h : Numeric xs) : Numeric (c :: xs) :=
  List.forall_mem_cons.mpr ⟨hc, h⟩

theorem append (hx : Numeric xs) (hy : Numeric ys) : Numeric (xs ++ ys) :=
  fun c hc => (List.mem_append.mp hc).elim (hx c) (hy c)

theorem take (n : Nat) (h : Numeric xs) : Numeric (xs.take n) :=
  fun c hc => h c (List.mem_of_mem_take hc)

theorem drop (n : Nat) (h : Numeric xs) : Numeric (xs.drop n) :=
  fun c hc => h c (List.mem_of_mem_drop hc)

theorem zeros (n : Nat) : Numeric (List.replicate n '0') :=
  fun _ hc => List.eq_of_mem_replicate hc ▸ rfl

/-- The digits of a number are numeric. -/
theorem toDigits (n : Nat) : Numeric (Nat.toDigits 10 n) := by
  intro c hc
  have hdigit : c.isDigit = true := Nat.isDigit_of_mem_toDigits (by decide) (by decide) hc
  simp [isNumeric, Char.isAlphanum, hdigit]

/-- What is no letter, digit, point or sign is not in such a text. -/
theorem not_mem (h : Numeric xs) (hc : isNumeric c = false) : c ∉ xs :=
  fun hmem => Bool.false_ne_true (hc.symm.trans (h c hmem))

end Numeric

/-! ## Laying out digits -/

/-- Laying out digits around a point adds zeros and the point only. -/
theorem numeric_positional {digits : List Char} (h : Numeric digits) (leading : Int) :
    Numeric (positional digits leading) := by
  cases leading with
  | ofNat k =>
    rw [positional]
    split
    · exact h.append (.zeros _)
    · exact (h.take _).append (.cons rfl (h.drop _))
  | negSucc k => exact .cons rfl (.cons rfl ((Numeric.zeros k).append h))

theorem numeric_padded (width n : Nat) : Numeric (padded width n) :=
  (Numeric.zeros _).append (.toDigits n)

/-- In the notation with an exponent, the letter and the sign of it are numeric too. -/
theorem numeric_exponential {digits : List Char} (h : Numeric digits) (width : Nat)
    (leading : Int) : Numeric (exponential width digits leading) := by
  have hexponent : Numeric ('e' :: (if leading < 0 then '-' else '+') ::
      padded width leading.natAbs) := by
    refine .cons rfl (.cons ?_ (numeric_padded _ _))
    split
    · rfl
    · rfl
  refine Numeric.append ?_ hexponent
  match digits with
  | [] => exact .cons rfl .nil
  | [d] => exact h
  | d :: e :: rest =>
    obtain ⟨hd, hrest⟩ := List.forall_mem_cons.mp h
    exact .cons hd (.cons rfl hrest)

theorem numeric_pointed (places count : Nat) : Numeric (pointed places count) := by
  rw [pointed]
  split
  · exact .toDigits count
  · exact ((numeric_padded _ _).take _).append (.cons rfl ((numeric_padded _ _).drop _))

/-! ## Doubles -/

/-- Besides its digits, a double is written with a sign or as a word for what is no finite
number. -/
theorem numeric_write {body : Nat → Int → List Char} (h : ∀ m q, Numeric (body m q)) (x : Float) :
    Numeric (write body x).toList := by
  rw [write]
  cases Binary64.value x with
  | nan => exact (by decide : Numeric "NaN".toList)
  | infinite negative =>
    cases negative with
    | false => exact (by decide : Numeric "+Inf".toList)
    | true => exact (by decide : Numeric "-Inf".toList)
  | finite negative m q =>
    rw [String.toList_ofList]
    split
    · exact .cons rfl (h m q)
    · exact h m q

theorem numeric_fixed (places : Nat) (x : Float) : Numeric (fixed places x).toList :=
  numeric_write (fun _ _ => numeric_pointed _ _) x

theorem numeric_plain (x : Float) : Numeric (plain x).toList :=
  numeric_write (fun _ _ => numeric_positional (.toDigits _) _) x

/-- Both notations that the general one chooses between are numeric. -/
theorem numeric_general (x : Float) : Numeric (general x).toList := by
  refine numeric_write (fun m q => ?_) x
  dsimp only
  split
  · exact numeric_positional (.toDigits _) _
  · exact numeric_exponential (.toDigits _) _ _

theorem numeric_interchange (x : Float) : Numeric (interchange x).toList := by
  refine numeric_write (fun m q => ?_) x
  dsimp only
  split
  · exact numeric_positional (.toDigits _) _
  · exact numeric_exponential (.toDigits _) _ _

/-! ## Naturals and integers -/

theorem numeric_nat (n : Nat) : Numeric (toString n).toList := by
  rw [show (toString n).toList = Nat.toDigits 10 n from Nat.toList_repr]
  exact .toDigits n

/-- An integer is written as a natural number, maybe behind a sign. -/
theorem numeric_int (n : Int) : Numeric (toString n).toList := by
  cases n with
  | ofNat m => exact numeric_nat m
  | negSucc m =>
    rw [show toString (Int.negSucc m) = "-" ++ toString (m + 1) from rfl, String.toList_append]
    exact (Numeric.cons rfl .nil).append (numeric_nat (m + 1))

/-! ## Something is written -/

theorem positional_ne_nil {digits : List Char} (h : digits ≠ []) (leading : Int) :
    positional digits leading ≠ [] := by
  cases leading with
  | ofNat k =>
    rw [positional]
    split
    · exact List.append_ne_nil_of_left_ne_nil h _
    · exact List.append_ne_nil_of_right_ne_nil _ (List.cons_ne_nil _ _)
  | negSucc k => exact List.cons_ne_nil _ _

theorem write_ne_nil {body : Nat → Int → List Char} (h : ∀ m q, body m q ≠ []) (x : Float) :
    (write body x).toList ≠ [] := by
  rw [write]
  cases Binary64.value x with
  | nan => exact (by decide : "NaN".toList ≠ [])
  | infinite negative =>
    cases negative with
    | false => exact (by decide : "+Inf".toList ≠ [])
    | true => exact (by decide : "-Inf".toList ≠ [])
  | finite negative m q =>
    rw [String.toList_ofList]
    split
    · exact List.cons_ne_nil _ _
    · exact h m q

/-- A double is never written as an empty text. -/
theorem interchange_ne_nil (x : Float) : (interchange x).toList ≠ [] := by
  refine write_ne_nil (fun m q => ?_) x
  dsimp only
  split
  · exact positional_ne_nil Nat.toDigits_ne_nil _
  · exact List.append_ne_nil_of_right_ne_nil _ (List.cons_ne_nil _ _)

theorem int_ne_nil (n : Int) : (toString n).toList ≠ [] := by
  cases n with
  | ofNat m =>
    rw [show (toString (Int.ofNat m)).toList = Nat.toDigits 10 m from Nat.toList_repr]
    exact Nat.toDigits_ne_nil
  | negSucc m =>
    rw [show toString (Int.negSucc m) = "-" ++ toString (m + 1) from rfl, String.toList_append]
    exact List.append_ne_nil_of_left_ne_nil (by decide) _

end StepTone.Decimal
