/-
StepTone.Proofs.NumeralReading — written numbers are read back.

* `magnitudeFrom_toDigits` — digits in a base give the number back.
* `decimal_toString` — so does a natural number written in decimal.
* `anyBase_hexLiteral` — and one written as a hexadecimal literal.
-/
import Mathlib.Tactic.IntervalCases
import StepTone.Listing.Rows
import StepTone.Numeral.Integer

namespace StepTone.Numeral

open Listing (hexDigits hexLiteral)

/-! ## Runs of digits -/

/-- Digits are read from the left, so a text can be cut anywhere. -/
theorem magnitudeFrom_append (base : ℕ) (grouping : Bool) (acc : ℕ) (xs ys : List Char) :
    magnitudeFrom base grouping acc (xs ++ ys) =
      (magnitudeFrom base grouping acc xs).bind fun n => magnitudeFrom base grouping n ys := by
  induction xs generalizing acc with
  | nil => rfl
  | cons c rest ih =>
    rw [List.cons_append, magnitudeFrom, magnitudeFrom]
    split
    · exact ih acc
    · cases digitIn? base c with
      | none => rfl
      | some d =>
        dsimp only
        split
        · rfl
        · exact ih _

/-- A character that counts `d` in a base. -/
def Counts (base : ℕ) (c : Char) (d : ℕ) : Prop :=
  digitIn? base c = some d ∧ c ≠ '_'

theorem magnitudeFrom_digit {base d acc : ℕ} {c : Char} {grouping : Bool} (hc : Counts base c d)
    (hlt : acc * base + d < 2 ^ 64) :
    magnitudeFrom base grouping acc [c] = .ok (acc * base + d) := by
  have hfit : ¬ Nat.pow 2 64 ≤ acc * base + d := Nat.not_le.mpr hlt
  rw [magnitudeFrom, if_neg (by simp [hc.2]), hc.1]
  simp only [if_neg hfit, magnitudeFrom]

/-- The digits of a number are read as that number, in every base and spelling. -/
theorem magnitudeFrom_toDigits {base : ℕ} {spell : Char → Char} {grouping : Bool} (hb : 1 < base)
    (hspell : ∀ d < base, Counts base (spell d.digitChar) d) (n : ℕ) (hn : n < 2 ^ 64) :
    magnitudeFrom base grouping 0 ((Nat.toDigits base n).map spell) = .ok n := by
  induction n using Nat.strongRecOn with
  | ind n ih =>
    rw [Nat.toDigits_eq_if hb]
    split
    · next hlt =>
      rw [List.map_singleton, magnitudeFrom_digit (hspell n hlt) (by omega), Nat.zero_mul,
        Nat.zero_add]
    · next hle =>
      have hquot : n / base < n := Nat.div_lt_self (by omega) hb
      have hvalue : n / base * base + n % base = n := Nat.div_add_mod' n base
      rw [List.map_append, magnitudeFrom_append, ih _ hquot (by omega)]
      change magnitudeFrom base grouping (n / base) [spell (n % base).digitChar] = _
      rw [magnitudeFrom_digit (hspell _ (Nat.mod_lt n (by omega))) (by omega), hvalue]

/-- Leading zeros do not count. -/
theorem magnitudeFrom_zeros {base : ℕ} {grouping : Bool} (hzero : Counts base '0' 0) (k : ℕ)
    (digits : List Char) :
    magnitudeFrom base grouping 0 (List.replicate k '0' ++ digits) =
      magnitudeFrom base grouping 0 digits := by
  induction k with
  | zero => rfl
  | succ k ih =>
    have hone := magnitudeFrom_append base grouping 0 ['0'] (List.replicate k '0' ++ digits)
    rw [magnitudeFrom_digit hzero (by norm_num)] at hone
    rw [List.replicate_succ, List.cons_append, ← ih]
    simpa [Except.bind] using hone

/-! ## Decimal -/

theorem counts_decimal {d : ℕ} (h : d < 10) : Counts 10 (id d.digitChar) d := by
  interval_cases d <;> exact ⟨by decide, by decide⟩

theorem withSign_natCast {n : ℕ} (h : n < 2 ^ 63) : withSign false n = .ok (Int64.ofNat n) := by
  have hfit : n < Nat.pow 2 63 := h
  rw [withSign, if_neg (by decide), if_pos hfit]
  rfl

theorem splitSign_of_digit {c : Char} {rest : List Char} (h : c.isDigit = true) :
    splitSign (c :: rest) = (false, c :: rest) := by
  unfold splitSign
  split
  · next heq =>
    cases heq
    cases h
  · next heq =>
    cases heq
    cases h
  · rfl

/-- A natural number in decimal is read back. -/
theorem decimal_toString {n : ℕ} (h : n < 2 ^ 63) :
    decimal (toString n) = .ok (Int64.ofNat n) := by
  have hread : magnitudeFrom 10 false 0 ((Nat.toDigits 10 n).map id) = .ok n :=
    magnitudeFrom_toDigits (by norm_num) (fun d => counts_decimal) n (by omega)
  rw [List.map_id] at hread
  have hdigits : (toString n).toList = Nat.toDigits 10 n := Nat.toList_repr
  cases hlist : Nat.toDigits 10 n with
  | nil => exact absurd hlist Nat.toDigits_ne_nil
  | cons c rest =>
    have hc : c.isDigit = true :=
      Nat.isDigit_of_mem_toDigits (by norm_num) (by norm_num) (hlist ▸ List.mem_cons_self)
    rw [hlist] at hread
    rw [decimal, hdigits, hlist, splitSign_of_digit hc]
    simp only [List.isEmpty_cons, Bool.false_eq_true, if_false, hread, Except.bind]
    exact withSign_natCast h

/-! ## Hexadecimal literals -/

theorem counts_upperHex {d : ℕ} (h : d < 16) : Counts 16 d.digitChar.toUpper d := by
  interval_cases d <;> exact ⟨by decide, by decide⟩

@[simp]
theorem toList_hexLiteral (width n : ℕ) :
    (hexLiteral width n).toList = '0' :: 'x' :: hexDigits width n := by
  simp [hexLiteral]

theorem hexDigits_ne_nil (width n : ℕ) : hexDigits width n ≠ [] := by
  simp [hexDigits]

/-- Hexadecimal digits are read as the number that they were written for. -/
theorem magnitudeFrom_hexDigits {n : ℕ} (width : ℕ) (h : n < 2 ^ 64) :
    magnitudeFrom 16 true 0 (hexDigits width n) = .ok n := by
  rw [hexDigits, magnitudeFrom_zeros ⟨by decide, by decide⟩]
  exact magnitudeFrom_toDigits (by norm_num) (fun d => counts_upperHex) n h

/-- Digits alone have no underscore in a wrong place. -/
theorem groupedFrom_of_digits {base : ℕ} {text : List Char}
    (h : ∀ c ∈ text, (digitIn? base c).isSome = true) : groupedFrom base .digit text = true := by
  induction text with
  | nil => rfl
  | cons c rest ih =>
    rw [groupedFrom, if_pos (h c List.mem_cons_self)]
    exact ih fun d hd => h d (List.mem_cons_of_mem c hd)

theorem exists_of_mem_toDigits {base n : ℕ} {c : Char} (hb : 1 < base)
    (h : c ∈ Nat.toDigits base n) : ∃ d < base, c = d.digitChar := by
  induction n using Nat.strongRecOn with
  | ind n ih =>
    rw [Nat.toDigits_eq_if hb] at h
    split at h
    · next hlt => exact ⟨n, hlt, List.mem_singleton.mp h⟩
    · next hle =>
      rcases List.mem_append.mp h with hfront | hlast
      · exact ih _ (Nat.div_lt_self (by omega) hb) hfront
      · exact ⟨n % base, Nat.mod_lt n (by omega), List.mem_singleton.mp hlast⟩

theorem isSome_of_mem_hexDigits {width n : ℕ} {c : Char} (h : c ∈ hexDigits width n) :
    (digitIn? 16 c).isSome = true := by
  rcases List.mem_append.mp h with hzero | hdigit
  · rw [List.eq_of_mem_replicate hzero]
    decide
  · obtain ⟨x, hx, rfl⟩ := List.mem_map.mp hdigit
    obtain ⟨d, hd, rfl⟩ := exists_of_mem_toDigits (by norm_num) hx
    rw [(counts_upperHex hd).1]
    rfl

/-- A hexadecimal literal is read back. -/
theorem anyBase_hexLiteral {n : ℕ} (width : ℕ) (h : n < 2 ^ 63) :
    anyBase (hexLiteral width n) = .ok (Int64.ofNat n) := by
  have hgrouped : grouped ('0' :: 'x' :: hexDigits width n) = true :=
    groupedFrom_of_digits fun c => isSome_of_mem_hexDigits
  have hbase : baseOf ('0' :: 'x' :: hexDigits width n) = (16, hexDigits width n) := by
    cases hlist : hexDigits width n with
    | nil => exact absurd hlist (hexDigits_ne_nil width n)
    | cons c rest => rfl
  rw [anyBase, toList_hexLiteral, splitSign_of_digit (by decide)]
  simp only [List.isEmpty_cons, Bool.false_eq_true, if_false, hbase,
    magnitudeFrom_hexDigits width (show n < 2 ^ 64 by omega), hgrouped, if_true]
  exact withSign_natCast h

end StepTone.Numeral
