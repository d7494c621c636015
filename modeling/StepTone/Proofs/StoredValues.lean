/-
StepTone.Proofs.StoredValues — what the registers of a checked table hold.

Storing a delay inverted takes it from the largest register value, in sixteen bits and
without a look at which of the two is larger. In a table that passes its check no delay is
larger, whatever the width, so nothing wraps; the stored values are the delays mirrored, and
storing them once more gives the delays back.

* `Encoding.encode_encode` — storing a stored value gives the delay back.
* `Encoding.toNat_encode_inverted`, `Encoding.encode_inverted_anti` — delays that fit are
  mirrored, and their order turns round.
* `Lawful.fits_of_mem`, `Lawful.pairwise_delays` — the laws for the list of rows.
* `stored_values_decode` — the stored values of a checked table.
-/
import Mathlib
import StepTone.Proofs.TableGeneration

namespace StepTone.Table

/-! ## One register -/

namespace Encoding

/-- Storing a stored value gives the delay back, even where the subtraction wraps. -/
theorem encode_encode (e : Encoding) (w : Width) (d : UInt16) :
    e.encode w (e.encode w d) = d := by
  cases e with
  | direct => rfl
  | inverted => exact sub_sub_cancel w.max d

variable {w : Width} {d d' : UInt16}

theorem toNat_encode_inverted (h : d ≤ w.max) :
    (encode .inverted w d).toNat = w.max.toNat - d.toNat :=
  UInt16.toNat_sub_of_le _ _ h

theorem encode_inverted_anti (h : d ≤ d') (h' : d' ≤ w.max) :
    encode .inverted w d' ≤ encode .inverted w d := by
  rw [UInt16.le_iff_toNat_le, toNat_encode_inverted h',
    toNat_encode_inverted (UInt16.le_trans h h')]
  exact Nat.sub_le_sub_left (UInt16.le_iff_toNat_le.mp h) _

theorem encode_le (e : Encoding) (h : d ≤ w.max) : e.encode w d ≤ w.max := by
  cases e with
  | direct => exact h
  | inverted =>
    rw [UInt16.le_iff_toNat_le, toNat_encode_inverted h]
    exact Nat.sub_le _ _

end Encoding

/-! ## All registers -/

section

variable {F : Type} {t : Table F}

theorem length_values (t : Table F) : t.values.length = size := by
  simp [values]

/-- The stored values are the delays, each of them encoded. -/
theorem values_eq_map (t : Table F) : t.values = t.delays.map t.encode := by
  simp [values, delays]

theorem map_encode_values (t : Table F) : t.values.map t.encode = t.delays := by
  rw [values_eq_map, List.map_map]
  refine (List.map_congr_left fun d _ => ?_).trans t.delays.map_id
  exact Encoding.encode_encode _ _ d

variable [Arithmetic F]

theorem Lawful.fits_of_mem (h : t.Lawful) {d : UInt16} (hd : d ∈ t.delays) :
    d ≤ t.options.width.max := by
  obtain ⟨e, he, rfl⟩ := List.mem_map.mp hd
  obtain ⟨i, hi, rfl⟩ := Vector.getElem_of_mem (Vector.mem_toList_iff.mp he)
  exact h.fits ⟨i, hi⟩

/-- A stored value fits the register, whatever the encoding. -/
theorem Lawful.le_max_of_mem_values (h : t.Lawful) {v : UInt16} (hv : v ∈ t.values) :
    v ≤ t.options.width.max := by
  rw [values_eq_map] at hv
  obtain ⟨d, hd, rfl⟩ := List.mem_map.mp hv
  exact Encoding.encode_le _ (h.fits_of_mem hd)

/-- The delays never rise from one row to a later one. -/
theorem Lawful.pairwise_delays (h : t.Lawful) : t.delays.Pairwise (· ≥ ·) := by
  rw [delays, List.pairwise_map, List.pairwise_iff_getElem]
  intro i j hi hj hij
  rw [Vector.length_toList] at hi hj
  have hanti := h.delay_antitone (show (⟨i, hi⟩ : Fin size) ≤ ⟨j, hj⟩ from hij.le)
  rw [Vector.getElem_toList, Vector.getElem_toList]
  exact UInt16.le_iff_toNat_le.mpr hanti

/-- Mirrored delays rise where the delays fall. -/
theorem Lawful.pairwise_values_inverted (h : t.Lawful)
    (hinverted : t.options.encoding = .inverted) : t.values.Pairwise (· ≤ ·) := by
  rw [values_eq_map, List.pairwise_map]
  refine h.pairwise_delays.imp_of_mem fun {d d'} hd hd' hle => ?_
  rw [encode, encode, hinverted]
  exact Encoding.encode_inverted_anti hle (h.fits_of_mem hd)

theorem Lawful.toNat_values_inverted (h : t.Lawful)
    (hinverted : t.options.encoding = .inverted) :
    t.values.map UInt16.toNat = t.delays.map fun d => t.options.width.max.toNat - d.toNat := by
  rw [values_eq_map, List.map_map]
  refine List.map_congr_left fun d hd => ?_
  rw [Function.comp_apply, encode, hinverted]
  exact Encoding.toNat_encode_inverted (h.fits_of_mem hd)

omit [Arithmetic F] in
theorem values_direct (hdirect : t.options.encoding = .direct) : t.values = t.delays := by
  rw [values_eq_map]
  refine (List.map_congr_left fun d _ => ?_).trans t.delays.map_id
  rw [encode, hdirect]
  rfl

end

/-- The registers of a table that passes its check, for any width and any number as its
encoding, hold values that fit them and that become the delays when they are encoded once
more. Inverted, each value is the largest one less the delay, which never wraps, and the values
never fall; with any other number the values are the delays, and never rise. -/
theorem stored_values_decode {F : Type} [Arithmetic F] {t : Table F} {n : Int64}
    (hcheck : t.check = .ok ()) (hn : t.options.encoding = .ofNumber n) :
    t.values.length = size ∧
    (∀ v ∈ t.values, v ≤ t.options.width.max) ∧
    t.values.map t.encode = t.delays ∧
    (n = 1 →
      (∀ d ∈ t.delays, d.toNat ≤ t.options.width.max.toNat) ∧
      t.values.map UInt16.toNat = (t.delays.map fun d => t.options.width.max.toNat - d.toNat) ∧
      t.values.Pairwise (· ≤ ·)) ∧
    (n ≠ 1 → t.values = t.delays ∧ t.values.Pairwise (· ≥ ·)) := by
  have hlaws := check_eq_ok_iff.mp hcheck
  refine ⟨length_values t, fun v hv => hlaws.le_max_of_mem_values hv, map_encode_values t,
    fun hone => ?_, fun hother => ?_⟩
  · have hinverted : t.options.encoding = .inverted := by
      rw [hn, Encoding.ofNumber, if_pos hone]
    exact ⟨fun d hd => UInt16.le_iff_toNat_le.mp (hlaws.fits_of_mem hd),
      hlaws.toNat_values_inverted hinverted, hlaws.pairwise_values_inverted hinverted⟩
  · have hdirect : t.options.encoding = .direct := by
      rw [hn, Encoding.ofNumber, if_neg hother]
    rw [values_direct hdirect]
    exact ⟨rfl, hlaws.pairwise_delays⟩

/-- The table with rows half a hertz apart, with a number for its encoding. -/
def HalfHertz.numbered (n : Int64) : Table Float :=
  { table with options := { encoding := .ofNumber n } }

theorem HalfHertz.check_numbered (n : Int64) : (numbered n).check = .ok () := by
  have hlaws := (made_of_generate generate_eq).lawful
  exact check_eq_ok_iff.mpr ⟨hlaws.fits, hlaws.rises, hlaws.falls⟩

/-- Its registers, inverted and with a number that stands for no encoding. -/
theorem halfHertz_decodes :
    (HalfHertz.numbered 1).check = .ok () ∧ (HalfHertz.numbered 7).check = .ok () ∧
    (HalfHertz.numbered 1).values.map (HalfHertz.numbered 1).encode =
      (HalfHertz.numbered 1).delays ∧
    (HalfHertz.numbered 1).values.map UInt16.toNat =
      (HalfHertz.numbered 1).delays.map (fun d => 255 - d.toNat) ∧
    (HalfHertz.numbered 1).values.Pairwise (· ≤ ·) ∧
    (HalfHertz.numbered 7).values = (HalfHertz.numbered 7).delays ∧
    (HalfHertz.numbered 7).values.Pairwise (· ≥ ·) := by
  have hinverted := stored_values_decode (n := 1) (HalfHertz.check_numbered 1) rfl
  have hdirect := stored_values_decode (n := 7) (HalfHertz.check_numbered 7) rfl
  obtain ⟨-, hvalues, hrise⟩ := hinverted.2.2.2.1 rfl
  obtain ⟨hsame, hfall⟩ := hdirect.2.2.2.2 (by decide)
  exact ⟨HalfHertz.check_numbered 1, HalfHertz.check_numbered 7, hinverted.2.2.1, hvalues, hrise,
    hsame, hfall⟩

end StepTone.Table
