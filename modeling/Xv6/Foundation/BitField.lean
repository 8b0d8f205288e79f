import Mathlib.Logic.Function.Basic
import Mathlib.Tactic.Ring

/-!
# Fields of a bit vector

A region of memory is one bit vector, byte zero in its low bits, so that a
little-endian integer stored at a byte offset is a contiguous field of bits.
This module defines reading and writing such a field and proves that writes to
one field leave every disjoint field alone.
-/

namespace Foundation
namespace BitField

/-- The `width` bits of `region` that start at bit `offset`. -/
def field (region : BitVec n) (offset width : Nat) : BitVec width :=
  region.extractLsb' offset width

/-- Replace the bits of `region` from bit `offset` on by `value`. -/
def setField (region : BitVec n) (offset : Nat) (value : BitVec width) : BitVec n :=
  (region &&& ~~~((BitVec.allOnes width).setWidth n <<< offset)) |||
    (value.setWidth n <<< offset)

@[simp] theorem getLsbD_field (region : BitVec n) (offset width index : Nat) :
    (field region offset width).getLsbD index =
      (decide (index < width) && region.getLsbD (offset + index)) := by
  simp [field, BitVec.getLsbD_extractLsb']

section

variable (region : BitVec n) (offset : Nat) (value : BitVec width)
include region offset value

/-- Every bit of an updated region comes from the value or from the region. -/
theorem getLsbD_setField (index : Nat) (inside : index < n) :
    (setField region offset value).getLsbD index =
      if offset ≤ index ∧ index < offset + width then
        value.getLsbD (index - offset)
      else region.getLsbD index := by
  simp only [setField, BitVec.getLsbD_or, BitVec.getLsbD_and,
    BitVec.getLsbD_not, BitVec.getLsbD_shiftLeft, BitVec.getLsbD_setWidth,
    BitVec.getLsbD_allOnes, inside, decide_true, Bool.true_and]
  by_cases low : index < offset
  · have outside : ¬(offset ≤ index ∧ index < offset + width) := by omega
    simp [low, outside]
  · have shifted : index - offset < n := by omega
    by_cases high : index < offset + width
    · have within : index - offset < width := by omega
      have covered : offset ≤ index ∧ index < offset + width := by omega
      simp [low, shifted, within, covered]
    · have beyond : ¬index - offset < width := by omega
      have outside : ¬(offset ≤ index ∧ index < offset + width) := by omega
      have absent : value.getLsbD (index - offset) = false :=
        BitVec.getLsbD_of_ge value _ (by omega)
      simp [low, beyond, outside, absent]

/-- Reading back a field that was just written. -/
@[simp] theorem field_setField_self (fits : offset + width ≤ n) :
    field (setField region offset value) offset width = value := by
  apply BitVec.eq_of_getLsbD_eq
  intro index inside
  rw [getLsbD_field, getLsbD_setField region offset value _ (by omega)]
  simp [inside]

/-- Writing one field leaves a disjoint field as it was. -/
theorem field_setField_disjoint (other otherWidth : Nat)
    (disjoint : other + otherWidth ≤ offset ∨ offset + width ≤ other) :
    field (setField region offset value) other otherWidth = field region other otherWidth := by
  apply BitVec.eq_of_getLsbD_eq
  intro index inside
  rw [getLsbD_field, getLsbD_field]
  by_cases stored : other + index < n
  · have outside : ¬(offset ≤ other + index ∧ other + index < offset + width) := by omega
    rw [getLsbD_setField region offset value _ stored, if_neg outside]
  · rw [BitVec.getLsbD_of_ge _ _ (by omega), BitVec.getLsbD_of_ge _ _ (by omega)]

end

/-! ## Arrays of equally wide cells -/

/-- The cell numbered `index` of a region seen as an array of `width`-bit
cells. -/
def cell (width : Nat) (region : BitVec n) (index : Nat) : BitVec width :=
  field region (width * index) width

/-- Replace one cell of a region seen as an array of `width`-bit cells. -/
def setCell (region : BitVec n) (index : Nat) (value : BitVec width) : BitVec n :=
  setField region (width * index) value

@[simp] theorem cell_setCell_self (region : BitVec n) (index : Nat) (value : BitVec width)
    (fits : width * (index + 1) ≤ n) :
    cell width (setCell region index value) index = value := by
  apply field_setField_self
  rw [Nat.mul_add, Nat.mul_one] at fits
  exact fits

theorem cell_setCell_ne (region : BitVec n) (index other : Nat) (value : BitVec width)
    (apart : other ≠ index) :
    cell width (setCell region index value) other = cell width region other := by
  apply field_setField_disjoint
  rcases Nat.lt_or_gt_of_ne apart with before | after
  · left
    calc width * other + width = width * (other + 1) := by ring
      _ ≤ width * index := Nat.mul_le_mul_left width before
  · right
    calc width * index + width = width * (index + 1) := by ring
      _ ≤ width * other := Nat.mul_le_mul_left width after

theorem cell_setCell (region : BitVec n) (index other : Nat) (value : BitVec width)
    (fits : width * (index + 1) ≤ n) :
    cell width (setCell region index value) other =
      if other = index then value else cell width region other := by
  by_cases equal : other = index
  · subst equal
    simp [fits]
  · rw [if_neg equal, cell_setCell_ne region index other value equal]

/-- Replace consecutive cells from `index` on. -/
def setCells (region : BitVec n) (index : Nat) : List (BitVec width) → BitVec n
  | [] => region
  | value :: values => setCells (setCell region index value) (index + 1) values

/-- Replaced cells are read back, and cells outside the range are kept. -/
theorem cell_setCells (region : BitVec n) (index : Nat) (values : List (BitVec width))
    (other : Nat) (fits : width * (index + values.length) ≤ n) :
    cell width (setCells region index values) other =
      if index ≤ other ∧ other < index + values.length then
        values.getD (other - index) (BitVec.ofNat width 0)
      else cell width region other := by
  induction values generalizing region index with
  | nil =>
    have outside : ¬(index ≤ other ∧ other < index) := by omega
    simp [setCells, outside]
  | cons value values ih =>
    simp only [List.length_cons] at fits ⊢
    have first : width * (index + 1) ≤ n := le_trans (Nat.mul_le_mul_left width (by omega)) fits
    have rest : width * (index + 1 + values.length) ≤ n :=
      le_trans (Nat.mul_le_mul_left width (by omega)) fits
    rw [setCells, ih _ _ rest, cell_setCell _ _ _ _ first]
    by_cases later : index + 1 ≤ other ∧ other < index + 1 + values.length
    · have covered : index ≤ other ∧ other < index + (values.length + 1) := by omega
      have shift : other - index = (other - (index + 1)) + 1 := by omega
      simp only [later, covered, and_self, if_true, shift, List.getD_cons_succ]
    · rw [if_neg later]
      by_cases same : other = index
      · subst same
        simp
      · have outside : ¬(index ≤ other ∧ other < index + (values.length + 1)) := by omega
        simp [same, outside]

@[simp] theorem cell_zero (width index : Nat) :
    cell width (BitVec.ofNat n 0) index = BitVec.ofNat width 0 := by
  apply BitVec.eq_of_getLsbD_eq
  intro bit _
  rw [cell, getLsbD_field]
  simp

end BitField
end Foundation
