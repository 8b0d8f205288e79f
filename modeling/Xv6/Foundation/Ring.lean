import Mathlib.Data.BitVec
import Mathlib.Data.List.Basic
import Mathlib.Data.Nat.ModEq
import Mathlib.Logic.Function.Basic

/-!
# Ring buffers with wrapping counters

A buffer of `size` cells with two counters of `width` bits, the number of
elements read and the number written.  A counter wraps around at `2 ^ width`
and is reduced modulo `size` to give a cell.  When `size` divides `2 ^ width`
the buffer is a queue, however often the counters have wrapped.
-/

namespace Foundation

open List

/-- The cells and the two counters. -/
structure Ring (Element : Type) (width size : Nat) where
  data : Fin size → Element
  nread : BitVec width
  nwrite : BitVec width

namespace Ring

variable {Element : Type} {width size : Nat} [NeZero size]

/-- The cell that a counter points at. -/
def cell (counter : BitVec width) : Fin size :=
  Fin.ofNat size counter.toNat

/-- The number of elements in the buffer. -/
def count (ring : Ring Element width size) : Nat :=
  (ring.nwrite - ring.nread).toNat

/-- The elements in the buffer, oldest first. -/
def contents (ring : Ring Element width size) : List Element :=
  (List.range ring.count).map fun offset =>
    ring.data (cell (ring.nread + BitVec.ofNat width offset))

/-- There is no element in the buffer. -/
def Empty (ring : Ring Element width size) : Prop :=
  ring.nread = ring.nwrite

instance (ring : Ring Element width size) : Decidable ring.Empty :=
  inferInstanceAs (Decidable (_ = _))

/-- Every cell is taken. -/
def Full (ring : Ring Element width size) : Prop :=
  ring.nwrite = ring.nread + BitVec.ofNat width size

instance (ring : Ring Element width size) : Decidable ring.Full :=
  inferInstanceAs (Decidable (_ = _))

/-- Store an element. -/
def push (ring : Ring Element width size) (element : Element) : Ring Element width size :=
  { ring with
    data := Function.update ring.data (cell ring.nwrite) element
    nwrite := ring.nwrite + 1 }

/-- The oldest element. -/
def top (ring : Ring Element width size) : Element :=
  ring.data (cell ring.nread)

/-- Drop the oldest element. -/
def pop (ring : Ring Element width size) : Ring Element width size :=
  { ring with nread := ring.nread + 1 }

/-- No element, with both counters at `counter`. -/
def empty (counter : BitVec width) (data : Fin size → Element) : Ring Element width size :=
  ⟨data, counter, counter⟩

variable {ring : Ring Element width size}

section Count

omit [NeZero size]

theorem nwrite_eq (ring : Ring Element width size) :
    ring.nwrite = ring.nread + BitVec.ofNat width ring.count := by
  rw [count, BitVec.ofNat_toNat, BitVec.setWidth_eq, add_comm, BitVec.sub_add_cancel]

theorem count_lt (ring : Ring Element width size) : ring.count < 2 ^ width :=
  BitVec.isLt _

theorem count_eq {distance : Nat} (apart : ring.nwrite = ring.nread + BitVec.ofNat width distance) :
    ring.count = distance % 2 ^ width := by
  rw [count, apart, add_sub_cancel_left, BitVec.toNat_ofNat]

theorem empty_iff : ring.Empty ↔ ring.count = 0 := by
  constructor
  · intro same
    rw [count, same, sub_self]
    exact BitVec.toNat_zero
  · intro none
    rw [Empty, nwrite_eq, none, BitVec.add_zero]

theorem full_iff (small : size < 2 ^ width) : ring.Full ↔ ring.count = size := by
  constructor
  · intro same
    rw [count_eq same, Nat.mod_eq_of_lt small]
  · intro same
    rw [Full, nwrite_eq, same]

@[simp] theorem count_empty (counter : BitVec width) (data : Fin size → Element) :
    (empty counter data).count = 0 :=
  empty_iff.mp rfl

theorem count_pop (some : ¬ ring.Empty) : ring.count = ring.pop.count + 1 := by
  have apart : ring.nwrite = ring.nread + BitVec.ofNat width (ring.pop.count + 1) := by
    have same := ring.pop.nwrite_eq
    rw [BitVec.ofNat_add, add_comm (BitVec.ofNat width ring.pop.count), ← add_assoc]
    exact same
  rw [count_eq apart]
  apply Nat.mod_eq_of_lt
  apply lt_of_le_of_ne ring.pop.count_lt
  -- a distance of `2 ^ width` is none
  intro whole
  apply some
  rw [empty_iff, count_eq apart, whole, Nat.mod_self]

end Count

section Contents

@[simp] theorem contents_empty (counter : BitVec width) (data : Fin size → Element) :
    (empty counter data).contents = [] := by
  simp [contents]

theorem count_push (element : Element) (room : ring.count + 1 < 2 ^ width) :
    (ring.push element).count = ring.count + 1 := by
  have apart : (ring.push element).nwrite = (ring.push element).nread +
      BitVec.ofNat width (ring.count + 1) := by
    rw [BitVec.ofNat_add, ← add_assoc]
    exact congrArg (· + 1) ring.nwrite_eq
  rw [count_eq apart, Nat.mod_eq_of_lt room]

theorem cell_add (divides : size ∣ 2 ^ width) (counter : BitVec width) (offset : Nat) :
    ((cell (counter + BitVec.ofNat width offset) : Fin size) : Nat) =
      (counter.toNat + offset) % size := by
  rw [cell, Fin.val_ofNat, BitVec.toNat_add, BitVec.toNat_ofNat,
    Nat.add_mod_mod, Nat.mod_mod_of_dvd _ divides]

/-- Counters less than `size` apart point at different cells. -/
theorem cell_ne (divides : size ∣ 2 ^ width) (counter : BitVec width) {near far : Nat}
    (order : near < far) (bound : far < size) :
    (cell (counter + BitVec.ofNat width near) : Fin size) ≠
      cell (counter + BitVec.ofNat width far) := by
  intro same
  have equal := congrArg Fin.val same
  rw [cell_add divides, cell_add divides] at equal
  have close : near ≡ far [MOD size] := Nat.ModEq.add_left_cancel' _ equal
  exact order.ne (close.eq_of_lt_of_lt (order.trans bound) bound)

/-- Storing appends. -/
theorem contents_push (divides : size ∣ 2 ^ width) (small : size < 2 ^ width)
    (element : Element) (room : ring.count < size) :
    (ring.push element).contents = ring.contents ++ [element] := by
  rw [contents, count_push element (lt_of_le_of_lt room small),
    range_succ, map_append, map_singleton, contents]
  congr 1
  · apply map_congr_left
    intro offset member
    refine Function.update_of_ne ?_ element ring.data
    rw [nwrite_eq]
    exact cell_ne divides _ (mem_range.mp member) room
  · simp only [push, ← nwrite_eq, Function.update_self]

/-- Dropping takes the oldest element away. -/
theorem contents_pop (some : ¬ ring.Empty) : ring.contents = ring.top :: ring.pop.contents := by
  rw [contents, count_pop some, range_succ_eq_map, map_cons, map_map, contents]
  congr 1
  · rw [BitVec.add_zero, top]
  · apply map_congr_left
    intro offset _
    have same : ring.nread + BitVec.ofNat width (offset + 1) =
        ring.pop.nread + BitVec.ofNat width offset := by
      rw [BitVec.ofNat_add, add_comm (BitVec.ofNat width offset), ← add_assoc]
      rfl
    simp only [Function.comp_apply, Nat.succ_eq_add_one, same]
    rfl

@[simp] theorem length_contents : ring.contents.length = ring.count := by
  simp [contents]

theorem getElem?_contents {offset : Nat} (inside : offset < ring.count) : ring.contents[offset]? =
      some (ring.data (cell (ring.nread + BitVec.ofNat width offset))) := by
  simp [contents, inside]

/-- Moving the second counter back takes the newest elements away. -/
theorem contents_take {kept : Nat} (fewer : kept ≤ ring.count) :
    contents { ring with nwrite := ring.nread + BitVec.ofNat width kept } =
      ring.contents.take kept := by
  have counted : count { ring with
      nwrite := ring.nread + BitVec.ofNat width kept } = kept := by
    rw [count_eq rfl]
    exact Nat.mod_eq_of_lt (fewer.trans_lt ring.count_lt)
  unfold contents
  rw [counted, ← map_take, take_range, min_eq_left fewer]

end Contents

end Ring
end Foundation
