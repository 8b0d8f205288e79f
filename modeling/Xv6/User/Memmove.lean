import Xv6.Memory.PageTable
import Mathlib.Logic.Function.Basic

/-!
# `memmove`

The two functions of this name: that of the kernel (`string.c`), which copies
from the end when the ranges overlap so, and that of user programs (`ulib.c`),
which always copies from the start.
-/

namespace Xv6.Memmove

open Function
open Memory (addresses)

/-- Bytes at addresses. -/
abbrev Bytes := Nat → BitVec 8

/-- `while(n-- > 0) *d++ = *s++`. -/
def copyUp : Nat → Nat → Nat → Bytes → Bytes
  | 0, _, _, memory => memory
  | n + 1, d, s, memory => copyUp n (d + 1) (s + 1) (Function.update memory d (memory s))

/-- `while(n-- > 0) *--d = *--s`, with `d` and `s` at the ends of ranges that
start at the given addresses. -/
def copyDown : Nat → Nat → Nat → Bytes → Bytes
  | 0, _, _, memory => memory
  | n + 1, d, s, memory => copyDown n d s (Function.update memory (d + n) (memory (s + n)))

/-- `memmove` of the kernel. -/
def kernelMemmove (dst src n : Nat) (memory : Bytes) : Bytes :=
  if src < dst ∧ dst < (src + n) % addresses then copyDown n dst src memory
  else copyUp n dst src memory

/-- `memmove` of user programs. -/
def userMemmove (dst src : Nat) (n : Int) (memory : Bytes) : Bytes :=
  copyUp n.toNat dst src memory

/-- The bytes were moved, and no other byte was changed. -/
def Moved (dst src n : Nat) (memory next : Bytes) : Prop :=
  ∀ a, next a =
    if dst ≤ a ∧ a < dst + n then memory (src + (a - dst)) else memory a

section Copy

variable {dst src n : Nat} {memory : Bytes}

theorem copyDown_moved (below : src ≤ dst) :
    Moved dst src n memory (copyDown n dst src memory) := by
  induction n generalizing memory with
  | zero =>
    intro a
    rw [if_neg (by omega)]
    rfl
  | succ n ih =>
    intro a
    rw [copyDown, ih a]
    by_cases last : a = dst + n
    · rw [if_neg (by omega), if_pos (by omega), last, update_self, Nat.add_sub_cancel_left]
    · by_cases inside : dst ≤ a ∧ a < dst + n
      · rw [if_pos inside, if_pos (by omega), update_of_ne (by omega)]
      · rw [if_neg inside, if_neg (by omega), update_of_ne last]

theorem copyUp_moved (above : dst ≤ src) : Moved dst src n memory (copyUp n dst src memory) := by
  induction n generalizing dst src memory with
  | zero =>
    intro a
    rw [if_neg (by omega)]
    rfl
  | succ n ih =>
    intro a
    rw [copyUp, ih (by omega) a]
    by_cases first : a = dst
    · rw [if_neg (by omega), if_pos (by omega), first, update_self, Nat.sub_self, Nat.add_zero]
    · by_cases inside : dst + 1 ≤ a ∧ a < dst + 1 + n
      · rw [if_pos inside, if_pos (by omega), update_of_ne (by omega)]
        congr 1
        omega
      · rw [if_neg inside, if_neg (by omega), update_of_ne first]

/-- A copy to higher addresses reads what it has written. -/
theorem copyUp_above (above : src < dst) :
    (∀ i < n, copyUp n dst src memory (dst + i) = copyUp n dst src memory (src + i)) ∧
      ∀ a, a < dst ∨ dst + n ≤ a → copyUp n dst src memory a = memory a := by
  induction n generalizing dst src memory with
  | zero => exact ⟨fun i none => absurd none (Nat.not_lt_zero i), fun _ _ => rfl⟩
  | succ n ih =>
    obtain ⟨copied, kept⟩ := @ih (dst + 1) (src + 1)
      (update memory dst (memory src)) (by omega)
    refine ⟨fun i within => ?_, fun a outside => ?_⟩
    · rw [copyUp]
      cases i with
      | zero =>
        rw [kept _ (by omega), kept _ (by omega), Nat.add_zero, update_self, Nat.add_zero,
          update_of_ne (by omega)]
      | succ i =>
        have later := copied i (by omega)
        rwa [Nat.add_right_comm, Nat.add_right_comm src] at later
    · rw [copyUp, kept a (by omega), update_of_ne (by omega)]

/-- Such a copy moves the bytes exactly when those from `src` on repeat at the
distance of the ranges. -/
theorem copyUp_moved_iff (above : src < dst) : Moved dst src n memory (copyUp n dst src memory) ↔
      ∀ i, i + (dst - src) < n → memory (src + i + (dst - src)) = memory (src + i) := by
  obtain ⟨copied, kept⟩ := @copyUp_above dst src n memory above
  constructor
  · intro moved i within
    have here : ∀ j < n, copyUp n dst src memory (dst + j) = memory (src + j) := by
      intro j inside
      rw [moved, if_pos (by omega), Nat.add_sub_cancel_left]
    have there := copied (i + (dst - src)) within
    rw [here _ within, show src + (i + (dst - src)) = dst + i by omega, here i (by omega)] at there
    rwa [show src + i + (dst - src) = dst + i by omega]
  · intro repeats
    have here : ∀ i < n, copyUp n dst src memory (dst + i) = memory (src + i) := by
      intro i
      -- the byte that is copied to `dst + i` was copied before, or is a source byte
      induction i using Nat.strongRecOn with
      | ind i ih =>
        intro within
        rw [copied i within]
        by_cases first : src + i < dst
        · exact kept _ (.inl first)
        · have before := ih (i - (dst - src)) (by omega) (by omega)
          rw [show dst + (i - (dst - src)) = src + i by omega] at before
          rw [before, ← repeats (i - (dst - src)) (by omega)]
          congr 1
          omega
    intro a
    split
    case isTrue inside => rw [← here (a - dst) (by omega), Nat.add_sub_cancel' inside.1]
    case isFalse outside => exact kept a (by omega)

/-- The kernel's `memmove` moves the bytes.  That of user programs does so
exactly when they do not move up, or repeat at the distance of the ranges. -/
theorem memmove_iff (source : src + n ≤ addresses) (target : dst + n ≤ addresses) :
    Moved dst src n memory (kernelMemmove dst src n memory) ∧
      (Moved dst src n memory (userMemmove dst src n memory) ↔
        dst ≤ src ∨ ∀ i, i + (dst - src) < n →
          memory (src + i + (dst - src)) = memory (src + i)) := by
  constructor
  · unfold kernelMemmove
    split
    case isTrue overlap => exact copyDown_moved (Nat.le_of_lt overlap.1)
    case isFalse other =>
      by_cases above : dst ≤ src
      · exact copyUp_moved above
      · -- The end of the source may be address 0, but then nothing is above it.
        refine (copyUp_moved_iff (by omega)).mpr fun i within => ?_
        simp only [addresses] at *
        omega
  · by_cases above : dst ≤ src
    · exact iff_of_true (copyUp_moved above) (.inl above)
    · rw [or_iff_right above]
      exact copyUp_moved_iff (by omega)

end Copy

/-- Every address holds its last bits. -/
def counting : Bytes := BitVec.ofNat 8

theorem memmove_iff_counting : Moved 3 1 4 counting (kernelMemmove 3 1 4 counting) ∧
      (Moved 3 1 4 counting (userMemmove 3 1 4 counting) ↔ 3 ≤ 1 ∨ ∀ i, i + (3 - 1) < 4 →
          counting (1 + i + (3 - 1)) = counting (1 + i)) :=
  memmove_iff (by decide) (by decide)

/-- Two bytes are moved up by one: the second gets the first. -/
theorem userMemmove_overlap : userMemmove 1 0 2 counting 2 = 0 ∧
      ¬ Moved 1 0 2 counting (userMemmove 1 0 2 counting) := by
  refine ⟨by decide, fun moved => ?_⟩
  exact absurd (moved 2) (by decide)

end Xv6.Memmove
