import Mathlib.Data.Set.Insert
import Mathlib.Tactic.Common

/-!
# Free lists in the order of their addresses

Memory allocators keep free blocks in a circular list whose order is that of the
addresses.  This module has the circle (`Ring`), how far it is from one address
to another on it (`walk`), and blocks that do not overlap (`Extents`).
-/

namespace Foundation
namespace FreeList

open Set (mem_insert_iff mem_singleton_iff)

/-- `next` links the addresses of `free` in a circle, in ascending order from
`base` on. -/
structure Ring (base : Nat) (next : Nat → Nat) (free : Set Nat) : Prop where
  base_mem : base ∈ free
  base_le : ∀ a ∈ free, base ≤ a
  next_mem : ∀ a ∈ free, next a ∈ free
  after : ∀ a ∈ free, ∀ c ∈ free, a < c → a < next a ∧ next a ≤ c
  last : ∀ a ∈ free, next a ≤ a → next a = base

namespace Ring

variable {base : Nat} {next next' : Nat → Nat} {free : Set Nat} {p x : Nat}

/-- A circle of one. -/
theorem singleton (self : next base = base) : Ring base next {base} where
  base_mem := rfl
  base_le := by
    intro a member
    rw [mem_singleton_iff.mp member]
  next_mem := by
    intro a member
    rw [mem_singleton_iff.mp member, self]
    rfl
  after := by
    intro a member c member' less
    rw [mem_singleton_iff.mp member, mem_singleton_iff.mp member'] at less
    exact absurd less (Nat.lt_irrefl base)
  last := by
    intro a member _
    rw [mem_singleton_iff.mp member, self]

theorem congr (ring : Ring base next free) (same : ∀ a ∈ free, next' a = next a) :
    Ring base next' free where
  base_mem := ring.base_mem
  base_le := ring.base_le
  next_mem := by
    intro a member
    rw [same a member]
    exact ring.next_mem a member
  after := by
    intro a member c member' less
    rw [same a member]
    exact ring.after a member c member' less
  last := by
    intro a member wraps
    rw [same a member] at wraps ⊢
    exact ring.last a member wraps

section

variable (ring : Ring base next free) (member : p ∈ free)
include ring member

/-- A new address between two neighbours. -/
theorem insert (new : x ∉ free) (above : p < x) (gap : x < next p ∨ next p ≤ p)
    (at_new : next' x = next p) (at_old : next' p = x)
    (elsewhere : ∀ a ∈ free, a ≠ p → next' a = next a) : Ring base next' (insert x free) where
  base_mem := Set.mem_insert_of_mem x ring.base_mem
  base_le := by
    intro a member'
    rcases mem_insert_iff.mp member' with rfl | old
    · exact Nat.le_of_lt (Nat.lt_of_le_of_lt (ring.base_le p member) above)
    · exact ring.base_le a old
  next_mem := by
    intro a member'
    rcases mem_insert_iff.mp member' with rfl | old
    · rw [at_new]
      exact Set.mem_insert_of_mem _ (ring.next_mem p member)
    · by_cases here : a = p
      · rw [here, at_old]
        exact Set.mem_insert x free
      · rw [elsewhere a old here]
        exact Set.mem_insert_of_mem x (ring.next_mem a old)
  after := by
    intro a memberA c memberC less
    rcases mem_insert_iff.mp memberA with rfl | oldA
    · rcases mem_insert_iff.mp memberC with rfl | oldC
      · exact absurd less (Nat.lt_irrefl c)
      · have beyond := ring.after p member c oldC (by omega)
        rw [at_new]
        omega
    · by_cases here : a = p
      · subst here
        rw [at_old]
        rcases mem_insert_iff.mp memberC with rfl | oldC
        · exact ⟨above, Nat.le_refl c⟩
        · have beyond := ring.after a member c oldC less
          omega
      · rw [elsewhere a oldA here]
        rcases mem_insert_iff.mp memberC with rfl | oldC
        · have below : a < p := by
            by_contra notBelow
            have beyond := ring.after p member a oldA (by omega)
            omega
          have beyond := ring.after a oldA p member below
          omega
        · exact ring.after a oldA c oldC less
  last := by
    intro a member' wraps
    rcases mem_insert_iff.mp member' with rfl | old
    · rw [at_new] at wraps ⊢
      exact ring.last p member (by omega)
    · by_cases here : a = p
      · rw [here, at_old] at wraps
        omega
      · rw [elsewhere a old here] at wraps ⊢
        exact ring.last a old wraps

/-- Only the base comes after a higher address. -/
theorem lt_next (inner : next p ≠ base) : p < next p := by
  by_contra wraps
  exact inner (ring.last p member (by omega))

/-- The address after `p` is taken out. -/
theorem remove (inner : next p ≠ base) (at_old : next' p = next (next p))
    (elsewhere : ∀ a ∈ free, a ≠ p → a ≠ next p → next' a = next a) :
    Ring base next' (free \ {next p}) where
  base_mem := ⟨ring.base_mem, fun same => inner same.symm⟩
  base_le := fun a member' => ring.base_le a member'.1
  next_mem := by
    have above := ring.lt_next member inner
    have memberNext := ring.next_mem p member
    intro a ⟨old, notNext⟩
    by_cases here : a = p
    · rw [here, at_old]
      refine ⟨ring.next_mem _ memberNext, fun same => ?_⟩
      have self : next (next p) = next p := same
      exact inner (self ▸ ring.last _ memberNext (Nat.le_of_eq self))
    · rw [elsewhere a old here notNext]
      refine ⟨ring.next_mem a old, fun same => ?_⟩
      have same : next a = next p := same
      have less : a < next a := ring.lt_next old (same ▸ inner)
      rcases Nat.lt_or_gt_of_ne here with below | beyond
      · have := ring.after a old p member below
        omega
      · have := ring.after p member a old beyond
        omega
  after := by
    have above := ring.lt_next member inner
    intro a ⟨oldA, notNextA⟩ c ⟨oldC, notNextC⟩ less
    have differs : c ≠ next p := notNextC
    by_cases here : a = p
    · subst here
      have beyond := ring.after a member c oldC less
      have further := ring.after _ (ring.next_mem a member) c oldC (by omega)
      rw [at_old]
      omega
    · rw [elsewhere a oldA here notNextA]
      exact ring.after a oldA c oldC less
  last := by
    have above := ring.lt_next member inner
    intro a ⟨old, notNext⟩ wraps
    by_cases here : a = p
    · rw [here, at_old] at wraps ⊢
      exact ring.last _ (ring.next_mem p member) (by omega)
    · rw [elsewhere a old here notNext] at wraps ⊢
      exact ring.last a old wraps

end

end Ring

/-- How far it is from `p` around the circle to `target`, at most; addresses are
at most `limit`. -/
def walk (limit target p : Nat) : Nat :=
  if p ≤ target then target - p else limit - p + target + 1

theorem walk_self (limit target : Nat) : walk limit target target = 0 := by
  unfold walk
  rw [if_pos (Nat.le_refl target), Nat.sub_self]

theorem eq_of_walk_le_zero {limit target p : Nat} (here : walk limit target p ≤ 0) :
    p = target := by
  unfold walk at here
  split at here <;> omega

theorem walk_le (limit target p : Nat) : walk limit target p ≤ limit + target + 1 := by
  unfold walk
  split <;> omega

namespace Ring

variable {base limit target : Nat} {next : Nat → Nat} {free : Set Nat}
  {p b : Nat}

/-- Every step comes closer. -/
theorem walk_next (ring : Ring base next free) (member : p ∈ free)
    (bounded : ∀ a ∈ free, a ≤ limit) (based : base ≤ target)
    (differs : p ≠ target) (below : p < target → p < next p ∧ next p ≤ target) :
    walk limit target (next p) < walk limit target p := by
  have high := bounded _ (ring.next_mem p member)
  have wraps := ring.last p member
  unfold walk
  split <;> split <;> omega

theorem walk_ahead (ring : Ring base next free) (member : p ∈ free) (memberB : b ∈ free)
    (memberTarget : target ∈ free) (other : p ≠ b)
    (ahead : walk limit target b ≤ walk limit target p) (bounded : ∀ a ∈ free, a ≤ limit) :
    walk limit target b ≤ walk limit target (next p) := by
  have high := bounded _ (ring.next_mem p member)
  have wraps := ring.last p member
  have afterB := ring.after p member b memberB
  have afterTarget := ring.after p member target memberTarget
  have lowB := ring.base_le b memberB
  have highB := bounded b memberB
  have highP := bounded p member
  unfold walk at ahead ⊢
  split at ahead <;> split at ahead <;> split <;> split <;> omega

/-- After one address all the others are ahead of it. -/
theorem walk_start (ring : Ring base next free)
    (memberTarget : target ∈ free) (memberB : b ∈ free) (bounded : ∀ a ∈ free, a ≤ limit) :
    walk limit target b ≤ walk limit target (next target) := by
  have high := bounded _ (ring.next_mem target memberTarget)
  have wraps := ring.last target memberTarget
  have afterB := ring.after target memberTarget b memberB
  have lowB := ring.base_le b memberB
  have highB := bounded b memberB
  unfold walk
  split <;> split <;> omega

end Ring

/-- Blocks between `low` and `high` that do not overlap. -/
structure Extents (low high : Nat) (length : Nat → Nat) (blocks : Set Nat) : Prop where
  pos : ∀ a ∈ blocks, 0 < length a
  low_le : ∀ a ∈ blocks, low ≤ a
  le_high : ∀ a ∈ blocks, a + length a ≤ high
  apart : ∀ a ∈ blocks, ∀ b ∈ blocks, a < b → a + length a ≤ b

namespace Extents

variable {low high high' : Nat} {length length' : Nat → Nat}
  {blocks : Set Nat} {a b rest tail : Nat}

theorem empty : Extents low high length ∅ where
  pos := fun _ member => member.elim
  low_le := fun _ member => member.elim
  le_high := fun _ member => member.elim
  apart := fun _ member => member.elim

section

variable (extents : Extents low high length blocks)
include extents

/-- No block starts inside a block. -/
theorem not_mem (member : a ∈ blocks) (above : a < b) (below : b < a + length a) : b ∉ blocks := by
  intro memberB
  have := extents.apart a member b memberB above
  omega

/-- The end of a block becomes a block. -/
theorem split (member : a ∈ blocks)
    (sum : length a = rest + tail) (restPos : 0 < rest) (tailPos : 0 < tail)
    (at_old : length' a = rest) (at_new : length' (a + rest) = tail)
    (elsewhere : ∀ c ∈ blocks, c ≠ a → length' c = length c) :
    Extents low high length' (insert (a + rest) blocks) := by
  have lowA := extents.low_le a member
  have highA := extents.le_high a member
  have shorter : ∀ c ∈ blocks, 0 < length' c ∧ length' c ≤ length c := by
    intro c memberC
    by_cases here : c = a
    · rw [here, at_old]
      omega
    · rw [elsewhere c memberC here]
      exact ⟨extents.pos c memberC, Nat.le_refl _⟩
  constructor
  · intro c memberC
    rcases mem_insert_iff.mp memberC with rfl | old
    · omega
    · exact (shorter c old).1
  · intro c memberC
    rcases mem_insert_iff.mp memberC with rfl | old
    · omega
    · exact extents.low_le c old
  · intro c memberC
    rcases mem_insert_iff.mp memberC with rfl | old
    · omega
    · have := extents.le_high c old
      have := shorter c old
      omega
  · intro c memberC d memberD less
    rcases mem_insert_iff.mp memberC with rfl | oldC
    · rcases mem_insert_iff.mp memberD with rfl | oldD
      · omega
      · have := extents.apart a member d oldD (by omega)
        omega
    · rcases mem_insert_iff.mp memberD with rfl | oldD
      · by_cases here : c = a
        · rw [here, at_old]
        · have := shorter c oldC
          rcases Nat.lt_or_gt_of_ne here with below | above
          · have := extents.apart c oldC a member below
            omega
          · have := extents.apart a member c oldC above
            omega
      · have := extents.apart c oldC d oldD less
        have := shorter c oldC
        omega

/-- Two blocks that touch become one. -/
theorem merge (memberA : a ∈ blocks) (memberB : b ∈ blocks) (touch : a + length a = b)
    (at_first : length' a = length a + length b)
    (elsewhere : ∀ c ∈ blocks, c ≠ a → c ≠ b → length' c = length c) :
    Extents low high length' (blocks \ {b}) := by
  have posA := extents.pos a memberA
  have posB := extents.pos b memberB
  have highB := extents.le_high b memberB
  constructor
  · intro c ⟨old, notB⟩
    by_cases here : c = a
    · rw [here, at_first]
      omega
    · rw [elsewhere c old here notB]
      exact extents.pos c old
  · intro c member
    exact extents.low_le c member.1
  · intro c ⟨old, notB⟩
    by_cases here : c = a
    · rw [here, at_first]
      omega
    · rw [elsewhere c old here notB]
      exact extents.le_high c old
  · intro c ⟨oldC, notB⟩ d ⟨oldD, notB'⟩ less
    have differs : d ≠ b := notB'
    by_cases here : c = a
    · subst here
      have := extents.apart c memberA d oldD less
      have := extents.apart b memberB d oldD (by omega)
      rw [at_first]
      omega
    · rw [elsewhere c oldC here notB]
      exact extents.apart c oldC d oldD less

/-- A block after all the others. -/
theorem extend (based : low ≤ high) (pos : 0 < length' high) (fits : high + length' high ≤ high')
    (elsewhere : ∀ c ∈ blocks, length' c = length c) :
    Extents low high' length' (insert high blocks) := by
  constructor
  · intro c memberC
    rcases mem_insert_iff.mp memberC with rfl | old
    · exact pos
    · rw [elsewhere c old]
      exact extents.pos c old
  · intro c memberC
    rcases mem_insert_iff.mp memberC with rfl | old
    · exact based
    · exact extents.low_le c old
  · intro c memberC
    rcases mem_insert_iff.mp memberC with rfl | old
    · exact fits
    · rw [elsewhere c old]
      have := extents.le_high c old
      omega
  · intro c memberC d memberD less
    rcases mem_insert_iff.mp memberC with rfl | oldC
    · rcases mem_insert_iff.mp memberD with rfl | oldD
      · omega
      · have := extents.le_high d oldD
        omega
    · rw [elsewhere c oldC]
      rcases mem_insert_iff.mp memberD with rfl | oldD
      · exact extents.le_high c oldC
      · exact extents.apart c oldC d oldD less

end

end Extents

end FreeList
end Foundation
