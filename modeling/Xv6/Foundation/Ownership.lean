import Mathlib.Logic.Function.Basic
import Mathlib.Data.List.Nodup
import Mathlib.Tactic.Common

/-!
# Who owns which block

Positions own blocks, each block at most once, and a set of used blocks is kept
alongside.  The accounts are right when a block is used exactly if it is
reserved or owned.  Giving a free block to a position and taking a block from
one keep the accounts right.
-/

namespace Foundation
namespace Ownership

open Function

variable {Position Block : Type}

/-- The accounts of the blocks are right. -/
structure Accounted (owned : Position → Option Block) (used reserved : Block → Prop) :
    Prop where
  /-- No block is owned twice. -/
  injective : ∀ {first second block},
    owned first = some block → owned second = some block → first = second
  /-- A block is used exactly when it is reserved or owned. -/
  used_iff : ∀ block, used block ↔ reserved block ∨ ∃ pos, owned pos = some block
  /-- Nobody owns a reserved block. -/
  unreserved : ∀ {pos block}, owned pos = some block → ¬ reserved block

variable {owned : Position → Option Block} {used reserved : Block → Prop}

theorem Accounted.congr {owned' : Position → Option Block} {used' : Block → Prop}
    (accounted : Accounted owned used reserved) (sameOwned : ∀ pos, owned' pos = owned pos)
    (sameUsed : ∀ block, used' block ↔ used block) : Accounted owned' used' reserved := by
  obtain rfl : owned' = owned := funext sameOwned
  obtain rfl : used' = used := funext fun block => propext (sameUsed block)
  exact accounted

variable {pos : Position} {block : Block}

theorem Accounted.used_of_owned (accounted : Accounted owned used reserved)
    (holds : owned pos = some block) : used block :=
  (accounted.used_iff block).mpr (.inr ⟨pos, holds⟩)

variable [DecidableEq Position]

/-- A free block is given to a position that owns none. -/
theorem Accounted.assign (accounted : Accounted owned used reserved)
    (free : ¬ used block) (empty : owned pos = none) :
    Accounted (update owned pos (some block))
      (fun other => used other ∨ other = block) reserved := by
  have unowned : ∀ other, owned other ≠ some block := fun other holds =>
    free (accounted.used_of_owned holds)
  refine ⟨?_, ?_, ?_⟩
  · intro first second other firstOwns secondOwns
    rw [update_apply] at firstOwns secondOwns
    split at firstOwns <;> split at secondOwns
    case isTrue.isTrue equal same => rw [equal, same]
    case isTrue.isFalse =>
      cases firstOwns
      exact absurd secondOwns (unowned second)
    case isFalse.isTrue =>
      cases secondOwns
      exact absurd firstOwns (unowned first)
    case isFalse.isFalse => exact accounted.injective firstOwns secondOwns
  · intro other
    rw [accounted.used_iff other]
    constructor
    · rintro ((isReserved | ⟨owner, holds⟩) | rfl)
      · exact .inl isReserved
      · refine .inr ⟨owner, ?_⟩
        have apart : owner ≠ pos := by
          rintro rfl
          rw [empty] at holds
          cases holds
        rw [update_of_ne apart, holds]
      · exact .inr ⟨pos, update_self ..⟩
    · rintro (isReserved | ⟨owner, holds⟩)
      · exact .inl (.inl isReserved)
      · rw [update_apply] at holds
        split at holds
        · cases holds
          exact .inr rfl
        · exact .inl (.inr ⟨owner, holds⟩)
  · intro owner other holds isReserved
    rw [update_apply] at holds
    split at holds
    · cases holds
      exact free ((accounted.used_iff _).mpr (.inl isReserved))
    · exact accounted.unreserved holds isReserved

/-- A position gives up its block. -/
theorem Accounted.release (accounted : Accounted owned used reserved)
    (holds : owned pos = some block) :
    Accounted (update owned pos none) (fun other => used other ∧ other ≠ block) reserved := by
  refine ⟨?_, ?_, ?_⟩
  · intro first second other firstOwns secondOwns
    rw [update_apply] at firstOwns secondOwns
    split at firstOwns
    · cases firstOwns
    · split at secondOwns
      · cases secondOwns
      · exact accounted.injective firstOwns secondOwns
  · intro other
    rw [accounted.used_iff other]
    constructor
    · rintro ⟨isReserved | ⟨owner, owns⟩, apart⟩
      · exact .inl isReserved
      · refine .inr ⟨owner, ?_⟩
        rw [update_of_ne, owns]
        rintro rfl
        rw [holds] at owns
        exact apart (Option.some.inj owns).symm
    · rintro (isReserved | ⟨owner, owns⟩)
      · refine ⟨.inl isReserved, ?_⟩
        rintro rfl
        exact accounted.unreserved holds isReserved
      · rw [update_apply] at owns
        split at owns
        · cases owns
        · rename_i apart
          refine ⟨.inr ⟨owner, owns⟩, ?_⟩
          rintro rfl
          exact apart (accounted.injective owns holds)
  · intro owner other owns
    rw [update_apply] at owns
    split at owns
    · cases owns
    · exact accounted.unreserved owns

end Ownership
end Foundation
