import Mathlib.Algebra.BigOperators.Group.Finset.Basic
import Mathlib.Algebra.BigOperators.Group.Finset.Piecewise
import Mathlib.Algebra.BigOperators.Fin
import Mathlib.Tactic.Abel

/-!
# Tallies

Sums over a table, and counts over a list, when one place is changed.
-/

namespace Foundation
namespace Tally

open Function

section Sum

variable {Index Value Weight : Type*} [DecidableEq Index] [AddCommMonoid Weight]

/-- Changing one place of a table changes the sum by the weights of the old and
the new value. -/
theorem sum_update {places : Finset Index} {place : Index}
    (member : place ∈ places) (weight : Value → Weight) (table : Index → Value) (value : Value) :
    ∑ index ∈ places, weight (update table place value index) + weight (table place) =
      ∑ index ∈ places, weight (table index) + weight value := by
  have split : ∀ other : Index → Value, ∑ index ∈ places, weight (other index) =
      weight (other place) + ∑ index ∈ places.erase place, weight (other index) :=
    fun other => (Finset.add_sum_erase places _ member).symm
  have rest : ∑ index ∈ places.erase place, weight (update table place value index) =
      ∑ index ∈ places.erase place, weight (table index) :=
    Finset.sum_congr rfl fun index other => by
      rw [update_of_ne (Finset.ne_of_mem_erase other)]
  rw [split, split table, update_self, rest]
  abel

end Sum

section Count

variable {Value : Type*} {list : List Value} {old new : Value} {index : Nat}

/-- Replacing an element changes a count by the old and the new element. -/
theorem countP_replace (test : Value → Bool) (there : list[index]? = some old) :
    (list.take index ++ [new] ++ list.drop (index + 1)).countP test + (test old).toNat =
      list.countP test + (test new).toNat := by
  have inside := (List.getElem?_eq_some_iff.mp there).1
  have parts : list = list.take index ++ old :: list.drop (index + 1) := by
    conv_lhs => rw [← List.take_append_drop index list, List.drop_eq_getElem_cons inside,
      (List.getElem?_eq_some_iff.mp there).2]
  have whole := congrArg (List.countP test) parts
  have single : ∀ value : Value, [value].countP test = (test value).toNat :=
    fun value => by cases result : test value <;> simp [result]
  rw [← List.singleton_append] at whole
  simp only [List.countP_append, single] at whole ⊢
  omega

/-- An element added at the end. -/
theorem countP_append_one (test : Value → Bool) :
    (list ++ [new]).countP test = list.countP test + (test new).toNat := by
  cases result : test new <;> simp [result]

end Count

end Tally
end Foundation
