import Mathlib.Logic.Function.Basic
import Mathlib.Data.List.Nodup

/-!
# Sequences of point updates

A store maps addresses to values.  A sequence of writes is applied in order,
and the lemmas say what a store holds afterwards.
-/

namespace Foundation
namespace WriteSequence

open Function

variable {Address Value : Type} [DecidableEq Address]

/-- Apply the writes in order. -/
def applyWrites (store : Address → Value) : List (Address × Value) → Address → Value
  | [] => store
  | write :: writes => applyWrites (Function.update store write.1 write.2) writes

section

variable (store : Address → Value)
include store

@[simp] theorem applyWrites_nil : applyWrites store [] = store := rfl

@[simp] theorem applyWrites_cons (write : Address × Value) (writes : List (Address × Value)) :
    applyWrites store (write :: writes) = applyWrites (update store write.1 write.2) writes := rfl

theorem applyWrites_append (first second : List (Address × Value)) :
    applyWrites store (first ++ second) = applyWrites (applyWrites store first) second := by
  induction first generalizing store with
  | nil => rfl
  | cons write writes ih => exact ih _

/-- An address that no write names keeps its value. -/
theorem applyWrites_of_notMem (writes : List (Address × Value)) (address : Address)
    (absent : address ∉ writes.map Prod.fst) :
    applyWrites store writes address = store address := by
  induction writes generalizing store with
  | nil => rfl
  | cons write writes ih =>
    simp only [List.map_cons, List.mem_cons, not_or] at absent
    rw [applyWrites_cons, ih _ absent.2, update_of_ne absent.1]

/-- When every address is written once, a written address holds its write. -/
theorem applyWrites_of_mem (writes : List (Address × Value))
    (distinct : (writes.map Prod.fst).Nodup)
    {address : Address} {value : Value} (present : (address, value) ∈ writes) :
    applyWrites store writes address = value := by
  induction writes generalizing store with
  | nil => simp at present
  | cons write writes ih =>
    simp only [List.map_cons, List.nodup_cons] at distinct
    rcases List.mem_cons.mp present with head | tail
    · subst head
      rw [applyWrites_cons, applyWrites_of_notMem _ _ _ distinct.1, update_self]
    · exact ih _ distinct.2 tail

end

end WriteSequence
end Foundation
