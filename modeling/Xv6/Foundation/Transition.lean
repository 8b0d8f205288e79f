import Mathlib.Algebra.GroupWithZero.Nat
import Mathlib.Data.Fintype.Card
import Mathlib.Tactic.Common

/-!
# Runs of a transition system

A transition system is a partial step function on states, driven by actions.
This module has its finite runs, predicates along a run, the invariant rule,
and the count of processes whose program counter is in a given class.
-/

namespace Foundation
namespace Transition

open Function

variable {State Action : Type}

/-- Perform the actions in order; `none` when one of them is not enabled. -/
def run (step : State → Action → Option State) : State → List Action → Option State
  | s, [] => some s
  | s, action :: actions =>
    match step s action with
    | none => none
    | some next => run step next actions

/-- Every action of a run satisfies `allowed` in the state it is taken in. -/
def Along (step : State → Action → Option State) (allowed : State → Action → Prop) :
    State → List Action → Prop
  | _, [] => True
  | s, action :: actions =>
    allowed s action ∧
      match step s action with
      | none => True
      | some next => Along step allowed next actions

instance decidableAlong (step : State → Action → Option State)
    (allowed : State → Action → Prop) [∀ s action, Decidable (allowed s action)] :
    ∀ s actions, Decidable (Along step allowed s actions)
  | _, [] => isTrue trivial
  | s, action :: actions =>
    match equation : step s action with
    | none => decidable_of_iff (allowed s action) (by simp [Along, equation])
    | some next =>
      have := decidableAlong step allowed next actions
      decidable_of_iff (allowed s action ∧ Along step allowed next actions)
        (by simp [Along, equation])

variable {allowed : State → Action → Prop} {step : State → Action → Option State}

variable {actions : List Action}

/-- What holds of the actions of a run in every state holds along it. -/
theorem Along.of_mem (always : ∀ action ∈ actions, ∀ s, allowed s action) (s : State) :
    Along step allowed s actions := by
  induction actions generalizing s with
  | nil => trivial
  | cons action actions ih =>
    obtain ⟨first, others⟩ := List.forall_mem_cons.mp always
    refine ⟨first s, ?_⟩
    split
    case h_1 => trivial
    case h_2 next taken => exact ih others next

variable {s final : State}

/-- A weaker condition holds along a run as well. -/
theorem Along.mono {weaker : State → Action → Prop}
    (implied : ∀ s action, allowed s action → weaker s action)
    (along : Along step allowed s actions) : Along step weaker s actions := by
  induction actions generalizing s with
  | nil => trivial
  | cons action actions ih =>
    refine ⟨implied s action along.1, ?_⟩
    have later := along.2
    split
    case h_1 => trivial
    case h_2 next taken =>
      rw [taken] at later
      exact ih later

/-- What holds along a run may be put together. -/
theorem Along.and {required : State → Action → Prop}
    (along : Along step allowed s actions) (also : Along step required s actions) :
    Along step (fun s action => allowed s action ∧
      required s action) s actions := by
  induction actions generalizing s with
  | nil => trivial
  | cons action actions ih =>
    refine ⟨⟨along.1, also.1⟩, ?_⟩
    have later := along.2
    have alsoLater := also.2
    split
    case h_1 => trivial
    case h_2 next taken =>
      rw [taken] at later alsoLater
      exact ih later alsoLater

/-- What holds along a run holds after its first step. -/
theorem Along.tail
    {next : State} {action : Action} (along : Along step allowed s (action :: actions))
    (taken : step s action = some next) : Along step allowed next actions := by
  have later := along.2
  rwa [taken] at later

theorem run_append (step : State → Action → Option State)
    (s : State) (actions later : List Action) :
    run step s (actions ++ later) =
      (run step s actions).bind fun next => run step next later := by
  induction actions generalizing s with
  | nil => rfl
  | cons action actions ih =>
    rw [List.cons_append, run, run]
    cases step s action with
    | none => rfl
    | some next => exact ih next

/-- Reading the first step off a run. -/
theorem run_cons {action : Action} (ended : run step s (action :: actions) = some final) :
    ∃ next, step s action = some next ∧ run step next actions = some final := by
  rw [run] at ended
  cases taken : step s action with
  | none => simp [taken] at ended
  | some next => exact ⟨next, rfl, by simpa [taken] using ended⟩

/-- What every step preserves holds at the end of every run. -/
theorem run_invariant (invariant : State → Prop)
    (preserved : ∀ s action next, invariant s → step s action = some next → invariant next)
    (initially : invariant s)
    (ended : run step s actions = some final) : invariant final := by
  induction actions generalizing s with
  | nil =>
    cases ended
    exact initially
  | cons action actions ih =>
    obtain ⟨next, taken, rest⟩ := run_cons ended
    exact ih (preserved _ _ _ initially taken) rest

/-- What every allowed step preserves holds at the end of a run of allowed
steps. -/
theorem run_invariant_along (invariant : State → Prop)
    (preserved : ∀ s action next, invariant s →
      allowed s action → step s action = some next → invariant next)
    (initially : invariant s)
    (along : Along step allowed s actions)
    (ended : run step s actions = some final) : invariant final := by
  induction actions generalizing s with
  | nil =>
    cases ended
    exact initially
  | cons action actions ih =>
    obtain ⟨next, taken, rest⟩ := run_cons ended
    exact ih (preserved s action next initially along.1 taken) (along.tail taken) rest

/-! ## Runs written out have one, two or three processes

A named instance keeps `Fin` literals from carrying a proof each. -/

instance neZero_one : NeZero 1 := ⟨by decide⟩

instance neZero_two : NeZero 2 := ⟨by decide⟩

instance neZero_three : NeZero 3 := ⟨by decide⟩

/-! ## Counting processes by program counter -/

variable {Process Location : Type}

section Count

variable [Fintype Process]

/-- Number of processes whose location is in a class. -/
def count (inClass : Location → Bool) (location : Process → Location) : Nat :=
  (Finset.univ.filter fun proc => inClass (location proc) = true).card

variable {location : Process → Location} {inClass : Location → Bool}

/-- A process in the class makes the count positive. -/
theorem count_pos {proc : Process} (member : inClass (location proc) = true) :
    0 < count inClass location := by
  apply Finset.card_pos.mpr
  exact ⟨proc, by simpa using member⟩

/-- The count is one exactly when the process is alone in the class. -/
theorem count_eq_one_iff {proc : Process} (member : inClass (location proc) = true) :
    count inClass location = 1 ↔ ∀ other, other ≠ proc → inClass (location other) = false := by
  unfold count
  rw [Finset.card_eq_one]
  constructor
  · rintro ⟨single, alone⟩ other apart
    have inside : ∀ third, inClass (location third) = true → third = single :=
      fun third here => by
        have found : third ∈ Finset.univ.filter fun proc =>
            inClass (location proc) = true := by simpa using here
        rw [alone] at found
        exact Finset.mem_singleton.mp found
    cases here : inClass (location other) with
    | false => rfl
    | true => exact absurd ((inside other here).trans (inside proc member).symm) apart
  · intro outside
    refine ⟨proc, Finset.ext fun other => ?_⟩
    simp only [Finset.mem_filter, Finset.mem_univ, true_and, Finset.mem_singleton]
    constructor
    · intro here
      by_contra apart
      rw [outside other apart] at here
      cases here
    · rintro rfl
      exact member

/-- Moving one process changes the count by what the move says. -/
theorem count_update [DecidableEq Process]
    (inClass : Location → Bool) (location : Process → Location)
    (proc : Process) (target : Location) :
    count inClass (update location proc target) + (inClass (location proc)).toNat =
      count inClass location + (inClass target).toNat := by
  have others : ∀ place : Process → Location, count inClass place =
        ((Finset.univ.erase proc).filter fun other =>
            inClass (place other) = true).card +
          (inClass (place proc)).toNat := by
    intro place
    rw [count, ← Finset.insert_erase (Finset.mem_univ proc), Finset.filter_insert]
    cases member : inClass (place proc) with
    | false => simp
    | true => simp [Finset.card_insert_of_notMem]
  have same : (Finset.univ.erase proc).filter (fun other =>
        inClass (update location proc target other) = true) =
      (Finset.univ.erase proc).filter fun other =>
        inClass (location other) = true := by
    apply Finset.filter_congr
    intro other member
    rw [update_of_ne (Finset.ne_of_mem_erase member)]
  rw [others (update location proc target), others location, same, update_self]
  omega

end Count

variable {location : Process → Location} {inClass : Location → Bool}
variable {proc : Process} {target : Location}

/-- The processes in a class stay as many when one moves within the class or
outside it. -/
theorem count_move [Fintype Process] [DecidableEq Process]
    (same : inClass target = inClass (location proc)) :
    count inClass (update location proc target) = count inClass location := by
  have counted := count_update inClass location proc target
  rw [same] at counted
  exact Nat.add_right_cancel counted

/-! ## Classes of locations that one process at a time may be in -/

section Exclusive

/-- The process that `holder` names is the only one in the class, and no
process is when `holder` names none. -/
def Exclusive (inClass : Location → Bool) (location : Process → Location)
    (holder : Option Process) : Prop :=
  ∀ proc, inClass (location proc) = true ↔ holder = some proc

variable {inClass : Location → Bool} {location : Process → Location} {holder : Option Process}

/-- Only the holder is in the class. -/
theorem Exclusive.unique (exclusive : Exclusive inClass location holder)
    {first second : Process} (firstInside : inClass (location first) = true)
    (secondInside : inClass (location second) = true) : first = second := by
  have left := (exclusive first).mp firstInside
  have right := (exclusive second).mp secondInside
  rw [left] at right
  exact Option.some.inj right

/-- Nobody is in the class while it has no holder. -/
theorem Exclusive.outside (exclusive : Exclusive inClass location none)
    (proc : Process) : inClass (location proc) = false := by
  have absent := mt (exclusive proc).mp (by simp)
  simpa using absent

/-- A change of locations that keeps every process in or out of the class. -/
theorem Exclusive.congr {moved : Process → Location} (exclusive : Exclusive inClass location holder)
    (same : ∀ proc, inClass (moved proc) = inClass (location proc)) :
    Exclusive inClass moved holder := by
  intro proc
  rw [same proc]
  exact exclusive proc

variable [DecidableEq Process]

/-- A process moves within the class or outside it. -/
theorem Exclusive.move (exclusive : Exclusive inClass location holder)
    (same : inClass target = inClass (location proc)) :
    Exclusive inClass (update location proc target) holder := by
  apply exclusive.congr
  intro other
  by_cases equal : other = proc
  · subst equal
    rw [update_self, same]
  · rw [update_of_ne equal]

/-- A process enters the class while it has no holder. -/
theorem Exclusive.enter (exclusive : Exclusive inClass location none)
    (inside : inClass target = true) :
    Exclusive inClass (update location proc target) (some proc) := by
  intro other
  by_cases equal : other = proc
  · subst equal
    simp [inside]
  · rw [update_of_ne equal, exclusive.outside other]
    simp [Ne.symm equal]

theorem Exclusive.leave (exclusive : Exclusive inClass location holder)
    (inside : inClass (location proc) = true) (outside : inClass target = false) :
    Exclusive inClass (update location proc target) none := by
  intro other
  by_cases equal : other = proc
  · subst equal
    simp [outside]
  · rw [update_of_ne equal]
    constructor
    · intro member
      exact absurd (exclusive.unique member inside) equal
    · intro impossible
      cases impossible

end Exclusive

variable {fact : Process → Prop}

/-- A fact holds at every process in a class when it holds at the others and,
if the process that moves is in the class, at that one. -/
theorem forall_update_of_ne [DecidableEq Process]
    (others : ∀ other, other ≠ proc → inClass (location other) = true → fact other)
    (entered : inClass target = true → fact proc) :
    ∀ other, inClass (update location proc target other) = true → fact other := by
  intro other member
  by_cases equal : other = proc
  · subst equal
    rw [update_self] at member
    exact entered member
  · rw [update_of_ne equal] at member
    exact others other equal member

/-- A fact that holds at every process in a class survives the move of one
process that enters the class only where the fact holds. -/
theorem forall_update [DecidableEq Process]
    (others : ∀ other, inClass (location other) = true → fact other)
    (entered : inClass target = true → fact proc) :
    ∀ other, inClass (update location proc target other) = true → fact other :=
  forall_update_of_ne (fun other _ => others other) entered

/-- Whether some process is in a class does not change when one moves within
the class or outside it. -/
theorem exists_update [DecidableEq Process] (same : inClass target = inClass (location proc)) :
    (∃ other, inClass (update location proc target other) = true) ↔
      ∃ other, inClass (location other) = true := by
  apply exists_congr
  intro other
  by_cases equal : other = proc
  · subst equal
    rw [update_self, same]
  · rw [update_of_ne equal]

end Transition
end Foundation
