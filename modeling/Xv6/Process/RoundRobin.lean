import Xv6.Foundation.Transition
import Xv6.Process.Table
import Mathlib.Order.Fin.Basic

/-!
# The order in which the scheduler dispatches processes

`scheduler` on one CPU.  Its outer loop goes through the table and its inner
loop replaces the entry it has come upon by one of smaller `priority`; the outer
loop then goes on from there.  Processes of the smallest priority take turns,
unless the outer loop comes upon another one in front of some of them.
-/

namespace Xv6.Process

open Foundation.Transition (run Along run_cons run_invariant_along)

/-- The process table and the entry at which the outer loop goes on. -/
structure Scheduler where
  table : Table
  position : Nat

namespace Scheduler

/-- The next entry that the outer loop comes upon. -/
def scan (scheduler : Scheduler) : Option Slot :=
  first fun slot => scheduler.position ≤ slot.val ∧ (scheduler.table slot).state = .runnable

/-- The process that is dispatched. -/
def chosen (scheduler : Scheduler) : Option Slot :=
  scheduler.scan.map (highP scheduler.table (List.finRange nproc))

end Scheduler

/-- What the outer loop does next.  `after` is the table once the process has
given the CPU back, or once the lock is taken again. -/
inductive Turn
  /-- A process is dispatched. -/
  | dispatch (after : Table)
  /-- The loop ends, and the lock is given up. -/
  | sweep (after : Table)

/-- Priorities do not change. -/
def SamePriorities (table after : Table) : Prop :=
  ∀ slot, (after slot).priority = (table slot).priority

instance (table after : Table) : Decidable (SamePriorities table after) :=
  inferInstanceAs (Decidable (∀ _, _))

/-- One turn of the outer loop, for processes that keep their priorities and
give the CPU back as `RUNNABLE`. -/
def Scheduler.step (scheduler : Scheduler) : Turn → Option Scheduler
  | .dispatch after =>
    match scheduler.chosen with
    | none => none
    | some slot =>
      if SamePriorities scheduler.table after ∧
          (after slot).state = .runnable then
        some ⟨after, slot.val + 1⟩
      else none
  | .sweep after =>
    match scheduler.scan with
    | some _ => none
    | none =>
      if SamePriorities scheduler.table after then some ⟨after, 0⟩
      else none

theorem step_dispatch {scheduler : Scheduler} {after : Table} (slot : Slot)
    (found : scheduler.chosen = some slot) (same : SamePriorities scheduler.table after)
    (runnable : (after slot).state = .runnable) :
    scheduler.step (.dispatch after) = some ⟨after, slot.val + 1⟩ := by
  simp only [Scheduler.step, found, if_pos (And.intro same runnable)]

/-- The process is runnable, and none that is has a smaller priority. -/
def Minimal (table : Table) (slot : Slot) : Prop :=
  (table slot).state = .runnable ∧ ∀ other, (table other).state = .runnable →
      (table slot).priority ≤ (table other).priority

instance (table : Table) (slot : Slot) : Decidable (Minimal table slot) :=
  inferInstanceAs (Decidable (_ ∧ ∀ _, _ → _))

/-- When the outer loop comes upon a process that is not of the smallest
priority, none that is lies behind it in the table. -/
def Orderly (scheduler : Scheduler) : Prop :=
  ∀ slot, scheduler.scan = some slot → ¬ Minimal scheduler.table slot →
    ∀ behind, slot < behind → ¬ Minimal scheduler.table behind

instance (scheduler : Scheduler) : Decidable (Orderly scheduler) :=
  inferInstanceAs (Decidable (∀ _, _ → _ → ∀ _, _ → _))

/-- The turn dispatches a process. -/
def Dispatches (scheduler : Scheduler) (slot : Slot) : Turn → Prop
  | .dispatch _ => scheduler.chosen = some slot
  | .sweep _ => False

instance (scheduler : Scheduler) (slot : Slot) (turn : Turn) :
    Decidable (Dispatches scheduler slot turn) :=
  match turn with
  | .dispatch _ => inferInstanceAs (Decidable (_ = _))
  | .sweep _ => inferInstanceAs (Decidable False)

section Choice

variable {table : Table}

/-- The inner loop keeps the entry it starts from, or finds the first entry of
a smaller priority than any before it. -/
theorem highP_cases (table : Table) {slots : List Slot} (best : Slot)
    (sorted : slots.Pairwise (· < ·)) :
    highP table slots best = best ∧ (∀ slot ∈ slots, (table slot).state = .runnable →
          (table best).priority ≤ (table slot).priority) ∨
      highP table slots best ∈ slots ∧ (table (highP table slots best)).state = .runnable ∧
        (table (highP table slots best)).priority < (table best).priority ∧
        ∀ slot ∈ slots, (table slot).state = .runnable → (table (highP table slots best)).priority <
              (table slot).priority ∨
            (table (highP table slots best)).priority = (table slot).priority ∧
              highP table slots best ≤ slot := by
  induction slots generalizing best with
  | nil => exact .inl ⟨rfl, nofun⟩
  | cons head slots ih =>
    obtain ⟨before, rest⟩ := List.pairwise_cons.mp sorted
    unfold highP
    split
    case isTrue smaller =>
      refine .inr ?_
      rcases ih head rest with ⟨same, least⟩ |
        ⟨member, ready, less, least⟩
      · rw [same]
        refine ⟨List.mem_cons_self, smaller.1, smaller.2, ?_⟩
        refine List.forall_mem_cons.mpr ⟨fun _ => .inr ⟨rfl, le_rfl⟩, ?_⟩
        intro slot there runnable
        have bound := least slot there runnable
        rcases bound.lt_or_eq with under | equal
        · exact .inl under
        · exact .inr ⟨equal, (before slot there).le⟩
      · refine ⟨List.mem_cons_of_mem _ member, ready, less.trans smaller.2, ?_⟩
        exact List.forall_mem_cons.mpr ⟨fun _ => .inl less, least⟩
    case isFalse larger =>
      rcases ih best rest with ⟨same, least⟩ |
        ⟨member, ready, less, least⟩
      · refine .inl ⟨same, List.forall_mem_cons.mpr ⟨?_, least⟩⟩
        intro runnable
        exact not_lt.mp fun under => larger ⟨runnable, under⟩
      · refine .inr ⟨List.mem_cons_of_mem _ member, ready, less, ?_⟩
        refine List.forall_mem_cons.mpr ⟨fun runnable => ?_, least⟩
        exact .inl (less.trans_le (not_lt.mp fun under =>
          larger ⟨runnable, under⟩))

/-- A process of the smallest priority is dispatched when it is come upon. -/
theorem highP_of_minimal {slot : Slot} (minimal : Minimal table slot) :
    highP table (List.finRange nproc) slot = slot := by
  rcases highP_cases table slot sorted_finRange with ⟨same, -⟩ | ⟨-, ready, less, -⟩
  · exact same
  · exact absurd (minimal.2 _ ready) (not_le.mpr less)

/-- Otherwise the first process of the smallest priority is. -/
theorem highP_le_of_minimal {slot other : Slot} (runnable : (table slot).state = .runnable)
    (notMinimal : ¬ Minimal table slot) (minimal : Minimal table other) :
    highP table (List.finRange nproc) slot ≤ other := by
  rcases highP_cases table slot sorted_finRange with ⟨-, least⟩ | ⟨-, ready, -, least⟩
  · exact absurd ⟨runnable, fun other => least other (List.mem_finRange other)⟩ notMinimal
  · rcases least other (List.mem_finRange other) minimal.1 with under | equal
    · exact absurd (minimal.2 _ ready) (not_le.mpr under)
    · exact equal.2

end Choice

section Turns

variable {scheduler next : Scheduler} {x y slot : Slot} {turn : Turn}

theorem scan_spec (found : scheduler.scan = some slot) : scheduler.position ≤ slot.val ∧
      (scheduler.table slot).state = .runnable :=
  of_decide_eq_true (first_eq_some found)

/-- The outer loop does not pass a process that is runnable. -/
theorem scan_le (found : scheduler.scan = some slot)
    (runnable : (scheduler.table y).state = .runnable)
    (ahead : scheduler.position ≤ y.val) : slot ≤ y :=
  first_le found (decide_eq_true ⟨ahead, runnable⟩)

theorem scan_ne_none (runnable : (scheduler.table y).state = .runnable)
    (ahead : scheduler.position ≤ y.val) : scheduler.scan ≠ none := by
  intro none
  exact of_decide_eq_false (first_eq_none.mp none y) ⟨ahead, runnable⟩

/-- The outer loop is in front of `y` and does not pass it without
dispatching it. -/
theorem chosen_of_ahead (minimal : Minimal scheduler.table y)
    (orderly : Orderly scheduler) (ahead : scheduler.position ≤ y.val)
    (other : scheduler.chosen ≠ some y) :
    ∃ slot, scheduler.chosen = some slot ∧ scheduler.position ≤ slot.val ∧ slot < y := by
  obtain ⟨slot, found⟩ := Option.ne_none_iff_exists'.mp (scan_ne_none minimal.1 ahead)
  have before := scan_le found minimal.1 ahead
  have least : Minimal scheduler.table slot := by
    by_contra larger
    rcases before.lt_or_eq with less | same
    · exact orderly slot found larger y less minimal
    · exact larger (same ▸ minimal)
  have same : scheduler.chosen = some slot := by
    rw [Scheduler.chosen, found, Option.map_some, highP_of_minimal least]
  refine ⟨slot, same, (scan_spec found).1, lt_of_le_of_ne before ?_⟩
  rintro rfl
  exact other same

/-- The outer loop is behind `y`: it goes on behind, or starts again in front
of `y`. -/
theorem chosen_of_behind (minimal : Minimal scheduler.table y)
    (found : scheduler.chosen = some slot) : scheduler.position ≤ slot.val ∨ slot ≤ y := by
  obtain ⟨upon, here, rfl⟩ := Option.map_eq_some_iff.mp found
  obtain ⟨reached, runnable⟩ := scan_spec here
  by_cases least : Minimal scheduler.table upon
  · rw [highP_of_minimal least]
    exact .inl reached
  · exact .inr (highP_le_of_minimal runnable least minimal)

/-- Where the outer loop is after `x` was dispatched, while `y` was not. -/
def Between (x y : Slot) (position : Nat) : Prop :=
  x.val < position ∧ position ≤ y.val ∨ y < x ∧ (x.val < position ∨ position ≤ y.val)

section

variable (between : Between x y scheduler.position) (minimal : Minimal scheduler.table y)
  (orderly : Orderly scheduler)
include between minimal orderly

/-- `x` is not dispatched again before `y`. -/
theorem Between.chosen_ne (other : scheduler.chosen ≠ some y) : scheduler.chosen ≠ some x := by
  intro again
  rcases between with ⟨passed, ahead⟩ | ⟨before, passed | ahead⟩
  · obtain ⟨slot, same, reached, -⟩ := chosen_of_ahead minimal orderly ahead other
    cases same.symm.trans again
    omega
  · rcases chosen_of_behind minimal again with reached | start
    · omega
    · exact absurd start (not_le.mpr before)
  · obtain ⟨slot, same, -, less⟩ := chosen_of_ahead minimal orderly ahead other
    cases same.symm.trans again
    exact absurd less (not_lt.mpr before.le)

/-- A turn in which `y` is not dispatched. -/
theorem Between.step (other : ¬ Dispatches scheduler y turn)
    (taken : scheduler.step turn = some next) : Between x y next.position := by
  cases turn with
  | sweep after =>
    simp only [Scheduler.step] at taken
    split at taken
    case h_1 => cases taken
    case h_2 none =>
      obtain ⟨-, ⟨⟩⟩ := Option.ite_none_right_eq_some.mp taken
      rcases between with ⟨-, ahead⟩ | ⟨before, -⟩
      · exact absurd none (scan_ne_none minimal.1 ahead)
      · exact .inr ⟨before, .inr (Nat.zero_le _)⟩
  | dispatch after =>
    simp only [Scheduler.step] at taken
    split at taken
    case h_1 => cases taken
    case h_2 slot found =>
      obtain ⟨-, ⟨⟩⟩ := Option.ite_none_right_eq_some.mp taken
      rcases between with ⟨passed, ahead⟩ | ⟨before, passed | ahead⟩
      · obtain ⟨slot, same, reached, less⟩ := chosen_of_ahead minimal orderly ahead other
        cases same.symm.trans found
        exact .inl ⟨by simp only; omega, less⟩
      · refine .inr ⟨before, ?_⟩
        rcases chosen_of_behind minimal found with reached | start
        · exact .inl (by simp only; omega)
        · refine .inr (lt_of_le_of_ne start ?_)
          rintro rfl
          exact other found
      · obtain ⟨slot, same, -, less⟩ := chosen_of_ahead minimal orderly ahead other
        cases same.symm.trans found
        exact .inr ⟨before, .inr less⟩

end

/-- After a turn that dispatches `x` the outer loop is right behind it. -/
theorem Between.start (apart : x ≠ y) (dispatched : scheduler.chosen = some x)
    (taken : scheduler.step (.dispatch after) = some next) : Between x y next.position := by
  simp only [Scheduler.step, dispatched] at taken
  obtain ⟨-, ⟨⟩⟩ := Option.ite_none_right_eq_some.mp taken
  rcases lt_or_gt_of_ne apart with before | behind
  · exact .inl ⟨Nat.lt_succ_self _, before⟩
  · exact .inr ⟨behind, .inl (Nat.lt_succ_self _)⟩

end Turns

/-- Along every run of the scheduler, a process `x` is not dispatched twice
while another process `y`, runnable and like `x` of the smallest priority
throughout, is not dispatched in between, provided that the outer loop never
comes upon a process of another priority in front of one of the smallest. -/
theorem takesTurns_of_run {x y : Slot} {scheduler second : Scheduler} {after : Table}
    {turns : List Turn} (apart : x ≠ y) (dispatched : scheduler.chosen = some x)
    (ended : run Scheduler.step scheduler (.dispatch after :: turns) = some second)
    (again : second.chosen = some x)
    (minimal : Along Scheduler.step (fun scheduler _ => Minimal scheduler.table x ∧
        Minimal scheduler.table y)
      scheduler (.dispatch after :: turns))
    (minimalAgain : Minimal second.table x ∧ Minimal second.table y)
    (orderly : Along Scheduler.step (fun scheduler _ => Orderly scheduler)
      scheduler (.dispatch after :: turns))
    (orderlyAgain : Orderly second) :
    ¬ Along Scheduler.step (fun scheduler turn => ¬ Dispatches scheduler y turn)
      scheduler (.dispatch after :: turns) := by
  intro passed
  obtain ⟨next, taken, rest⟩ := run_cons ended
  have between : Between x y second.position := by
    refine run_invariant_along (fun scheduler => Between x y scheduler.position)
      ?_ (Between.start apart dispatched taken)
      (((minimal.tail taken).and (orderly.tail taken)).and (passed.tail taken)) rest
    intro scheduler turn later invariant allowed moved
    exact invariant.step allowed.1.1.2 allowed.1.2 allowed.2 moved
  refine between.chosen_ne minimalAgain.2 orderlyAgain ?_ again
  rw [again]
  exact fun same => apart (Option.some.inj same)

/-- A table in which the listed entries are runnable, with their
priorities. -/
def runnableTable (priorities : List (Slot × Int)) : Table := fun slot =>
  match priorities.lookup slot with
  | some priority => { Proc.zero with state := .runnable, priority := priority }
  | none => Proc.zero

/-- Entries 0 and 2 have the smallest priority, and entry 3 behind them has a
larger one. -/
def fairTable : Table := runnableTable [(0, 0), (2, 0), (3, 5)]

theorem step_fairTable : Scheduler.step ⟨fairTable, 0⟩ (.dispatch fairTable) = some ⟨fairTable, 1⟩ ∧
      Scheduler.step ⟨fairTable, 1⟩ (.dispatch fairTable) = some ⟨fairTable, 3⟩ :=
  ⟨step_dispatch 0 (by decide +kernel) (fun _ => rfl) (by decide +kernel),
    step_dispatch 2 (by decide +kernel) (fun _ => rfl)
    (by decide +kernel)⟩

theorem takesTurns_fairTable : ¬ Along Scheduler.step
      (fun scheduler turn => ¬ Dispatches scheduler 2 turn)
      ⟨fairTable, 0⟩ [.dispatch fairTable, .dispatch fairTable] := by
  have ended : run Scheduler.step ⟨fairTable, 0⟩ [.dispatch fairTable, .dispatch fairTable] =
        some ⟨fairTable, 3⟩ := by
    simp only [run, step_fairTable.1, step_fairTable.2]
  exact takesTurns_of_run (x := 0) (by decide) (by decide +kernel) ended
    (by decide +kernel) (by decide +kernel) (by decide +kernel)
    (by decide +kernel) (by decide +kernel)

/-- Entries 0 and 2 have the smallest priority, and entry 1 between them has a
larger one. -/
def unfairTable : Table := runnableTable [(0, 0), (1, 5), (2, 0)]

/-- The outer loop comes upon entry 1 each time, and each time the inner loop
puts entry 0 in its place. -/
theorem step_unfairTable (position : Nat) (early : position ≤ 1) :
    Scheduler.chosen ⟨unfairTable, position⟩ = some 0 ∧
      Scheduler.step ⟨unfairTable, position⟩ (.dispatch unfairTable) = some ⟨unfairTable, 1⟩ := by
  have found : Scheduler.chosen ⟨unfairTable, position⟩ = some 0 := by
    rcases Nat.le_one_iff_eq_zero_or_eq_one.mp early with rfl | rfl <;> decide +kernel
  exact ⟨found, step_dispatch 0 found (fun _ => rfl) (by decide +kernel)⟩

theorem run_unfairTable (position : Nat) (early : position ≤ 1) (count : Nat) :
    ∃ last, last ≤ 1 ∧ run Scheduler.step ⟨unfairTable, position⟩
        (List.replicate count (.dispatch unfairTable)) = some ⟨unfairTable, last⟩ ∧
      Along Scheduler.step (fun scheduler turn => ¬ Dispatches scheduler 2 turn)
        ⟨unfairTable, position⟩
        (List.replicate count (.dispatch unfairTable)) := by
  induction count generalizing position with
  | zero => exact ⟨position, early, rfl, trivial⟩
  | succ count ih =>
    obtain ⟨found, taken⟩ := step_unfairTable position early
    obtain ⟨last, bound, ended, passed⟩ := ih 1 le_rfl
    refine ⟨last, bound, ?_, ?_, ?_⟩
    · simpa only [List.replicate_succ, run, taken] using ended
    · simp only [Dispatches, found]
      decide
    · simpa only [taken] using passed

/-- Entry 0 is dispatched any number of times, and entry 2, of the same
priority and runnable throughout, never. -/
theorem starves_unfairTable : Minimal unfairTable 0 ∧ Minimal unfairTable 2 ∧
      ∀ count, ∃ last, run Scheduler.step ⟨unfairTable, 0⟩
          (List.replicate count (.dispatch unfairTable)) = some ⟨unfairTable, last⟩ ∧
        Scheduler.chosen ⟨unfairTable, last⟩ = some 0 ∧
        Along Scheduler.step (fun scheduler turn => ¬ Dispatches scheduler 2 turn) ⟨unfairTable, 0⟩
          (List.replicate count (.dispatch unfairTable)) := by
  refine ⟨by decide +kernel, by decide +kernel, fun count => ?_⟩
  obtain ⟨last, bound, ended, passed⟩ := run_unfairTable 0 (Nat.zero_le 1) count
  exact ⟨last, ended, (step_unfairTable last bound).1, passed⟩

end Xv6.Process
