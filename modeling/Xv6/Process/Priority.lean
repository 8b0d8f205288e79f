import Xv6.Process.RoundRobin
import Xv6.Process.Transitions

/-!
# Priorities

What `scheduler` makes of the priorities of a process table, and the two
functions that change them: `nice`, which the system call uses, and
`proc_nice`, which nothing calls.
-/

namespace Xv6.Process

open Function (update update_eq_self update_self)
open Foundation.Transition (run)

variable {table : Table}

section Dispatch

variable {Cpu : Type} [DecidableEq Cpu] {system : System Cpu} {cpu : Cpu} {slot : Slot}

/-- The inner loop finds a process of the smallest priority. -/
theorem minimal_highP (runnable : (table slot).state = .runnable) :
    Minimal table (highP table (List.finRange nproc) slot) := by
  rcases highP_cases table slot sorted_finRange with ⟨same, least⟩ | ⟨-, ready, -, least⟩
  · rw [same]
    exact ⟨runnable, fun other => least other (List.mem_finRange other)⟩
  · refine ⟨ready, fun other ready' => ?_⟩
    rcases least other (List.mem_finRange other) ready' with under | equal
    · exact under.le
    · exact equal.1.le

theorem scanStep_runnable (runnable : (system.table slot).state = .runnable) :
    system.scanStep cpu slot.val =
      { system.setProc (highP system.table (List.finRange nproc) slot)
          { system.table (highP system.table (List.finRange nproc) slot) with
            state := .running } with
        core := update system.core cpu (.resuming (highP system.table (List.finRange nproc) slot))
        proc := update system.proc cpu
          (some (highP system.table (List.finRange nproc) slot)) } := by
  unfold System.scanStep
  rw [dif_pos slot.isLt, if_pos runnable]

theorem scanStep_passes (other : (system.table slot).state ≠ .runnable) :
    system.scanStep cpu slot.val =
      { system with
        core := update system.core cpu (.scanning (slot.val + 1)) } := by
  unfold System.scanStep
  rw [dif_pos slot.isLt, if_neg other]

variable {index : Nat}

theorem step_scan (scanning : system.core cpu = .scanning index) :
    system.step (.scan cpu) = some (system.scanStep cpu index) := by
  simp only [System.step, scanning]

theorem run_scan {count : Nat} {after : System Cpu} (scanning : system.core cpu = .scanning index)
    (later : run System.step (system.scanStep cpu index)
      (List.replicate count (.scan cpu)) = some after) :
    run System.step system (List.replicate (count + 1) (.scan cpu)) = some after := by
  rw [List.replicate_succ, run, step_scan scanning]
  exact later

/-- The outer loop dispatches a process. -/
def Dispatched (system : System Cpu) (cpu : Cpu) : Prop :=
  ∃ count after best, run System.step system (List.replicate count (.scan cpu)) = some after ∧
      after.core cpu = .resuming best

theorem dispatched_of_runnable (scanning : system.core cpu = .scanning slot.val)
    (runnable : (system.table slot).state = .runnable) : Dispatched system cpu := by
  refine ⟨1, system.scanStep cpu slot.val,
    highP system.table (List.finRange nproc) slot, run_scan scanning rfl, ?_⟩
  rw [scanStep_runnable runnable]
  exact update_self ..

/-- The outer loop dispatches a process if it has not passed every one that is
runnable. -/
theorem dispatched_of_ahead (distance : Nat) (scanning : system.core cpu = .scanning index)
    (ahead : index + distance = slot.val)
    (runnable : (system.table slot).state = .runnable) : Dispatched system cpu := by
  induction distance generalizing system index with
  | zero =>
    obtain rfl : index = slot.val := ahead
    exact dispatched_of_runnable scanning runnable
  | succ distance ih =>
    obtain ⟨here, rfl⟩ : ∃ here : Slot, here.val = index := ⟨⟨index, by omega⟩, rfl⟩
    by_cases ready : (system.table here).state = .runnable
    · exact dispatched_of_runnable scanning ready
    · have passes := @scanStep_passes _ _ system cpu _ ready
      obtain ⟨count, after, best, ended, resumes⟩ :=
        @ih (system.scanStep cpu here.val) (here.val + 1)
          (by rw [passes]; exact update_self ..)
          (by omega) (by rw [passes]; exact runnable)
      exact ⟨count + 1, after, best, run_scan scanning ended, resumes⟩

/-- When the outer loop comes upon a runnable entry, it makes one entry
`RUNNING` and changes no other.  The entry was runnable and none that was has a
smaller priority; it is the one come upon if that has the smallest priority, and
otherwise the first one of the smallest priority.  From the start of the table
the loop dispatches some process if there is one that is runnable. -/
theorem scan_dispatches_best (system : System Cpu) (cpu : Cpu) :
    (∀ slot : Slot, system.core cpu = .scanning slot.val → (system.table slot).state = .runnable →
      ∃ after best, system.step (.scan cpu) = some after ∧ after.core cpu = .resuming best ∧
        after.table best = { system.table best with state := .running } ∧
        (∀ other, other ≠ best → after.table other = system.table other) ∧
        (system.table best).state = .runnable ∧
        (∀ other, (system.table other).state = .runnable →
          (system.table best).priority ≤ (system.table other).priority) ∧
        (Minimal system.table slot → best = slot) ∧
        (¬ Minimal system.table slot → ∀ other, Minimal system.table other → best ≤ other)) ∧
      (system.core cpu = .scanning 0 → (∃ slot, (system.table slot).state = .runnable) →
        Dispatched system cpu) := by
  constructor
  · intro slot scanning runnable
    have least := minimal_highP runnable
    refine ⟨_, highP system.table (List.finRange nproc) slot,
      step_scan scanning, ?_, ?_, ?_, least.1, least.2, highP_of_minimal, ?_⟩
    · rw [scanStep_runnable runnable]
      exact update_self ..
    · rw [scanStep_runnable runnable]
      exact set_self _
    · intro other apart
      rw [scanStep_runnable runnable]
      exact set_of_ne apart
    · intro notMinimal other minimal
      exact highP_le_of_minimal runnable notMinimal minimal
  · rintro scanning ⟨slot, runnable⟩
    exact dispatched_of_ahead slot.val scanning (Nat.zero_add _) runnable

/-- The first pass over the table dispatches the first process. -/
theorem scan_dispatches_best_booted : ∃ system : System (Fin 1),
      run System.step booted [.acquire 0] = some system ∧
        ∃ after best, system.step (.scan 0) = some after ∧ after.core 0 = .resuming best ∧
          (after.table best).state = .running := by
  have seen : (run System.step (booted : System (Fin 1)) [.acquire 0]).map
      (fun system => (system.core 0, (system.table 0).state)) = some (.scanning 0, .runnable) := by
    decide +kernel
  obtain ⟨system, ended, same⟩ := Option.map_eq_some_iff.mp seen
  obtain ⟨after, best, taken, resumes, entry, -⟩ :=
    (scan_dispatches_best system 0).1 0 (congrArg Prod.fst same) (congrArg Prod.snd same)
  refine ⟨system, ended, after, best, taken, resumes, ?_⟩
  rw [entry]

end Dispatch

section Nice

variable {pid : BitVec 32} {prio : Int}

/-- `nice`: its result and the table it leaves. -/
def niceResult (table : Table) (pid : BitVec 32) (prio : Int) : Int × Table :=
  (pid.toInt, nice table pid prio)

/-- The loop of `proc_nice`. -/
def procNiceLoop (pid : BitVec 32) (desiredPrio : Int) : List Slot → Int → Table → Int × Table
  | [], status, table => (status, table)
  | slot :: slots, status, table =>
    if 0 > status then
      if (table slot).state ≠ .unused ∧ (table slot).pid = pid then
        procNiceLoop pid desiredPrio slots (table slot).priority
          (table.set slot { table slot with priority := desiredPrio })
      else procNiceLoop pid desiredPrio slots status table
    else (status, table)

/-- `proc_nice`: its result and the table it leaves. -/
def procNice (table : Table) (pid : BitVec 32) (desiredPrio : Int) : Int × Table :=
  procNiceLoop pid desiredPrio (List.finRange nproc) 0 table

/-- The loop of `proc_nice` ends before its first entry: `status` starts as 0,
and the loop goes on only while it is negative. -/
theorem procNice_eq (table : Table) (pid : BitVec 32) (prio : Int) :
    procNice table pid prio = (0, table) := by
  unfold procNice
  cases List.finRange nproc with
  | nil => rfl
  | cons slot slots => exact if_neg (lt_irrefl 0)

/-- `nice` returns the old priority of the process and changes only its
priority, changes nothing when there is no such process, and `proc_nice` does
the same. -/
structure ChangesPriority (table : Table) (pid : BitVec 32) (prio : Int) :
    Prop where
  found : ∀ slot, (table slot).state ≠ .unused → (table slot).pid = pid →
    niceResult table pid prio =
      ((table slot).priority, table.set slot { table slot with priority := prio })
  absent : (∀ slot, (table slot).state ≠ .unused → (table slot).pid ≠ pid) →
    (niceResult table pid prio).2 = table
  agree : procNice table pid prio = niceResult table pid prio

theorem set_priority_eq_iff {slot : Slot} :
    table.set slot { table slot with priority := prio } = table ↔ (table slot).priority = prio := by
  constructor
  · intro same
    have entry := congrArg Proc.priority (congrFun same slot)
    rw [set_self] at entry
    exact entry.symm
  · rintro rfl
    exact update_eq_self ..

theorem nice_eq_self_iff : nice table pid prio = table ↔
      ∀ slot, first (fun slot => (table slot).pid = pid) = some slot →
        (table slot).priority = prio := by
  unfold nice
  cases first fun slot => (table slot).pid = pid with
  | none => exact ⟨fun _ _ found => (by cases found), fun _ => rfl⟩
  | some slot =>
    rw [set_priority_eq_iff]
    constructor
    · rintro same _ ⟨⟩
      exact same
    · intro all
      exact all slot rfl

/-- Only for pid 0 do `nice` and `proc_nice` return the same. -/
theorem ChangesPriority.pid_eq_zero (changes : ChangesPriority table pid prio) : pid = 0 := by
  have agree := changes.agree
  rw [procNice_eq] at agree
  have zero : pid.toInt = 0 := (congrArg Prod.fst agree).symm
  exact BitVec.toInt_inj.mp zero

/-- `nice` returns the pid it was given, and `proc_nice` returns 0 and does
nothing: they do what they should only for pid 0, when the first entry with
that pid has the new priority already and every process that has it has
priority 0. -/
theorem changesPriority_iff (table : Table) (pid : BitVec 32) (prio : Int) :
    ChangesPriority table pid prio ↔ pid = 0 ∧
        (∀ slot, first (fun slot => (table slot).pid = pid) = some slot →
          (table slot).priority = prio) ∧
        ∀ slot, (table slot).state ≠ .unused → (table slot).pid = pid →
          (table slot).priority = 0 ∧ prio = 0 := by
  constructor
  · intro changes
    have agree := changes.agree
    rw [procNice_eq] at agree
    have same : nice table pid prio = table := (congrArg Prod.snd agree).symm
    refine ⟨changes.pid_eq_zero, nice_eq_self_iff.mp same, ?_⟩
    intro slot used here
    have result := changes.found slot used here
    rw [← agree] at result
    have old : (table slot).priority = 0 := (congrArg Prod.fst result).symm
    have unchanged := set_priority_eq_iff.mp (congrArg Prod.snd result).symm
    exact ⟨old, unchanged.symm.trans old⟩
  · rintro ⟨rfl, first, used⟩
    have same : nice table 0 prio = table := nice_eq_self_iff.mpr first
    have result : niceResult table 0 prio = (0, table) := by
      unfold niceResult
      rw [same]
      rfl
    refine ⟨fun slot live here => ?_, fun _ => same, ?_⟩
    · obtain ⟨old, new⟩ := used slot live here
      rw [result, set_priority_eq_iff.mpr (old.trans new.symm), old]
    · rw [procNice_eq, result]

/-- The first process asks for its own priority, as `testnice` does. -/
def askingRun : List (Action (Fin 1)) :=
  [.acquire 0, .scan 0, .resume 0]

/-- The first process has pid 1 and priority 0, and `nice(1, 42)` returns 1. -/
theorem not_changesPriority_askingRun : ∃ final : System (Fin 1),
      run System.step booted askingRun = some final ∧
        (final.table 0).state = .running ∧ (final.table 0).pid = 1 ∧
        (final.table 0).priority = 0 ∧
        (niceResult final.table 1 42).1 = 1 ∧
        (procNice final.table 1 42).1 = 0 ∧
        ¬ ChangesPriority final.table 1 42 := by
  have seen : (run System.step (booted : System (Fin 1)) askingRun).map
      (fun final => ((final.table 0).state, (final.table 0).pid,
        (final.table 0).priority)) = some (.running, 1, 0) := by
    decide +kernel
  obtain ⟨final, ended, same⟩ := Option.map_eq_some_iff.mp seen
  obtain ⟨state, pid, priority⟩ : (final.table 0).state = .running ∧ (final.table 0).pid = 1 ∧
        (final.table 0).priority = 0 := by
    simpa using same
  refine ⟨final, ended, state, pid, priority, (by decide : (1 : BitVec 32).toInt = 1),
    congrArg Prod.fst (procNice_eq ..), ?_⟩
  intro changes
  exact absurd changes.pid_eq_zero (by decide)

end Nice

end Xv6.Process
