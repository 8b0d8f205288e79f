import Xv6.Foundation.Transition
import Xv6.Process.Table

/-!
# Which processes `kill` finds

Sequences of `fork`, `exec`, `exit`, `wait` and `kill` on one CPU.  `kill`
compares `pid` only, so it can find an entry that is not in use.
-/

namespace Xv6.Process

open Foundation.Transition (run Along run_invariant_along)

/-- The process table with the process that runs. -/
structure Machine where
  table : Table
  /-- `nextpid`. -/
  nextpid : BitVec 32
  /-- `initproc`. -/
  initproc : Slot
  /-- The process that runs. -/
  cur : Slot
  /-- The process sleeps in `wait`, or was awakened there. -/
  waiting : Slot → Bool

/-- The memory that a `fork` finds. -/
structure ForkMemory where
  /-- `kalloc` has a page for the kernel stack. -/
  kstack : Bool
  /-- `copyuvm` succeeds. -/
  pgdir : Bool

/-- A call of the process that runs, or the scheduler's choice of another. -/
inductive Call
  | fork (memory : ForkMemory)
  | exec
  | exit
  | wait
  | kill (pid : BitVec 32)
  | schedule (next : Slot)

/-- The machine after `userinit`, with the first process running. -/
def bootMachine : Machine where
  table := Table.set (fun _ => Proc.zero) 0
    { Proc.zero with state := .running, pid := 1 }
  nextpid := 2
  initproc := 0
  cur := 0
  waiting := fun _ => false

namespace Machine

/-- Change the table. -/
def setTable (machine : Machine) (table : Table) : Machine :=
  { machine with table := table }

/-- The entry that `allocproc` has found, once it failed for lack of memory
or `fork` did. -/
def forkFailed (machine : Machine) (slot : Slot) : Machine :=
  let table := machine.table.embryo slot machine.nextpid
  { machine with
    table := table.set slot { table slot with state := .unused }
    nextpid := machine.nextpid + 1 }

/-- The child that `fork` has made. -/
def forked (machine : Machine) (slot : Slot) : Machine :=
  let table := machine.table.embryo slot machine.nextpid
  { machine with
    table := table.set slot { table slot with
      parent := some machine.cur, state := .runnable, priority := 0 }
    nextpid := machine.nextpid + 1 }

/-- `fork`. -/
def fork (machine : Machine) (memory : ForkMemory) : Machine :=
  match allocproc machine.table with
  | none => machine
  | some slot =>
    -- the kernel stack is allocated by allocproc, the pages by copyuvm
    if memory.kstack = false then machine.forkFailed slot
    else if memory.pgdir = false then machine.forkFailed slot
    else machine.forked slot

/-- `wait`, up to its return or its sleep. -/
def wait (machine : Machine) : Machine :=
  match zombieChild machine.table machine.cur with
  | some slot =>
    { machine with
      table := machine.table.set slot (machine.table slot).reap
      waiting := Function.update machine.waiting machine.cur false }
  | none =>
    let proc := machine.table machine.cur
    if ¬ havekids machine.table machine.cur ∨ proc.killed = true then
      { machine with
        waiting := Function.update machine.waiting machine.cur false }
    else
      { machine with
        table := machine.table.set machine.cur (proc.sleep (.proc machine.cur))
        waiting := Function.update machine.waiting machine.cur true }

/-- The scheduler lets another process run.  The process that ran becomes
runnable if it did not end or go to sleep; a process that slept tidies up. -/
def schedule (machine : Machine) (next : Slot) : Machine :=
  let proc := machine.table machine.cur
  let table := machine.table.set machine.cur
    { proc with state := if proc.state = .running then .runnable else proc.state }
  { machine with
    table := table.set next { table next with state := .running, chan := none }
    cur := next }

/-- The process that runs makes a call. -/
def step (machine : Machine) : Call → Option Machine
  | .schedule next =>
    if (machine.table next).state = .runnable ∨ next = machine.cur ∧
        (machine.table next).state = .running then
      some (machine.schedule next)
    else none
  | .wait =>
    if (machine.table machine.cur).state = .running then some machine.wait
    else none
  | call =>
    if (machine.table machine.cur).state = .running ∧
        machine.waiting machine.cur = false then
      match call with
      | .fork memory => some (machine.fork memory)
      | .exit =>
        if machine.cur = machine.initproc then none
        else some (machine.setTable (exitTable machine.table machine.cur machine.initproc))
      | .kill pid => some (machine.setTable (Process.kill machine.table pid).2)
      | .exec =>
        some (machine.setTable (machine.table.set machine.cur
          { machine.table machine.cur with priority := 0 }))
      | _ => none
    else none

end Machine

/-- The entries that are not in use have not been killed. -/
def Clean (table : Table) : Prop :=
  ∀ slot, (table slot).state = .unused → (table slot).killed = false

/-- A process that is in use has the pid. -/
def HasPid (table : Table) (pid : BitVec 32) : Prop :=
  ∃ slot, (table slot).state ≠ .unused ∧ (table slot).pid = pid

instance (table : Table) (pid : BitVec 32) : Decidable (HasPid table pid) :=
  inferInstanceAs (Decidable (∃ _, _ ∧ _))

/-- The first entry with the pid, if there is one, is in use. -/
def FindsUsed (table : Table) (pid : BitVec 32) : Prop :=
  ∀ slot, (first fun slot => (table slot).pid = pid) = some slot → (table slot).state ≠ .unused

instance (table : Table) (pid : BitVec 32) : Decidable (FindsUsed table pid) :=
  inferInstanceAs (Decidable (∀ _, _ → _))

/-- Calls of `kill` find entries in use. -/
def Careful (machine : Machine) : Call → Prop
  | .kill pid => FindsUsed machine.table pid
  | _ => True

instance (machine : Machine) (call : Call) : Decidable (Careful machine call) := by
  cases call <;> unfold Careful <;> infer_instance

variable {slot : Slot}

section Clean

variable {table : Table} {pid : BitVec 32}

theorem Clean.set {proc : Proc} (clean : Clean table)
    (right : proc.state = .unused → proc.killed = false) : Clean (table.set slot proc) := by
  intro other unused
  by_cases here : other = slot
  · subst here
    rw [set_self] at unused ⊢
    exact right unused
  · rw [set_of_ne here] at unused ⊢
    exact clean other unused

/-- No entry is killed, spared or taken out of use. -/
def Calm (table next : Table) : Prop :=
  ∀ slot, (next slot).killed = (table slot).killed ∧
    ((next slot).state = .unused → (table slot).state = .unused)

theorem Calm.refl (table : Table) : Calm table table :=
  fun _ => ⟨rfl, id⟩

theorem Calm.trans {middle next : Table} (first : Calm table middle) (second : Calm middle next) :
    Calm table next := fun slot =>
  ⟨(second slot).1.trans (first slot).1, fun unused => (first slot).2 ((second slot).2 unused)⟩

theorem Calm.clean {next : Table} (calm : Calm table next) (clean : Clean table) :
    Clean next := fun slot unused =>
  (calm slot).1.trans (clean slot ((calm slot).2 unused))

theorem Calm.set {proc : Proc} (killed : proc.killed = (table slot).killed)
    (used : proc.state = .unused → (table slot).state = .unused) :
    Calm table (table.set slot proc) := by
  intro other
  by_cases here : other = slot
  · subst here
    rw [set_self]
    exact ⟨killed, used⟩
  · rw [set_of_ne here]
    exact ⟨rfl, id⟩

theorem Calm.wakeup1 (table : Table) (chan : Chan) : Calm table (wakeup1 table chan) := by
  intro slot
  rcases wakeup1_apply table chan slot with same | ⟨-, -, woken⟩
  · rw [same]
    exact ⟨rfl, id⟩
  · rw [woken]
    exact ⟨rfl, nofun⟩

theorem Calm.reparent (curproc initproc : Slot) (slots : List Slot) (table : Table) :
    Calm table (reparent curproc initproc slots table) := by
  induction slots generalizing table with
  | nil => exact .refl table
  | cons slot slots ih =>
    have moved : Calm table (table.set slot
        { table slot with parent := some initproc }) := .set rfl id
    unfold Process.reparent
    split
    · dsimp only
      split
      · exact (moved.trans (.wakeup1 _ _)).trans (ih _)
      · exact moved.trans (ih _)
    · exact ih table

theorem Calm.exitTable (table : Table) (curproc initproc : Slot) :
    Calm table (exitTable table curproc initproc) := by
  have woken : Calm table (wakeupParent table (table curproc).parent) := by
    cases (table curproc).parent with
    | none => exact .refl table
    | some parent => exact .wakeup1 _ _
  exact (woken.trans (.reparent _ _ _ _)).trans (.set rfl nofun)

/-- `kill` finds an entry or leaves the table alone. -/
theorem kill_cases (table : Table) (pid : BitVec 32) :
    (∃ slot, (first fun slot => (table slot).pid = pid) = some slot ∧ (table slot).pid = pid ∧
      kill table pid = (0, table.set slot (table slot).kill)) ∨
    (∀ slot, (table slot).pid ≠ pid) ∧ kill table pid = (-1, table) := by
  unfold kill
  cases found : first fun slot => decide ((table slot).pid = pid) with
  | none =>
    refine .inr ⟨fun slot => ?_, rfl⟩
    exact of_decide_eq_false (first_eq_none.mp found slot)
  | some slot => exact .inl ⟨slot, rfl, of_decide_eq_true (first_eq_some found), rfl⟩

theorem Clean.kill (clean : Clean table) (used : FindsUsed table pid) :
    Clean (kill table pid).2 := by
  rcases kill_cases table pid with ⟨slot, found, -, result⟩ | ⟨-, result⟩
  · rw [result]
    refine clean.set fun unused => ?_
    have before := used slot found
    unfold Proc.kill at unused
    dsimp only at unused
    split at unused
    · cases unused
    · exact absurd unused before
  · rw [result]
    exact clean

/-- `kill` finds a process in use if the first entry with the pid is. -/
theorem kill_eq_zero_iff (used : FindsUsed table pid) :
    (kill table pid).1 = 0 ↔ HasPid table pid := by
  rcases kill_cases table pid with ⟨slot, found, named, result⟩ | ⟨none, result⟩
  · rw [result]
    exact iff_of_true rfl ⟨slot, used slot found, named⟩
  · rw [result]
    exact iff_of_false (by simp) fun ⟨slot, _, named⟩ => none slot named

/-- A call of `kill` that returns -1 changes nothing. -/
theorem kill_failed (failed : (kill table pid).1 = -1) : (kill table pid).2 = table := by
  rcases kill_cases table pid with ⟨slot, -, -, result⟩ | ⟨-, result⟩
  · rw [result] at failed
    cases failed
  · rw [result]

/-- `kill` leaves the entries that are not in use alone exactly if the first
entry with the pid is in use. -/
theorem clean_kill_iff (clean : Clean table) : Clean (kill table pid).2 ↔ FindsUsed table pid := by
  refine ⟨fun after slot found unused => ?_, clean.kill⟩
  have result : kill table pid = (0, table.set slot (table slot).kill) := by
    unfold kill
    rw [found]
  have killed := after slot
  simp only [result, set_self] at killed
  have still : (table slot).kill.state = .unused := by
    unfold Proc.kill
    rw [unused]
    rfl
  cases killed still

end Clean

section Step

variable {machine next : Machine} {call : Call}

theorem allocproc_unused {table : Table} (found : allocproc table = some slot) :
    (table slot).state = .unused :=
  of_decide_eq_true (first_eq_some found)

/-- `fork` changes an entry that is not in use, and not whether it was
killed. -/
theorem fork_calm (machine : Machine) (memory : ForkMemory) :
    Calm machine.table (machine.fork memory).table := by
  unfold Machine.fork
  cases found : allocproc machine.table with
  | none => exact .refl machine.table
  | some slot =>
    have unused := allocproc_unused found
    have failed : Calm machine.table (machine.forkFailed slot).table := by
      simp only [Machine.forkFailed, Table.embryo, set_self, set_set]
      exact .set rfl fun _ => unused
    have made : Calm machine.table (machine.forked slot).table := by
      simp only [Machine.forked, Table.embryo, set_self, set_set]
      exact .set rfl nofun
    dsimp only
    split
    · exact failed
    · split
      · exact failed
      · exact made

/-- `wait` spares the entry that it takes out of use. -/
theorem wait_cases (machine : Machine) : Calm machine.table machine.wait.table ∨
    ∃ slot, machine.wait.table = machine.table.set slot (machine.table slot).reap := by
  unfold Machine.wait
  cases zombieChild machine.table machine.cur with
  | some slot => exact .inr ⟨slot, rfl⟩
  | none =>
    dsimp only
    split
    · exact .inl (.refl machine.table)
    · exact .inl (.set rfl nofun)

theorem schedule_calm (machine : Machine) (chosen : Slot) :
    Calm machine.table (machine.schedule chosen).table := by
  have yielded : Calm machine.table (machine.table.set machine.cur
      { machine.table machine.cur with
        state := if (machine.table machine.cur).state = .running then .runnable
          else (machine.table machine.cur).state }) := by
    refine .set rfl ?_
    dsimp only
    split
    · nofun
    · exact id
  exact yielded.trans (.set rfl nofun)

/-- What a call does to the entries: it kills the one that `kill` finds, spares
the one that `wait` takes out of use, or does neither. -/
theorem step_cases (taken : machine.step call = some next) : Calm machine.table next.table ∨
    (∃ pid, call = .kill pid ∧ next.table = (kill machine.table pid).2) ∨
    ∃ slot, next.table = machine.table.set slot (machine.table slot).reap := by
  cases call with
  | schedule chosen =>
    simp only [Machine.step] at taken
    split at taken
    case isTrue =>
      cases taken
      exact .inl (schedule_calm machine chosen)
    case isFalse => cases taken
  | wait =>
    simp only [Machine.step] at taken
    split at taken
    case isTrue =>
      cases taken
      rcases wait_cases machine with calm | reaped
      · exact .inl calm
      · exact .inr (.inr reaped)
    case isFalse => cases taken
  | fork memory =>
    simp only [Machine.step] at taken
    split at taken
    case isTrue =>
      cases taken
      exact .inl (fork_calm machine memory)
    case isFalse => cases taken
  | exec =>
    simp only [Machine.step] at taken
    split at taken
    case isTrue =>
      cases taken
      exact .inl (.set rfl id)
    case isFalse => cases taken
  | exit =>
    simp only [Machine.step] at taken
    split at taken
    case isTrue =>
      split at taken
      case isTrue => cases taken
      case isFalse =>
        cases taken
        exact .inl (.exitTable _ _ _)
    case isFalse => cases taken
  | kill pid =>
    simp only [Machine.step] at taken
    split at taken
    case isTrue =>
      cases taken
      exact .inr (.inl ⟨pid, rfl, rfl⟩)
    case isFalse => cases taken

theorem step_clean (clean : Clean machine.table)
    (careful : Careful machine call) (taken : machine.step call = some next) :
    Clean next.table := by
  rcases step_cases taken with calm | ⟨pid, rfl, result⟩ | ⟨slot, result⟩
  · exact calm.clean clean
  · rw [result]
    exact clean.kill careful
  · rw [result]
    exact clean.set fun _ => rfl

/-- Only `kill` with its pid marks an entry as killed. -/
theorem step_killed (taken : machine.step call = some next)
    (spared : (machine.table slot).killed = false) (killed : (next.table slot).killed = true) :
    ∃ pid, call = .kill pid ∧ (machine.table slot).pid = pid := by
  rcases step_cases taken with calm | ⟨pid, rfl, result⟩ | ⟨reaped, result⟩
  · rw [(calm slot).1, spared] at killed
    cases killed
  · refine ⟨pid, rfl, ?_⟩
    rw [result] at killed
    rcases kill_cases machine.table pid with ⟨found, -, named, kills⟩ |
      ⟨-, kills⟩
    · by_cases here : slot = found
      · rw [here]
        exact named
      · rw [kills] at killed
        dsimp only at killed
        rw [set_of_ne here, spared] at killed
        cases killed
    · rw [kills] at killed
      dsimp only at killed
      rw [spared] at killed
      cases killed
  · rw [result] at killed
    by_cases here : slot = reaped
    · rw [here, set_self] at killed
      cases killed
    · rw [set_of_ne here, spared] at killed
      cases killed

/-- An entry that comes into use has not been killed. -/
theorem step_made (clean : Clean machine.table) (careful : Careful machine call)
    (taken : machine.step call = some next) (unused : (machine.table slot).state = .unused)
    (used : (next.table slot).state ≠ .unused) : (next.table slot).killed = false := by
  rcases step_cases taken with calm | ⟨pid, rfl, result⟩ | ⟨reaped, result⟩
  · exact (calm slot).1.trans (clean slot unused)
  · rcases kill_cases machine.table pid with ⟨found, here, -, kills⟩ |
      ⟨-, kills⟩
    · have apart : slot ≠ found := by
        rintro rfl
        exact careful slot here unused
      rw [result, kills] at used
      dsimp only at used
      rw [set_of_ne apart] at used
      exact absurd unused used
    · rw [result, kills] at used
      exact absurd unused used
  · rw [result] at used
    by_cases here : slot = reaped
    · rw [here, set_self] at used
      exact absurd rfl used
    · rw [set_of_ne here] at used
      exact absurd unused used

end Step

/-- In every run in which `kill` never comes upon an entry that is not in use,
such entries have not been killed.  Then `kill` finds exactly the processes in
use, changes nothing when it fails, and a process that is made has not been
killed and is not until its pid is named. -/
theorem killsUsed_of_run {final : Machine} {calls : List Call}
    (careful : Along Machine.step Careful bootMachine calls)
    (ended : run Machine.step bootMachine calls = some final) :
    Clean final.table ∧
    (∀ pid, FindsUsed final.table pid ↔ Clean (kill final.table pid).2) ∧
    (∀ pid, FindsUsed final.table pid → ((kill final.table pid).1 = 0 ↔ HasPid final.table pid)) ∧
    (∀ pid, (kill final.table pid).1 = -1 → (kill final.table pid).2 = final.table) ∧
    ∀ call next slot, final.step call = some next →
      ((final.table slot).state = .unused → Careful final call → (next.table slot).state ≠ .unused →
          (next.table slot).killed = false) ∧
      ((final.table slot).killed = false → (next.table slot).killed = true →
          call = .kill (final.table slot).pid) := by
  have initially : Clean bootMachine.table := by
    unfold bootMachine
    exact Clean.set (fun _ _ => rfl) nofun
  have clean := run_invariant_along (fun machine => Clean machine.table)
    (fun _ _ _ => step_clean) initially careful ended
  refine ⟨clean, fun pid => (clean_kill_iff clean).symm,
    fun pid => kill_eq_zero_iff, fun pid => kill_failed, ?_⟩
  intro call next slot taken
  refine ⟨fun unused allowed used => ?_, fun spared killed => ?_⟩
  · exact step_made clean allowed taken unused used
  · obtain ⟨pid, rfl, named⟩ := step_killed taken spared killed
    rw [named]

/-- The first process makes a child, kills it, and waits for it. -/
def killedChild : List Call :=
  [.fork ⟨true, true⟩, .kill 2, .schedule 1, .exit, .schedule 0, .wait]

theorem killsUsed_killedChild : ∃ final, run Machine.step bootMachine killedChild = some final ∧
      Clean final.table := by
  have careful : Along Machine.step Careful bootMachine killedChild := by
    decide +kernel
  have returns : (run Machine.step bootMachine killedChild).isSome = true := by
    decide +kernel
  obtain ⟨final, ended⟩ := Option.isSome_iff_exists.mp returns
  exact ⟨final, ended, (killsUsed_of_run careful ended).1⟩

/-- `kill(0)` finds an entry that is not in use, and the next child is born
killed. -/
theorem killed_atBirth : (kill bootMachine.table 0).1 = 0 ∧ ¬ HasPid bootMachine.table 0 ∧
    ∃ final, run Machine.step bootMachine [.kill 0, .fork ⟨true, true⟩] = some final ∧
      (final.table 1).state = .runnable ∧ (final.table 1).pid = 2 ∧
      (final.table 1).killed = true := by
  refine ⟨by decide +kernel, by decide +kernel, ?_⟩
  have born : ((run Machine.step bootMachine [.kill 0, .fork ⟨true, true⟩]).map fun final => decide
        ((final.table 1).state = .runnable ∧ (final.table 1).pid = 2 ∧
          (final.table 1).killed = true)) = some true := by
    decide +kernel
  obtain ⟨final, ended, facts⟩ := Option.map_eq_some_iff.mp born
  exact ⟨final, ended, of_decide_eq_true facts⟩

end Xv6.Process
