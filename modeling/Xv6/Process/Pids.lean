import Xv6.Process.OneCpu

/-!
# Process ids

`allocproc` takes pids from the 32-bit counter `nextpid` and looks neither at
its sign nor at the pids in use.
-/

namespace Xv6.Process

open Foundation.Transition (run run_append run_cons)

/-- The entry is in use. -/
def Proc.Used (proc : Proc) : Prop :=
  proc.state ≠ .unused

instance (proc : Proc) : Decidable proc.Used :=
  inferInstanceAs (Decidable (_ ≠ _))

/-- The pids of the entries in use are positive and below a number, and no two
are the same. -/
structure Identified (table : Table) (limit : Nat) : Prop where
  range : ∀ slot, (table slot).Used → 0 < (table slot).pid.toNat ∧ (table slot).pid.toNat < limit
  distinct : ∀ slot other, (table slot).Used → (table other).Used →
    (table slot).pid = (table other).pid → slot = other

/-- No entry comes into use, and those in use keep their pids. -/
def Fewer (before after : Table) : Prop :=
  ∀ slot, (after slot).Used → (before slot).Used ∧ (after slot).pid = (before slot).pid

section Fewer

variable {table before after : Table} {slot : Slot} {proc : Proc} {limit : Nat}

theorem Identified.of_fewer (identified : Identified before limit) (fewer : Fewer before after) :
    Identified after limit where
  range := by
    intro slot used
    obtain ⟨was, same⟩ := fewer slot used
    rw [same]
    exact identified.range slot was
  distinct := by
    intro slot other used used' equal
    obtain ⟨was, same⟩ := fewer slot used
    obtain ⟨was', same'⟩ := fewer other used'
    rw [same, same'] at equal
    exact identified.distinct slot other was was' equal

theorem Fewer.trans {middle : Table}
    (earlier : Fewer before middle) (later : Fewer middle after) : Fewer before after := by
  intro slot used
  obtain ⟨middleUsed, same⟩ := later slot used
  obtain ⟨was, same'⟩ := earlier slot middleUsed
  exact ⟨was, same.trans same'⟩

theorem fewer_set (change : proc.Used → (table slot).Used ∧ proc.pid = (table slot).pid) :
    Fewer table (table.set slot proc) := by
  intro other used
  by_cases same : other = slot
  · subst same
    rw [set_self] at used ⊢
    exact change used
  · rw [set_of_ne same] at used ⊢
    exact ⟨used, rfl⟩

theorem Keeps.fewer (keeps : Keeps before after) : Fewer before after := by
  intro slot used
  refine ⟨fun unused => ?_, (keeps slot).pid⟩
  rcases (keeps slot).state with ⟨same, -⟩ | ⟨asleep, -⟩
  · exact used (same.trans unused)
  · rw [asleep] at unused
    cases unused

theorem fewer_exitTable {curproc : Slot} (initproc : Slot) (used : (table curproc).Used) :
    Fewer table (exitTable table curproc initproc) := by
  intro slot usedAfter
  refine ⟨?_, (exitTable_pid_killed ..).1⟩
  by_cases same : slot = curproc
  · exact same ▸ used
  · intro unused
    rcases (exitTable_of_ne table curproc initproc same).state with ⟨still, -⟩ | ⟨asleep, -⟩
    · exact usedAfter (still.trans unused)
    · rw [asleep] at unused
      cases unused

/-- `allocproc` finds an entry, and every pid is below the next one. -/
theorem Identified.embryo {pid : BitVec 32} (identified : Identified table pid.toNat)
    (positive : 0 < pid.toNat) : Identified (table.embryo slot pid) (pid.toNat + 1) where
  range := by
    intro other used
    unfold Table.embryo at used ⊢
    by_cases same : other = slot
    · rw [same, set_self]
      exact ⟨positive, Nat.lt_succ_self _⟩
    · rw [set_of_ne same] at used ⊢
      obtain ⟨low, high⟩ := identified.range other used
      exact ⟨low, Nat.lt_succ_of_lt high⟩
  distinct := by
    have fresh : ∀ slot, (table slot).Used → (table slot).pid ≠ pid := by
      rintro slot used rfl
      exact Nat.lt_irrefl _ (identified.range slot used).2
    intro x y usedX usedY equal
    unfold Table.embryo at usedX usedY equal
    by_cases sameX : x = slot <;> by_cases sameY : y = slot
    · exact sameX.trans sameY.symm
    · rw [sameX, set_self, set_of_ne sameY] at equal
      rw [set_of_ne sameY] at usedY
      exact absurd equal.symm (fresh y usedY)
    · rw [sameY, set_self, set_of_ne sameX] at equal
      rw [set_of_ne sameX] at usedX
      exact absurd equal (fresh x usedX)
    · rw [set_of_ne sameX, set_of_ne sameY] at equal
      rw [set_of_ne sameX] at usedX
      rw [set_of_ne sameY] at usedY
      exact identified.distinct x y usedX usedY equal

end Fewer

section Runs

variable {Cpu : Type} [DecidableEq Cpu] {system next : System Cpu}

/-- A call of `fork` comes to `allocproc`. -/
def Action.allocates : Action Cpu → Bool
  | .allocproc _ => true
  | _ => false

/-- The counter is at most so large, and the pids in use are below it. -/
structure Numbered (system : System Cpu) (limit : Nat) : Prop where
  positive : 0 < system.nextpid.toNat
  bounded : system.nextpid.toNat ≤ limit
  identified : Identified system.table system.nextpid.toNat

omit [DecidableEq Cpu] in
/-- A process that a CPU executes has an entry in use. -/
theorem Coherent.used {cpu : Cpu} {slot : Slot} (coherent : Coherent system)
    (on : (system.core cpu).on = some slot) : (system.table slot).Used := by
  unfold Proc.Used
  rw [coherent.runs on]
  decide

omit [DecidableEq Cpu] in
/-- The counter stays as it is, and no entry comes into use. -/
theorem Numbered.of_fewer {limit more : Nat} (numbered : Numbered system limit)
    (fewer : Fewer system.table next.table) (same : next.nextpid = system.nextpid) :
    Numbered next (limit + more) := by
  refine ⟨?_, ?_, ?_⟩ <;> rw [same]
  · exact numbered.positive
  · exact numbered.bounded.trans (Nat.le_add_right ..)
  · exact numbered.identified.of_fewer fewer

/-- Only `allocproc` advances the counter and brings an entry into use. -/
theorem Numbered.transition {action : Action Cpu} {limit : Nat} (coherent : Coherent system)
    (numbered : Numbered system limit)
    (small : limit + (if action.allocates then 1 else 0) ≤ 2 ^ 31)
    (transition : Transition system action next) :
    Numbered next (limit + if action.allocates then 1 else 0) := by
  cases transition with
  | shake _ table keeps => exact numbered.of_fewer keeps.fewer rfl
  | move _ cpu target table location mine on keeps child => exact numbered.of_fewer keeps.fewer rfl
  | dispatch cpu index slot place runnable =>
    refine numbered.of_fewer (fewer_set fun _ => ⟨?_, rfl⟩) rfl
    unfold Proc.Used
    rw [runnable]
    decide
  | stop _ cpu slot proc target mine on pid =>
    exact numbered.of_fewer (fewer_set fun _ => ⟨coherent.used on, pid⟩) rfl
  | reap _ cpu slot child table mine on keeps zombie parent idle =>
    exact numbered.of_fewer (keeps.fewer.trans (fewer_set fun used => absurd rfl used)) rfl
  | alloc cpu slot np on place unused =>
    have bounded := numbered.bounded
    change limit + 1 ≤ 2 ^ 31 at small
    have advanced : (system.nextpid + 1).toNat = system.nextpid.toNat + 1 :=
      (BitVec.toNat_add ..).trans (Nat.mod_eq_of_lt (by
        change system.nextpid.toNat + 1 < 2 ^ 32
        omega))
    refine ⟨?_, ?_, ?_⟩ <;> dsimp only [System.goto] <;> rw [advanced]
    · exact Nat.succ_pos _
    · exact Nat.succ_le_succ bounded
    · exact numbered.identified.embryo numbered.positive
  | fail cpu slot np place => exact numbered.of_fewer (fewer_set fun used => absurd rfl used) rfl
  | adopt cpu slot np on place => exact numbered.of_fewer (fewer_set fun used => ⟨used, rfl⟩) rfl
  | born cpu slot np on place =>
    refine numbered.of_fewer (fewer_set fun _ => ⟨?_, rfl⟩) rfl
    have mine : (system.location slot).child = some np := by
      rw [place]
      rfl
    unfold Proc.Used
    rw [coherent.embryo mine]
    decide
  | exits cpu slot on free place ordinary =>
    exact numbered.of_fewer (fewer_exitTable system.initproc (coherent.used on)) rfl

omit [DecidableEq Cpu] in
theorem numbered_booted : Numbered (booted : System Cpu) 2 := by
  have only : ∀ slot, ((booted : System Cpu).table slot).Used → slot = 0 := by
    intro slot used
    by_contra other
    exact used (congrArg Proc.state (set_of_ne other))
  refine ⟨Nat.zero_lt_two, Nat.le_refl 2, fun slot used => ?_, fun slot other used used' _ => ?_⟩
  · rw [only slot used]
    exact (by decide : 0 < (1 : BitVec 32).toNat ∧ (1 : BitVec 32).toNat < 2)
  · rw [only slot used, only other used']

/-- The counter is at most the number of calls more than at the start. -/
theorem Numbered.run {actions : List (Action Cpu)} {final : System Cpu} {limit : Nat}
    (coherent : Coherent system) (numbered : Numbered system limit)
    (few : limit + actions.countP Action.allocates ≤ 2 ^ 31)
    (ended : run System.step system actions = some final) :
    Coherent final ∧ Numbered final (2 ^ 31) := by
  induction actions generalizing system limit with
  | nil =>
    cases ended
    exact ⟨coherent, { numbered with bounded := numbered.bounded.trans few }⟩
  | cons action actions ih =>
    obtain ⟨next, taken, rest⟩ := run_cons ended
    rw [List.countP_cons] at few
    have transition := transition_of_step coherent taken
    exact ih (coherent.transition transition)
      (numbered.transition coherent (by omega) transition) (by omega) rest

theorem step_forkEnd {cpu : Cpu} (taken : system.step (.forkEnd cpu) = some next) :
    ∃ np, next.forks = (next.table np).pid :: system.forks ∧ (next.table np).Used := by
  simp only [System.step] at taken
  split at taken
  case h_1 slot curproc np place =>
    split at taken
    case isTrue free =>
      obtain rfl := Option.some.inj taken
      refine ⟨np, ?_, ?_⟩
      · change _ = ((system.table.set np _) np).pid :: _
        rw [set_self]
      · change ((system.table.set np _) np).Used
        rw [set_self]
        exact fun unused => (by cases unused)
    case isFalse => cases taken
  case h_2 => cases taken

/-- In a run in which `fork` is called at most 2147483646 times, every `fork` that
succeeds returns a positive pid that no other process has. -/
theorem fork_identifies_of_run {actions : List (Action Cpu)} {before after : System Cpu} {cpu : Cpu}
    (ended : run System.step booted actions = some before)
    (returns : before.step (.forkEnd cpu) = some after)
    (few : actions.countP Action.allocates ≤ 2147483646) :
    ∃ np, after.forks = (after.table np).pid :: before.forks ∧ 0 < (after.table np).pid.toInt ∧
      ∀ other, other ≠ np → (after.table other).Used →
        (after.table other).pid ≠ (after.table np).pid := by
  obtain ⟨coherent, numbered⟩ := numbered_booted.run coherent_booted (by omega) ended
  have idle : (Action.forkEnd cpu).allocates = false := rfl
  have then' := numbered.transition coherent (by simp [idle]) (transition_of_step coherent returns)
  obtain ⟨np, made, used⟩ := step_forkEnd returns
  have range := then'.identified.range np used
  have bounded := then'.bounded
  rw [idle, if_neg Bool.false_ne_true, Nat.add_zero] at bounded
  refine ⟨np, made, ?_, fun other apart used' same => ?_⟩
  · rw [BitVec.toInt_eq_toNat_of_lt (by omega)]
    omega
  · exact apart (then'.identified.distinct other np used' used same)

/-- The first process forks once. -/
def firstFork : List (Action (Fin 1)) :=
  [.acquire 0, .scan 0, .resume 0, .allocproc 0, .forkParent 0]

theorem fork_identifies_firstFork : ∃ before after : System (Fin 1),
      run System.step booted firstFork = some before ∧ before.step (.forkEnd 0) = some after ∧
        ∃ np, after.forks = (after.table np).pid :: before.forks ∧
          0 < (after.table np).pid.toInt := by
  have seen : ((run System.step (booted : System (Fin 1)) firstFork).bind
      (fun before => before.step (.forkEnd 0))).isSome = true := by
    decide +kernel
  obtain ⟨after, both⟩ := Option.isSome_iff_exists.mp seen
  obtain ⟨before, ended, returns⟩ := Option.bind_eq_some_iff.mp both
  obtain ⟨np, made, positive, -⟩ := fork_identifies_of_run ended returns (by decide)
  exact ⟨before, after, ended, returns, np, made, positive⟩

end Runs

/-! ## The counter runs over -/

section Overflow

variable {system next : System (Fin 1)}

/-- The first process runs outside the functions of `proc.c`, and the second
entry is free. -/
structure Forks (system : System (Fin 1)) : Prop where
  core : system.core 0 = .running 0
  proc : system.proc 0 = some 0
  location : system.location 0 = .at .user
  lock : system.lock = none
  free : Process.allocproc system.table = some 1

/-- `fork`, when `kalloc` fails. -/
def failingFork : List (Action (Fin 1)) :=
  [.allocproc 0, .forkFail 0]

theorem current_of_location {place : Place} (core : system.core 0 = .running 0)
    (proc : system.proc 0 = some 0) (location : system.location 0 = .at place) :
    system.current 0 = some (0, 0, place) := by
  simp only [System.current, core, proc, location]

theorem goto_location (system : System (Fin 1)) (slot : Slot)
    (target : Location) : (system.goto slot target).location slot = target :=
  Function.update_self ..

/-- The state after `allocproc`. -/
def System.allocated (system : System (Fin 1)) : System (Fin 1) :=
  ({ system with
      table := system.table.embryo 1 system.nextpid
      nextpid := system.nextpid + 1 }.goto 1 .newborn).goto 0
    (.at (.forking 1))

theorem Forks.step_allocproc (forks : Forks system) :
    system.step (.allocproc 0) = some system.allocated := by
  have current := current_of_location forks.core forks.proc forks.location
  simp only [System.step, current, if_pos forks.lock, forks.free]
  rfl

theorem Forks.current_allocated (forks : Forks system) :
    system.allocated.current 0 = some (0, 0, .forking 1) :=
  current_of_location forks.core forks.proc (goto_location ..)

/-- The state after `fork` has failed. -/
def System.failed (system : System (Fin 1)) : System (Fin 1) :=
  (system.allocated.setProc 1 { system.allocated.table 1 with
    state := .unused }).goto 0 (.at .user)

/-- The entry is free again, so `allocproc` finds the same one. -/
theorem Forks.allocproc_failed (forks : Forks system) :
    Process.allocproc system.failed.table = some 1 := by
  rw [← forks.free]
  unfold Process.allocproc
  have same : ∀ slot, (system.failed.table slot).state = .unused ↔
      (system.table slot).state = .unused := by
    intro slot
    by_cases here : slot = 1
    · subst here
      have unused : (system.table 1).state = .unused := of_decide_eq_true (first_eq_some forks.free)
      exact iff_of_true (congrArg Proc.state (set_self _)) unused
    · rw [show system.failed.table slot = system.table slot from
        (set_of_ne here).trans (set_of_ne here)]
  simp only [same]

theorem Forks.failed (forks : Forks system) : Forks system.failed where
  core := forks.core
  proc := forks.proc
  location := goto_location ..
  lock := forks.lock
  free := forks.allocproc_failed

theorem Forks.run_failingFork (forks : Forks system) :
    run System.step system failingFork = some system.failed := by
  have fails : system.allocated.step (.forkFail 0) = some system.failed := by
    simp only [System.step, forks.current_allocated]
    rfl
  simp only [failingFork, run, forks.step_allocproc, fails]

/-- Any number of them. -/
theorem Forks.run_failingForks (forks : Forks system) (count : Nat) : ∃ next, run System.step system
        (List.replicate count failingFork).flatten = some next ∧
      Forks next ∧ next.nextpid = system.nextpid + BitVec.ofNat 32 count ∧
      next.forks = system.forks := by
  induction count generalizing system with
  | zero => exact ⟨system, rfl, forks, (BitVec.add_zero _).symm, rfl⟩
  | succ count ih =>
    obtain ⟨next, rest, forks', counted, same⟩ := ih forks.failed
    refine ⟨next, ?_, forks', ?_, same⟩
    · rw [List.replicate_succ, List.flatten_cons, run_append, forks.run_failingFork]
      exact rest
    · rw [counted, BitVec.ofNat_add, BitVec.add_comm (BitVec.ofNat 32 count), ← BitVec.add_assoc]
      rfl

/-- The state after `fork` has set the parent. -/
def System.adopted (system : System (Fin 1)) : System (Fin 1) :=
  (system.allocated.setProc 1 { system.allocated.table 1 with
    parent := some 0 }).goto 0 (.at (.forked 1))

theorem adopted_pid (system : System (Fin 1)) : (system.adopted.table 1).pid = system.nextpid := by
  unfold System.adopted System.setProc System.goto
  dsimp only
  rw [set_self]
  unfold System.allocated System.goto Table.embryo
  dsimp only
  rw [set_self]

/-- A `fork` that succeeds returns the value of the counter. -/
theorem Forks.run_fork (forks : Forks system) : ∃ after,
      run System.step system [.allocproc 0, .forkParent 0] = some system.adopted ∧
        system.adopted.step (.forkEnd 0) = some after ∧
        after.forks = system.nextpid :: system.forks := by
  have adopts : system.allocated.step (.forkParent 0) = some system.adopted := by
    simp only [System.step, forks.current_allocated]
    rfl
  have current : system.adopted.current 0 = some (0, 0, .forked 1) :=
    current_of_location forks.core forks.proc (goto_location ..)
  have returns : system.adopted.step (.forkEnd 0) =
      some { (system.adopted.setProc 1 { system.adopted.table 1 with
          state := .runnable
          priority := 0 }).goto 0 (.at .user) with
        forks := (system.adopted.table 1).pid :: system.adopted.forks } := by
    simp only [System.step, current]
    exact if_pos forks.lock
  refine ⟨_, ?_, returns, congrArg (· :: system.forks) (adopted_pid system)⟩
  simp only [run, forks.step_allocproc, adopts]

/-- The first process calls `fork` many times when there is no memory, and once
more when there is. -/
def exhaustingRun (count : Nat) : List (Action (Fin 1)) :=
  [.acquire 0, .scan 0, .resume 0] ++
    ((List.replicate count failingFork).flatten ++ [.allocproc 0, .forkParent 0])

/-- The first process when it runs. -/
theorem forks_started : ∃ system : System (Fin 1),
      run System.step booted [.acquire 0, .scan 0, .resume 0] = some system ∧
        Forks system ∧ system.nextpid = 2 ∧ system.forks = [] := by
  have seen : (run System.step (booted : System (Fin 1)) [.acquire 0, .scan 0, .resume 0]).map
        (fun system => ((system.core 0, system.proc 0, system.location 0),
          (system.lock, Process.allocproc system.table), system.nextpid,
          system.forks)) =
      some ((.running 0, some 0, .at .user), (none, some 1), 2, []) := by
    decide +kernel
  obtain ⟨system, ended, same⟩ := Option.map_eq_some_iff.mp seen
  simp only [Prod.mk.injEq] at same
  obtain ⟨⟨core, proc, location⟩, ⟨lock, free⟩, counted, empty⟩ := same
  exact ⟨system, ended, ⟨core, proc, location, lock, free⟩, counted, empty⟩

theorem run_exhaustingRun (count : Nat) : ∃ before after : System (Fin 1),
      run System.step booted (exhaustingRun count) = some before ∧
        before.step (.forkEnd 0) = some after ∧
        after.forks = [2 + BitVec.ofNat 32 count] := by
  obtain ⟨first, started, forks, counter, empty⟩ := forks_started
  obtain ⟨second, failed, forks', counter', same⟩ := forks.run_failingForks count
  obtain ⟨after, ended, returns, pids⟩ := forks'.run_fork
  refine ⟨second.adopted, after, ?_, returns, ?_⟩
  · unfold exhaustingRun
    rw [run_append, started, Option.bind_some, run_append, failed, Option.bind_some, ended]
  · rw [pids, counter', counter, same, empty]

/-- The call after 2147483646 calls that failed returns -2147483648. -/
theorem fork_negative_exhaustingRun : ∃ before after : System (Fin 1),
      run System.step booted (exhaustingRun 2147483646) = some before ∧
        before.step (.forkEnd 0) = some after ∧
        after.forks = [0x80000000#32] ∧
        (0x80000000#32).toInt = -2147483648 := by
  obtain ⟨before, after, ended, returns, pids⟩ := run_exhaustingRun 2147483646
  refine ⟨before, after, ended, returns, ?_, by decide⟩
  rw [pids]
  decide

end Overflow

end Xv6.Process
