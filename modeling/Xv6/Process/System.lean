import Xv6.Foundation.Transition
import Xv6.Process.Table

/-!
# Processes on several CPUs

The functions of `proc.c` as a transition system.  Any number of CPUs run the
scheduler and the processes it dispatches.  A step is a section under
`ptable.lock`, or the part of one up to the switch to another stack, where the
lock is handed over; `fork` also changes the entry of the new process without
the lock.  A process may be interrupted by `yield` wherever it does not hold the
lock.
-/

namespace Xv6.Process

/-- Where a process is that does not hold `ptable.lock`. -/
inductive Place
  /-- In none of the functions. -/
  | user
  /-- In `fork`, after `allocproc` has found an entry. -/
  | forking (np : Slot)
  /-- In `fork`, after it has set `np->parent`. -/
  | forked (np : Slot)
  deriving DecidableEq

/-- Where a process is, or where it goes on when it is dispatched. -/
inductive Location
  /-- It runs. -/
  | at (place : Place)
  /-- In `yield`, called at a place. -/
  | yielded (place : Place)
  /-- In `sleep`, called outside `wait`. -/
  | slept
  /-- In `sleep`, called by `wait`. -/
  | waiting
  /-- At the start of `forkret`. -/
  | newborn
  /-- It has ended, or there is no process. -/
  | exited
  deriving DecidableEq

/-- Where a CPU is. -/
inductive Core
  /-- In `scheduler`, before `acquire(&ptable.lock)`. -/
  | idle
  /-- In the outer loop of `scheduler`, at an entry, holding the lock. -/
  | scanning (index : Nat)
  /-- On the stack of a process, right after the switch, holding the lock. -/
  | resuming (slot : Slot)
  /-- On the stack of a process, not holding the lock. -/
  | running (slot : Slot)
  deriving DecidableEq

/-- A pid that `wait` has returned. -/
structure Reaped where
  /-- The process that called `wait`. -/
  reaper : Slot
  /-- The parent of the process that was found. -/
  parent : Option Slot
  pid : BitVec 32
  deriving DecidableEq

/-- `ptable`, the CPUs and the processes.  `forks` and `waits` record what
`fork` and `wait` returned and are not read by the code. -/
structure System (Cpu : Type) where
  table : Table
  /-- `nextpid`. -/
  nextpid : BitVec 32
  /-- `initproc`. -/
  initproc : Slot
  /-- The CPU that holds `ptable.lock`. -/
  lock : Option Cpu
  /-- `c->proc`. -/
  proc : Cpu → Option Slot
  /-- Where each CPU is. -/
  core : Cpu → Core
  /-- Where each process is. -/
  location : Slot → Location
  /-- The pids that `fork` has returned. -/
  forks : List (BitVec 32)
  /-- The pids that `wait` has returned. -/
  waits : List Reaped

/-- What happens next. -/
inductive Action (Cpu : Type)
  /-- `scheduler` takes the lock. -/
  | acquire (cpu : Cpu)
  /-- `scheduler` looks at one entry. -/
  | scan (cpu : Cpu)
  /-- The process that was dispatched goes on. -/
  | resume (cpu : Cpu)
  /-- `fork` calls `allocproc`. -/
  | allocproc (cpu : Cpu)
  /-- `kalloc` or `copyuvm` fails in `fork`. -/
  | forkFail (cpu : Cpu)
  /-- `fork` sets `np->parent`. -/
  | forkParent (cpu : Cpu)
  /-- The last step of `fork`. -/
  | forkEnd (cpu : Cpu)
  | exec (cpu : Cpu)
  | exit (cpu : Cpu)
  | wait (cpu : Cpu)
  | yield (cpu : Cpu)
  | sleep (cpu : Cpu) (address : Nat)
  | wakeup (address : Nat)
  | kill (pid : BitVec 32)
  | nice (pid : BitVec 32) (priority : Int)

/-- `nice`. -/
def nice (table : Table) (pid : BitVec 32) (priority : Int) : Table :=
  match first fun slot => (table slot).pid = pid with
  | none => table
  | some slot => table.set slot { table slot with priority := priority }

variable {Cpu : Type} [DecidableEq Cpu]

namespace System

/-- Change one entry of the table. -/
def setProc (system : System Cpu) (slot : Slot) (proc : Proc) : System Cpu :=
  { system with table := system.table.set slot proc }

/-- Move one process. -/
def goto (system : System Cpu) (slot : Slot) (target : Location) : System Cpu :=
  { system with location := Function.update system.location slot target }

/-- A process leaves a section under `ptable.lock`. -/
def release (system : System Cpu) (cpu : Cpu) (slot : Slot) : System Cpu :=
  { system.goto slot (.at .user) with
    core := Function.update system.core cpu (.running slot)
    lock := none }

/-- `sched`, called by a process that holds `ptable.lock`: the scheduler clears
`c->proc` and goes on with the next entry. -/
def sched (system : System Cpu) (cpu : Cpu) (slot : Slot) (target : Location) : System Cpu :=
  { system.goto slot target with
    core := Function.update system.core cpu (.scanning (slot.val + 1))
    proc := Function.update system.proc cpu none
    lock := some cpu }

/-- The loop of `wait`, up to its return or its call of `sleep`. -/
def waitLoop (system : System Cpu) (cpu : Cpu) (curproc : Slot) : System Cpu :=
  match zombieChild system.table curproc with
  | some child =>
    let found := system.table child
    { (system.setProc child found.reap).release cpu curproc with
      waits := ⟨curproc, found.parent, found.pid⟩ :: system.waits }
  | none =>
    let proc := system.table curproc
    if ¬ havekids system.table curproc ∨ proc.killed = true then
      system.release cpu curproc
    else
      (system.setProc curproc (proc.sleep (.proc curproc))).sched cpu curproc .waiting

/-- One pass of the outer loop of `scheduler`. -/
def scanStep (system : System Cpu) (cpu : Cpu) (index : Nat) : System Cpu :=
  if bound : index < nproc then
    if (system.table ⟨index, bound⟩).state = .runnable then
      let slot := highP system.table (List.finRange nproc) ⟨index, bound⟩
      { system.setProc slot
          { system.table slot with state := .running } with
        core := Function.update system.core cpu (.resuming slot)
        proc := Function.update system.proc cpu (some slot) }
    else
      { system with
        core := Function.update system.core cpu (.scanning (index + 1)) }
  else
    { system with
      core := Function.update system.core cpu .idle
      lock := none }

/-- A process goes on after `sched`, or starts in `forkret`. -/
def resumeStep (system : System Cpu) (cpu : Cpu) (slot : Slot) : Option (System Cpu) :=
  let tidy := system.setProc slot { system.table slot with chan := none }
  match system.location slot with
  | .yielded place => some ((system.release cpu slot).goto slot (.at place))
  | .newborn => some (system.release cpu slot)
  | .slept => some (tidy.release cpu slot)
  | .waiting => some (tidy.waitLoop cpu slot)
  | .at _ | .exited => none

/-- The process that runs on a CPU, and `myproc()` there, when the process is
at a place. -/
def current (system : System Cpu) (cpu : Cpu) : Option (Slot × Slot × Place) :=
  match system.core cpu, system.proc cpu with
  | .running slot, some curproc =>
    match system.location slot with
    | .at place => some (slot, curproc, place)
    | _ => none
  | _, _ => none

/-- One step of the system. -/
def step (system : System Cpu) : Action Cpu → Option (System Cpu)
  | .acquire cpu =>
    if system.core cpu = .idle ∧ system.lock = none then
      some { system with
        core := Function.update system.core cpu (.scanning 0)
        lock := some cpu }
    else none
  | .scan cpu =>
    match system.core cpu with
    | .scanning index => some (system.scanStep cpu index)
    | _ => none
  | .resume cpu =>
    match system.core cpu with
    | .resuming slot => system.resumeStep cpu slot
    | _ => none
  | .allocproc cpu =>
    match system.current cpu with
    | some (slot, _, .user) =>
      if system.lock = none then
        match Process.allocproc system.table with
        | none => some system
        | some np => some
            (({ system with
                table := system.table.embryo np system.nextpid
                nextpid := system.nextpid + 1 }.goto np .newborn).goto slot
              (.at (.forking np)))
      else none
    | _ => none
  | .forkFail cpu =>
    match system.current cpu with
    | some (slot, _, .forking np) =>
      some ((system.setProc np { system.table np with
        state := .unused }).goto slot (.at .user))
    | _ => none
  | .forkParent cpu =>
    match system.current cpu with
    | some (slot, curproc, .forking np) =>
      some ((system.setProc np { system.table np with
        parent := some curproc }).goto slot (.at (.forked np)))
    | _ => none
  | .forkEnd cpu =>
    match system.current cpu with
    | some (slot, _, .forked np) =>
      if system.lock = none then
        some { (system.setProc np { system.table np with
            state := .runnable
            priority := 0 }).goto slot (.at .user) with
          forks := (system.table np).pid :: system.forks }
      else none
    | _ => none
  | .exec cpu =>
    match system.current cpu with
    | some (_, curproc, .user) =>
      some (system.setProc curproc { system.table curproc with
        priority := 0 })
    | _ => none
  | .exit cpu =>
    match system.current cpu with
    | some (slot, curproc, .user) =>
      if system.lock = none ∧ curproc ≠ system.initproc then
        some ({ system with
          table := exitTable system.table curproc system.initproc }.sched cpu slot .exited)
      else none
    | _ => none
  | .wait cpu =>
    match system.current cpu with
    | some (_, curproc, .user) =>
      if system.lock = none then some (system.waitLoop cpu curproc)
      else none
    | _ => none
  | .yield cpu =>
    match system.current cpu with
    | some (slot, curproc, place) =>
      if system.lock = none then
        some ((system.setProc curproc { system.table curproc with
          state := .runnable }).sched cpu slot (.yielded place))
      else none
    | none => none
  | .sleep cpu address =>
    match system.current cpu with
    | some (slot, curproc, .user) =>
      if system.lock = none then
        some ((system.setProc curproc
          ((system.table curproc).sleep (.other address))).sched cpu slot .slept)
      else none
    | _ => none
  | .wakeup address =>
    if system.lock = none then
      some { system with table := wakeup1 system.table (.other address) }
    else none
  | .kill pid =>
    if system.lock = none then
      some { system with table := (Process.kill system.table pid).2 }
    else none
  | .nice pid priority =>
    if system.lock = none then
      some { system with table := nice system.table pid priority }
    else none

end System

/-- The system after `userinit`, with every CPU at the start of its
scheduler. -/
def booted : System Cpu where
  table := Table.set (fun _ => Proc.zero) 0
    { Proc.zero with state := .runnable, pid := 1 }
  nextpid := 2
  initproc := 0
  lock := none
  proc := fun _ => none
  core := fun _ => .idle
  location := fun slot => if slot = 0 then .newborn else .exited
  forks := []
  waits := []

end Xv6.Process
