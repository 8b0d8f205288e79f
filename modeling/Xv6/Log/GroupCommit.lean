import Xv6.Foundation.Transition
import Xv6.Log.Recovery

/-!
# The group commit protocol

`begin_op`, `log_write` and `end_op` of `log.c` as a transition system.  Any
number of processes run them.  A step of a process is the code up to its next
interaction with another process: taking or giving back `log.lock` or
`ptable.lock`, going to sleep on `&log`, waking the sleepers, or one phase of
`commit`, which runs without `log.lock`.  The statements of one critical
section that touch only fields guarded by the lock are one step.
-/

namespace Xv6.Log

/-- `MAXOPBLOCKS`. -/
abbrev maxopblocks : Nat := 10

/-- Where a process is in the code of `log.c`. -/
inductive Location
  /-- Outside any operation. -/
  | idle
  /-- `begin_op`, before `acquire(&log.lock)`. -/
  | beginAcquire
  /-- `begin_op`, at the head of its loop, holding `log.lock`. -/
  | beginTest
  /-- `sleep`, before `acquire(&ptable.lock)`, holding `log.lock`. -/
  | sleepPtable
  /-- `sleep`, before `release(lk)`, holding both locks. -/
  | sleepRelease
  /-- `sleep`, before it is `SLEEPING`, holding `ptable.lock`. -/
  | sleepSched
  /-- `SLEEPING` on `&log`. -/
  | sleeping
  /-- `sleep`, awakened, before `acquire(lk)`. -/
  | sleepReacquire
  /-- Between `begin_op` and `end_op`, in none of the log functions. -/
  | inOp
  /-- `log_write` of a block, past its tests, before `acquire(&log.lock)`. -/
  | logWriteAcquire (block : Nat)
  /-- `log_write` of a block, holding `log.lock`. -/
  | logWriteLocked (block : Nat)
  /-- `end_op`, before its first `acquire(&log.lock)`. -/
  | endAcquire
  /-- `end_op`, holding `log.lock`. -/
  | endLocked
  /-- `end_op`, before `wakeup(&log)`, other operations outstanding. -/
  | endWakeup
  /-- `end_op`, before `release(&log.lock)`, nothing left to do. -/
  | endRelease
  /-- `end_op`, before `release(&log.lock)`, with `do_commit` set. -/
  | endReleaseCommit
  /-- `commit`, at its test of `log.lh.n`. -/
  | commitStart
  /-- `commit`, before `write_log` and the first `write_head`. -/
  | commitWrite
  /-- `commit`, before `install_trans`. -/
  | commitInstall
  /-- `commit`, before `log.lh.n = 0`. -/
  | commitClear
  /-- `commit`, before the second `write_head`. -/
  | commitErase
  /-- `end_op` after `commit`, before `acquire(&log.lock)`. -/
  | commitAcquire
  /-- `end_op` after `commit`, before `log.committing = 0`. -/
  | commitUnset
  /-- `end_op` after `commit`, before `wakeup(&log)`. -/
  | commitWakeup
  /-- `end_op` after `commit`, before `release(&log.lock)`. -/
  | commitRelease
  /-- Stopped in `panic`. -/
  | panicked (message : String)
  deriving DecidableEq

namespace Location

/-- The process holds `log.lock`. -/
def holdsLog : Location → Bool
  | beginTest | sleepPtable | sleepRelease | logWriteLocked _ | endLocked
  | endWakeup | endRelease | endReleaseCommit | commitUnset | commitWakeup
  | commitRelease => true
  | _ => false

/-- The process holds `ptable.lock`. -/
def holdsPtable : Location → Bool
  | sleepRelease | sleepSched => true
  | _ => false

/-- The process is between its `begin_op` and its `end_op`: it has been
admitted and has not yet given its place back. -/
def operating : Location → Bool
  | inOp | logWriteAcquire _ | logWriteLocked _ | endAcquire | endLocked
  | panicked _ => true
  | _ => false

/-- The process is inside `commit`. -/
def inCommit : Location → Bool
  | commitStart | commitWrite | commitInstall | commitClear
  | commitErase => true
  | _ => false

/-- The process has set `log.committing` and not yet cleared it. -/
def committing : Location → Bool
  | endReleaseCommit | commitStart | commitWrite | commitInstall
  | commitClear | commitErase | commitAcquire | commitUnset => true
  | _ => false

/-- The process has written the header of the group it commits. -/
def posted : Location → Bool
  | commitInstall | commitClear | commitErase | commitAcquire
  | commitUnset => true
  | _ => false

/-- The process has reset `log.lh.n` for the group it commits. -/
def cleared : Location → Bool
  | commitErase | commitAcquire | commitUnset => true
  | _ => false

/-- The process has decided to wait for `&log`. -/
def waits : Location → Bool
  | sleepPtable | sleepRelease | sleepSched | sleeping => true
  | _ => false

/-- The process is about to wake the sleepers on `&log`. -/
def wakes : Location → Bool
  | endWakeup | commitWakeup => true
  | _ => false

/-- The process stopped because the log was full. -/
def overflowed (location : Location) : Bool :=
  location = panicked "too big a transaction"

end Location

/-- One `log_write` that has been carried out. -/
structure Entry where
  /-- Number of the operation that made it. -/
  operation : Nat
  /-- The block it logged. -/
  block : Nat
  /-- Number of the group it belongs to. -/
  group : Nat
  deriving DecidableEq

variable {Process : Type}

/-- `struct log` with the processes that use it.  `nextOperation`,
`operation`, `entries` and `groups` record what happened and are not read by
the code. -/
structure State (Process : Type) where
  /-- `log.size`. -/
  size : Nat
  /-- `log.lh.block[0..n)`. -/
  block : List Nat
  /-- `log.outstanding`. -/
  outstanding : Nat
  /-- `log.committing`. -/
  committing : Bool
  /-- The holder of `log.lock`. -/
  lock : Option Process
  /-- The holder of `ptable.lock`, as far as it is one of these processes. -/
  ptableLock : Option Process
  /-- Where each process is. -/
  location : Process → Location
  /-- Number of the next operation to be admitted. -/
  nextOperation : Nat
  /-- Number of the last operation of each process. -/
  operation : Process → Nat
  /-- The `log_write` calls carried out so far. -/
  entries : List Entry
  /-- The groups committed so far. -/
  groups : List (List Nat)

/-- What a process does next: it starts an operation, logs a block, ends the
operation, continues where it is, or another process kills it. -/
inductive Action (Process : Type)
  | beginOp (proc : Process)
  | logWrite (proc : Process) (block : Nat)
  | endOp (proc : Process)
  | advance (proc : Process)
  | kill (proc : Process)

/-- The process that acts. -/
def Action.process : Action Process → Process
  | .beginOp proc | .logWrite proc _ | .endOp proc
  | .advance proc | .kill proc => proc

/-- The loop of `log_write` and its stores: `block[i] = b->blockno` at the
first `i` with that number or at `n`, and `n` grows in the latter case. -/
def absorb (block : List Nat) (number : Nat) : List Nat :=
  let index := block.idxOf number
  if index = block.length then block ++ [number]
  else block.set index number

namespace State

variable [DecidableEq Process]

/-- Move one process. -/
def goto (s : State Process) (proc : Process) (target : Location) : State Process :=
  { s with location := Function.update s.location proc target }

/-- `acquire(&log.lock)`. -/
def acquire (s : State Process) (proc : Process) (target : Location) : Option (State Process) :=
  if s.lock = none then
    some { s.goto proc target with lock := some proc }
  else none

/-- `release(&log.lock)`. -/
def release (s : State Process) (proc : Process) (target : Location) : State Process :=
  { s.goto proc target with lock := none }

/-- `wakeup(&log)`: under `ptable.lock`, every sleeper becomes runnable. -/
def wakeup (s : State Process) (proc : Process) (target : Location) : Option (State Process) :=
  if s.ptableLock = none then
    some { s with
      location := Function.update
        (fun other =>
          if s.location other = .sleeping then .sleepReacquire
          else s.location other)
        proc target }
  else none

/-- The admission test of `begin_op` fails. -/
def Full (s : State Process) : Prop :=
  s.committing = true ∨ logsize < s.block.length + (s.outstanding + 1) * maxopblocks

instance (s : State Process) : Decidable s.Full :=
  inferInstanceAs (Decidable (_ ∨ _))

/-- The tests of `log_write` that end in `panic`. -/
def TooBig (s : State Process) : Prop :=
  logsize ≤ s.block.length ∨ s.size - 1 ≤ s.block.length

instance (s : State Process) : Decidable s.TooBig :=
  inferInstanceAs (Decidable (_ ∨ _))

/-- Continue the code of one process. -/
def advance (s : State Process) (proc : Process) : Option (State Process) :=
  match s.location proc with
  | .beginAcquire => s.acquire proc .beginTest
  | .beginTest =>
    if s.Full then some (s.goto proc .sleepPtable)
    else some { s.release proc .inOp with
      outstanding := s.outstanding + 1
      nextOperation := s.nextOperation + 1
      operation :=
        Function.update s.operation proc s.nextOperation }
  | .sleepPtable =>
    if s.ptableLock = none then
      some { s.goto proc .sleepRelease with
        ptableLock := some proc }
    else none
  | .sleepRelease => some (s.release proc .sleepSched)
  | .sleepSched => some { s.goto proc .sleeping with ptableLock := none }
  | .sleepReacquire => s.acquire proc .beginTest
  | .logWriteAcquire number => s.acquire proc (.logWriteLocked number)
  | .logWriteLocked number =>
    some { s.release proc .inOp with
      block := absorb s.block number
      entries := ⟨s.operation proc, number, s.groups.length⟩ :: s.entries }
  | .endAcquire => s.acquire proc .endLocked
  | .endLocked =>
    let left := { s with outstanding := s.outstanding - 1 }
    if s.committing then
      some (left.goto proc (.panicked "log.committing"))
    else if left.outstanding = 0 then
      some { left.goto proc .endReleaseCommit with committing := true }
    else some (left.goto proc .endWakeup)
  | .endWakeup => s.wakeup proc .endRelease
  | .endRelease => some (s.release proc .idle)
  | .endReleaseCommit => some (s.release proc .commitStart)
  | .commitStart =>
    if 0 < s.block.length then some (s.goto proc .commitWrite)
    else some { s.goto proc .commitAcquire with
      groups := s.groups ++ [[]] }
  | .commitWrite =>
    some { s.goto proc .commitInstall with
      groups := s.groups ++ [s.block] }
  | .commitInstall => some (s.goto proc .commitClear)
  | .commitClear => some { s.goto proc .commitErase with block := [] }
  | .commitErase => some (s.goto proc .commitAcquire)
  | .commitAcquire => s.acquire proc .commitUnset
  | .commitUnset => some { s.goto proc .commitWakeup with committing := false }
  | .commitWakeup => s.wakeup proc .commitRelease
  | .commitRelease => some (s.release proc .idle)
  | .idle | .inOp | .sleeping | .panicked _ => none

/-- One step of the system. -/
def step (s : State Process) : Action Process → Option (State Process)
  | .beginOp proc =>
    if s.location proc = .idle then
      some (s.goto proc .beginAcquire)
    else none
  | .logWrite proc number =>
    if s.location proc = .inOp then
      if s.TooBig then
        some (s.goto proc (.panicked "too big a transaction"))
      else if s.outstanding < 1 then
        some (s.goto proc (.panicked "log_write outside of trans"))
      else some (s.goto proc (.logWriteAcquire number))
    else none
  | .endOp proc =>
    if s.location proc = .inOp then
      some (s.goto proc .endAcquire)
    else none
  | .advance proc => s.advance proc
  | .kill proc =>
    -- kill() sets a SLEEPING process RUNNABLE under ptable.lock
    if s.location proc = .sleeping ∧ s.ptableLock = none then
      some (s.goto proc .sleepReacquire)
    else none

end State

/-- The log after `initlog`: recovered, and nobody uses it. -/
def initlog (size : Nat) : State Process where
  size := size
  block := []
  outstanding := 0
  committing := false
  lock := none
  ptableLock := none
  location := fun _ => .idle
  nextOperation := 0
  operation := fun _ => 0
  entries := []
  groups := []

end Xv6.Log
