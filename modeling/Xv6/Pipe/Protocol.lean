import Xv6.Disk.Block
import Xv6.Foundation.Ring
import Xv6.Foundation.Transition

/-!
# The calls on a pipe

`pipewrite`, `piperead` and `pipeclose` of `pipe.c` as a transition system, with
`kill`.  Any number of processes share the pipe.  A step of a process is one
pass of a loop or the code up to the next interaction with another process:
taking or giving back `p->lock` or `ptable.lock`, going to sleep on `&p->nread`
or `&p->nwrite`, or waking the sleepers.
-/

namespace Xv6.Pipe

open Foundation (Ring)

/-- `PIPESIZE`. -/
abbrev pipesize : Nat := 512

instance neZero_pipesize : NeZero pipesize := ⟨by decide⟩

/-- What the processes sleep on: `&p->nread` or `&p->nwrite`. -/
inductive Channel
  | nread
  | nwrite
  deriving DecidableEq

/-- A call that sleeps, and how far it is: `pipewrite` of the bytes `addr` with
`i` of them stored, or `piperead` of `n` bytes. -/
inductive Sleeper
  | write (addr : List Byte) (i : Nat)
  | read (n : Nat)
  deriving DecidableEq

/-- What the call sleeps on. -/
def Sleeper.channel : Sleeper → Channel
  | write _ _ => .nwrite
  | read _ => .nread

/-- How far a process is in `sleep`. -/
inductive Phase
  /-- Before `acquire(&ptable.lock)`, holding `p->lock`. -/
  | ptable
  /-- Before `release(lk)`, holding both locks. -/
  | release
  /-- Before it is `SLEEPING`, holding `ptable.lock`. -/
  | sched
  /-- `SLEEPING`. -/
  | sleeping
  /-- Awakened, before `acquire(lk)`. -/
  | reacquire
  deriving DecidableEq

/-- Places in the code between `acquire(&p->lock)` and `release(&p->lock)`. -/
inductive Place
  /-- `pipewrite`, at the head of its loops, with `i` bytes stored. -/
  | writeLoop (addr : List Byte) (i : Nat)
  /-- `pipewrite`, before the `wakeup` in its loop. -/
  | writeFull (addr : List Byte) (i : Nat)
  /-- `pipewrite`, before its last `wakeup`. -/
  | writeDone
  /-- `piperead`, at the head of its first loop. -/
  | readLoop (n : Nat)
  /-- `piperead`, at the head of its second loop. -/
  | readCopy (n i : Nat)
  /-- `piperead`, before its `wakeup`. -/
  | readDone
  /-- `pipeclose`, before it closes an end. -/
  | closeStart (writable : Bool)
  /-- `pipeclose`, before its `wakeup`. -/
  | closeWakeup (writable : Bool)
  /-- `pipeclose`, before its last test. -/
  | closeEnd
  /-- Before `release(&p->lock)` and the return. -/
  | leave
  deriving DecidableEq

/-- The calls and their arguments. -/
inductive Call
  | write (addr : List Byte)
  | read (n : Nat)
  | close (writable : Bool)
  deriving DecidableEq

/-- Where a process is. -/
inductive Location
  /-- In none of the calls. -/
  | idle
  /-- At the start of a call, before `acquire(&p->lock)`. -/
  | acquire (call : Call)
  /-- Holding `p->lock`, outside `sleep`. -/
  | locked (place : Place)
  /-- In `sleep`. -/
  | sleep (sleeper : Sleeper) (phase : Phase)
  deriving DecidableEq

/-- Where a call starts. -/
def Call.start : Call → Place
  | write addr => .writeLoop addr 0
  | read n => .readLoop n
  | close writable => .closeStart writable

/-- Where a call that slept goes on. -/
def Sleeper.resume : Sleeper → Place
  | write addr i => .writeLoop addr i
  | read n => .readLoop n

variable {Process : Type}

/-- `struct pipe`, the locks and the processes.  `calls`, `stored` and
`delivered` record what happened and are not read by the code. -/
structure Core (Process : Type) where
  /-- `p->data`, `p->nread` and `p->nwrite`. -/
  ring : Ring Byte 32 pipesize
  readopen : Bool
  writeopen : Bool
  /-- The holder of `p->lock`. -/
  lock : Option Process
  /-- The holder of `ptable.lock`, as far as it is one of these processes. -/
  ptableLock : Option Process
  /-- Where each process is. -/
  location : Process → Location
  /-- The bytes that each process has passed to `pipewrite`, call by call. -/
  calls : Process → List (List Byte)
  /-- The bytes stored so far, with the writer of each. -/
  stored : List (Process × Byte)
  /-- The bytes delivered to readers so far. -/
  delivered : List Byte

/-- The pipe with what `kill` and the descriptors add. -/
structure State (Process : Type) extends Core Process where
  killed : Process → Bool
  /-- The process has the write end (`true`) or the read end open. -/
  descriptor : Bool → Process → Bool
  /-- The pipe has been given to `kfree`. -/
  freed : Bool

/-- What happens next. -/
inductive Action (Process : Type)
  | write (proc : Process) (addr : List Byte)
  | read (proc : Process) (n : Nat)
  /-- A process gives up an end; the last one runs `pipeclose`. -/
  | close (proc : Process) (writable : Bool)
  /-- `fork` gives an end of a process to its child. -/
  | share (proc child : Process) (writable : Bool)
  /-- A process continues where it is. -/
  | advance (proc : Process)
  /-- Some process kills this one. -/
  | kill (proc : Process)

variable [DecidableEq Process]

namespace Core

/-- Move one process. -/
def goto (core : Core Process) (proc : Process) (target : Location) : Core Process :=
  { core with location := Function.update core.location proc target }

/-- The locations after `wakeup` of a channel. -/
def awakened (core : Core Process) (chan : Channel) (proc : Process) : Location :=
  match core.location proc with
  | .sleep sleeper .sleeping =>
    if sleeper.channel = chan then .sleep sleeper .reacquire
    else .sleep sleeper .sleeping
  | location => location

end Core

namespace State

/-- Move one process. -/
def goto (s : State Process) (proc : Process) (target : Location) : State Process :=
  { s with toCore := s.toCore.goto proc target }

/-- `acquire(&p->lock)`. -/
def acquire (s : State Process) (proc : Process) (place : Place) : Option (State Process) :=
  if s.lock = none then
    some { s.goto proc (.locked place) with lock := some proc }
  else none

/-- `wakeup`: under `ptable.lock`, the sleepers on a channel become
runnable. -/
def wakeup (s : State Process) (proc : Process) (chan : Channel)
    (target : Location) : Option (State Process) :=
  if s.ptableLock = none then
    some { s with
      location := Function.update (s.awakened chan) proc target }
  else none

/-- The code between `acquire(&p->lock)` and `release(&p->lock)`. -/
def inside (s : State Process) (proc : Process) : Place → Option (State Process)
  | .writeLoop addr i =>
    match addr[i]? with
    | none => some (s.goto proc (.locked .writeDone))
    | some byte =>
      if s.ring.Full then
        if s.readopen = false ∨ s.killed proc = true then
          some (s.goto proc (.locked .leave))
        else some (s.goto proc (.locked (.writeFull addr i)))
      else some { s.goto proc (.locked (.writeLoop addr (i + 1))) with
        ring := s.ring.push byte
        stored := s.stored ++ [(proc, byte)] }
  | .writeFull addr i => s.wakeup proc .nread (.sleep (.write addr i) .ptable)
  | .writeDone => s.wakeup proc .nread (.locked .leave)
  | .readLoop n =>
    if s.ring.Empty ∧ s.writeopen = true then
      if s.killed proc then
        some (s.goto proc (.locked .leave))
      else some (s.goto proc (.sleep (.read n) .ptable))
    else some (s.goto proc (.locked (.readCopy n 0)))
  | .readCopy n i =>
    if i < n ∧ ¬ s.ring.Empty then
      some { s.goto proc (.locked (.readCopy n (i + 1))) with
        ring := s.ring.pop
        delivered := s.delivered ++ [s.ring.top] }
    else some (s.goto proc (.locked .readDone))
  | .readDone => s.wakeup proc .nwrite (.locked .leave)
  | .closeStart writable =>
    some { s.goto proc (.locked (.closeWakeup writable)) with
      writeopen := !writable && s.writeopen
      readopen := writable && s.readopen }
  | .closeWakeup writable =>
    s.wakeup proc (if writable then .nread else .nwrite) (.locked .closeEnd)
  | .closeEnd =>
    some { s.goto proc .idle with
      lock := none
      freed := s.freed || !s.readopen && !s.writeopen }
  | .leave => some { s.goto proc .idle with lock := none }

/-- The code of `sleep`. -/
def inSleep (s : State Process) (proc : Process) (sleeper : Sleeper) :
    Phase → Option (State Process)
  | .ptable =>
    if s.ptableLock = none then
      some { s.goto proc (.sleep sleeper .release) with
        ptableLock := some proc }
    else none
  | .release => some { s.goto proc (.sleep sleeper .sched) with lock := none }
  | .sched =>
    some { s.goto proc (.sleep sleeper .sleeping) with
      ptableLock := none }
  | .sleeping => none
  | .reacquire => s.acquire proc sleeper.resume

/-- One step of the system. -/
def step [Fintype Process] (s : State Process) : Action Process → Option (State Process)
  | .write proc addr =>
    if s.location proc = .idle ∧
        s.descriptor true proc = true then
      some { s.goto proc (.acquire (.write addr)) with
        calls := Function.update s.calls proc (s.calls proc ++ [addr]) }
    else none
  | .read proc n =>
    if s.location proc = .idle ∧
        s.descriptor false proc = true then
      some (s.goto proc (.acquire (.read n)))
    else none
  | .close proc writable =>
    if s.location proc = .idle ∧
        s.descriptor writable proc = true then
      let given := { s with
        descriptor := Function.update s.descriptor writable
          (Function.update (s.descriptor writable) proc false) }
      if ∃ other, given.descriptor writable other = true then some given
      else some (given.goto proc (.acquire (.close writable)))
    else none
  | .share proc child writable =>
    if s.location proc = .idle ∧ s.location child = .idle ∧
        s.descriptor writable proc = true then
      some { s with
        descriptor := Function.update s.descriptor writable
          (Function.update (s.descriptor writable) child true) }
    else none
  | .advance proc =>
    match s.location proc with
    | .idle => none
    | .acquire call => s.acquire proc call.start
    | .locked place => s.inside proc place
    | .sleep sleeper phase => s.inSleep proc sleeper phase
  | .kill proc =>
    if s.ptableLock = none then
      let marked := { s with
        killed := Function.update s.killed proc true }
      match s.location proc with
      | .sleep sleeper .sleeping => some (marked.goto proc (.sleep sleeper .reacquire))
      | _ => some marked
    else none

end State

/-- A pipe with both ends open in one process, with nothing in it and both
counters at `counter`. -/
def opened (counter : BitVec 32) (data : Fin pipesize → Byte)
    (owner : Process) : State Process where
  ring := Ring.empty counter data
  readopen := true
  writeopen := true
  lock := none
  ptableLock := none
  location := fun _ => .idle
  calls := fun _ => []
  stored := []
  delivered := []
  killed := fun _ => false
  descriptor := fun _ proc => proc = owner
  freed := false

/-- The pipe that `pipealloc` makes in a page with any contents. -/
def pipealloc (data : Fin pipesize → Byte) (owner : Process) : State Process :=
  opened 0 data owner

end Xv6.Pipe
