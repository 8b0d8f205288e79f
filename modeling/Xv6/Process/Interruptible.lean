import Xv6.Console.LineDiscipline
import Xv6.Pipe.Protocol
import Xv6.Process.Exit

/-!
# Interruptible waits

The loops of `piperead`, `pipewrite`, `consoleread`, `sys_sleep` and `wait` that
test `killed` before they sleep, with `kill`.  A step is a section under the lock
that the loop passes to `sleep`, or one of the stages of `sleep`.  Only `wait`
tests `killed` under `ptable.lock`, which `kill` takes; in the other loops `kill`
may come between the test and the sleep.
-/

namespace Xv6.Interruptible

open Function
open Foundation (Ring)
open Foundation.Transition (run Along run_invariant_along Exclusive)
open Process (Slot Proc Table Chan zombieChild havekids wakeup1 exitTable
  set_self set_of_ne wakeup1_apply exitTable_of_ne exitTable_zombie
  exitTable_pid_killed)

/-- The locks that the loops pass to `sleep`. -/
inductive Lock
  /-- `p->lock` of a pipe. -/
  | pipe (index : Nat)
  /-- `cons.lock`. -/
  | cons
  /-- `tickslock`. -/
  | ticks
  /-- `ptable.lock`. -/
  | ptable
  deriving DecidableEq

/-- What the loops sleep on, besides the address of the process. -/
inductive Channel
  | nread (pipe : Nat)
  | nwrite (pipe : Nat)
  | input
  | ticks

/-- A number for each channel. -/
def Channel.address : Channel → Nat
  | nread pipe => 4 * pipe
  | nwrite pipe => 4 * pipe + 1
  | input => 2
  | ticks => 3

/-- `struct pipe` without its lock. -/
structure PipeData where
  ring : Ring Byte 32 Pipe.pipesize
  readopen : Bool
  writeopen : Bool

/-- A call with its arguments. -/
inductive Start
  | piperead (pipe n : Nat)
  | pipewrite (pipe : Nat) (addr : List Byte)
  | consoleread (n : Nat)
  | sysSleep (n : BitVec 32)
  | wait
  deriving DecidableEq

/-- A call at the head of its loop. -/
inductive Call
  | piperead (pipe n : Nat)
  /-- `i` bytes are stored. -/
  | pipewrite (pipe : Nat) (addr : List Byte) (i : Nat)
  /-- `n` of `target` bytes are missing. -/
  | consoleread (n target : Nat)
  | sysSleep (n ticks0 : BitVec 32)
  | wait
  deriving DecidableEq

/-- The lock that the loop holds. -/
def Call.lock : Call → Lock
  | piperead pipe _ | pipewrite pipe _ _ => .pipe pipe
  | consoleread _ _ => .cons
  | sysSleep _ _ => .ticks
  | wait => .ptable

/-- What the loop sleeps on. -/
def Call.chan (slot : Slot) : Call → Chan
  | piperead pipe _ => .other (Channel.nread pipe).address
  | pipewrite pipe _ _ => .other (Channel.nwrite pipe).address
  | consoleread _ _ => .other Channel.input.address
  | sysSleep _ _ => .other Channel.ticks.address
  | wait => .proc slot

/-- The call at the first pass of its loop. -/
def Start.call (ticks : BitVec 32) : Start → Call
  | piperead pipe n => .piperead pipe n
  | pipewrite pipe addr => .pipewrite pipe addr 0
  | consoleread n => .consoleread n n
  | sysSleep n => .sysSleep n ticks
  | wait => .wait

/-- How far a process is in `sleep`. -/
inductive Phase
  /-- Before `acquire(&ptable.lock)`. -/
  | ptable
  /-- Before `release(lk)`. -/
  | release
  /-- Before it is `SLEEPING`. -/
  | sched
  /-- In `sched`, `SLEEPING` or awakened. -/
  | sleeping
  /-- Before `acquire(lk)`. -/
  | reacquire
  deriving DecidableEq

/-- Where a process is. -/
inductive Location
  /-- In none of the loops. -/
  | idle
  /-- At the start of a call, before `acquire`. -/
  | acquire (start : Start)
  /-- At the head of a loop, holding its lock. -/
  | loop (call : Call)
  /-- In `sleep`. -/
  | sleep (call : Call) (phase : Phase)
  /-- Past a loop, holding its lock. -/
  | leave (call : Call)
  deriving DecidableEq

/-- The process table, what the loops read, the locks and the processes. -/
structure State where
  table : Table
  initproc : Slot
  pipes : Nat → PipeData
  input : Console.Input Slot
  ticks : BitVec 32
  lock : Lock → Option Slot
  location : Slot → Location

/-- What happens next. -/
inductive Action
  /-- A process starts a call. -/
  | call (slot : Slot) (start : Start)
  /-- A process continues where it is. -/
  | advance (slot : Slot)
  | kill (pid : BitVec 32)
  /-- Some code wakes the sleepers on a channel. -/
  | wakeup (channel : Channel)
  /-- `consoleintr` with one character. -/
  | type (c : Byte)
  /-- The timer interrupt. -/
  | tick
  /-- `pipeclose`. -/
  | close (pipe : Nat) (writable : Bool)
  /-- `fork` makes a child. -/
  | fork (slot child : Slot) (pid : BitVec 32)
  | exit (slot : Slot)

namespace State

/-- Move one process. -/
def goto (state : State) (slot : Slot) (target : Location) : State :=
  { state with location := update state.location slot target }

/-- Give a lock to a process, or to nobody. -/
def setLock (state : State) (lock : Lock) (holder : Option Slot) : State :=
  { state with lock := update state.lock lock holder }

/-- Change one entry of the table. -/
def setProc (state : State) (slot : Slot) (proc : Proc) : State :=
  { state with table := state.table.set slot proc }

/-- Change one pipe. -/
def setRing (state : State) (pipe : Nat) (ring : Ring Byte 32 Pipe.pipesize) : State :=
  { state with
    pipes := update state.pipes pipe
      { state.pipes pipe with ring := ring } }

/-- The condition of the loop. -/
def Blocked (state : State) (slot : Slot) : Call → Prop
  | .piperead pipe _ => (state.pipes pipe).ring.Empty ∧ (state.pipes pipe).writeopen = true
  | .pipewrite pipe addr i => i < addr.length ∧ (state.pipes pipe).ring.Full
  | .consoleread n _ => 0 < n ∧ state.input.r = state.input.w
  | .sysSleep n ticks0 => (state.ticks - ticks0).toNat < n.toNat
  | .wait => zombieChild state.table slot = none

instance (state : State) (slot : Slot) (call : Call) : Decidable (state.Blocked slot call) :=
  match call with
  | .piperead _ _ | .pipewrite _ _ _ | .consoleread _ _ => inferInstanceAs (Decidable (_ ∧ _))
  | .sysSleep _ _ => inferInstanceAs (Decidable (_ < _))
  | .wait => inferInstanceAs (Decidable (_ = _))

/-- The test in the loop that ends the call. -/
def Quits (state : State) (slot : Slot) (call : Call) : Prop :=
  (match call with
    | .pipewrite pipe _ _ => (state.pipes pipe).readopen = false
    | .wait => ¬ havekids state.table slot
    | _ => False) ∨
    (state.table slot).killed = true

instance (state : State) (slot : Slot) (call : Call) : Decidable (state.Quits slot call) :=
  match call with
  | .piperead _ _ | .consoleread _ _ | .sysSleep _ _ => inferInstanceAs (Decidable (False ∨ _))
  | .pipewrite _ _ _ => inferInstanceAs (Decidable (_ = _ ∨ _))
  | .wait => inferInstanceAs (Decidable (¬ _ ∨ _))

/-- What the call does when its loop does not block. -/
def proceed (state : State) (slot : Slot) (call : Call) : State :=
  match call with
  | .piperead pipe n =>
    let ring := (state.pipes pipe).ring
    (state.setRing pipe (Ring.pop^[min n ring.count] ring)).goto slot (.leave call)
  | .pipewrite pipe addr i =>
    match addr[i]? with
    | none => state.goto slot (.leave call)
    | some byte =>
      (state.setRing pipe ((state.pipes pipe).ring.push byte)).goto slot
        (.loop (.pipewrite pipe addr (i + 1)))
  | .consoleread n target =>
    let c := state.input.buf (Ring.cell state.input.r)
    let taken := { state with
      input := { state.input with r := state.input.r + 1 } }
    if n = 0 then state.goto slot (.leave call)
    else if c = 4 then
      -- ^D is kept for the next call when something was read
      if n < target then state.goto slot (.leave call)
      else taken.goto slot (.leave call)
    else if c = 10 then taken.goto slot (.leave call)
    else taken.goto slot (.loop (.consoleread (n - 1) target))
  | .sysSleep _ _ => state.goto slot (.leave call)
  | .wait =>
    match zombieChild state.table slot with
    | none => state
    | some child => (state.setProc child (state.table child).reap).goto slot (.leave call)

/-- A process goes to sleep and gives up `ptable.lock`. -/
def fallAsleep (state : State) (slot : Slot) (call : Call) : State :=
  ((state.setProc slot ((state.table slot).sleep (call.chan slot))).setLock
    .ptable none).goto slot (.sleep call .sleeping)

/-- One pass of a loop. -/
def pass (state : State) (slot : Slot) (call : Call) : State :=
  if state.Blocked slot call then
    if state.Quits slot call then state.goto slot (.leave call)
    else if call = .wait then state.fallAsleep slot call
    else state.goto slot (.sleep call .ptable)
  else state.proceed slot call

/-- The stages of `sleep`. -/
def inSleep (state : State) (slot : Slot) (call : Call) : Phase → Option State
  | .ptable =>
    if state.lock .ptable = none then
      some ((state.setLock .ptable (some slot)).goto slot (.sleep call .release))
    else none
  | .release => some ((state.setLock call.lock none).goto slot (.sleep call .sched))
  | .sched => some (state.fallAsleep slot call)
  | .sleeping =>
    -- the scheduler runs the process, which tidies up
    if (state.table slot).state = .runnable ∧ state.lock .ptable = none then
      let tidy := state.setProc slot
        { state.table slot with state := .running, chan := none }
      if call = .wait then
        some ((tidy.setLock .ptable (some slot)).goto slot (.loop call))
      else some (tidy.goto slot (.sleep call .reacquire))
    else none
  | .reacquire =>
    if state.lock call.lock = none then
      some ((state.setLock call.lock (some slot)).goto slot (.loop call))
    else none

/-- A process continues. -/
def advance (state : State) (slot : Slot) : Option State :=
  match state.location slot with
  | .idle => none
  | .acquire start =>
    let call := start.call state.ticks
    if state.lock call.lock = none then
      some ((state.setLock call.lock (some slot)).goto slot (.loop call))
    else none
  | .loop call => some (state.pass slot call)
  | .sleep call phase => state.inSleep slot call phase
  | .leave call => some ((state.setLock call.lock none).goto slot .idle)

/-- The process runs and is in none of the loops. -/
def Free (state : State) (slot : Slot) : Prop :=
  state.location slot = .idle ∧ (state.table slot).state = .running

instance (state : State) (slot : Slot) : Decidable (state.Free slot) :=
  inferInstanceAs (Decidable (_ ∧ _))

/-- One step of the system. -/
def step (state : State) : Action → Option State
  | .call slot start =>
    if state.Free slot then some (state.goto slot (.acquire start))
    else none
  | .advance slot => state.advance slot
  | .kill pid =>
    if state.lock .ptable = none then
      some { state with table := (Process.kill state.table pid).2 }
    else none
  | .wakeup channel =>
    if state.lock .ptable = none then
      some { state with
        table := wakeup1 state.table (.other channel.address) }
    else none
  | .type c =>
    if state.lock .cons = none then
      some { state with input := (state.input.handle c).1 }
    else none
  | .tick =>
    if state.lock .ticks = none then
      some { state with ticks := state.ticks + 1 }
    else none
  | .close pipe writable =>
    if state.lock (.pipe pipe) = none then
      some { state with
        pipes := update state.pipes pipe
          { state.pipes pipe with
            writeopen := !writable && (state.pipes pipe).writeopen
            readopen := writable && (state.pipes pipe).readopen } }
    else none
  | .fork slot child pid =>
    if state.Free slot ∧ (state.table child).state = .unused ∧
        state.lock .ptable = none then
      some ((state.setProc child { state.table child with
        state := .running
        pid := pid
        parent := some slot
        priority := 0 }).goto child .idle)
    else none
  | .exit slot =>
    if state.Free slot ∧ slot ≠ state.initproc ∧
        state.lock .ptable = none then
      some { state with
        table := exitTable state.table slot state.initproc }
    else none

end State

/-! ## The invariant -/

namespace Location

/-- The process holds `ptable.lock`. -/
def holdsPtable : Location → Bool
  | loop .wait | leave .wait | sleep _ .release | sleep _ .sched => true
  | _ => false

/-- The process has passed the test of `killed` and will sleep. -/
def bound : Location → Bool
  | sleep _ .ptable | sleep _ .release | sleep _ .sched => true
  | _ => false

/-- The process has passed the test of `killed` and does not yet hold
`ptable.lock`. -/
def exposed : Location → Bool
  | sleep _ .ptable => true
  | _ => false

/-- `wait` sleeps with the lock it holds. -/
def proper : Location → Bool
  | sleep call phase => phase = .sleeping || call ≠ .wait
  | _ => true

end Location

variable {call : Call}

theorem lock_ne (other : call ≠ .wait) : call.lock ≠ .ptable := by
  cases call with
  | wait => exact absurd rfl other
  | piperead | pipewrite | consoleread | sysSleep => exact nofun

/-- No process goes to sleep, and none is killed. -/
def Soft (table after : Table) : Prop :=
  ∀ slot, ((after slot).state = .sleeping → (table slot).state = .sleeping) ∧
    ((after slot).killed = true → (table slot).killed = true)

/-- What holds in every state of every run. -/
structure Alert (state : State) : Prop where
  /-- Exactly the holder of `ptable.lock` is in a section under it. -/
  ptable : Exclusive Location.holdsPtable state.location (state.lock .ptable)
  proper : ∀ slot, (state.location slot).proper = true
  /-- Who is about to sleep is not killed. -/
  bound : ∀ slot, (state.location slot).bound = true → (state.table slot).killed = false
  /-- Who sleeps is not killed. -/
  asleep : ∀ slot, (state.table slot).state = .sleeping → (state.table slot).killed = false

variable {state next : State}

section Preservation

variable {slot : Slot} {target : Location}

theorem soft_refl (table : Table) : Soft table table :=
  fun _ => ⟨id, id⟩

theorem soft_set {table : Table} {proc : Proc}
    (awake : proc.state = .sleeping → (table slot).state = .sleeping)
    (unkilled : proc.killed = true → (table slot).killed = true) :
    Soft table (table.set slot proc) := by
  intro other
  by_cases same : other = slot
  · subst same
    rw [set_self]
    exact ⟨awake, unkilled⟩
  · rw [set_of_ne same]
    exact ⟨id, id⟩

theorem soft_wakeup1 (table : Table) (chan : Chan) : Soft table (wakeup1 table chan) := by
  intro slot
  rcases wakeup1_apply table chan slot with same | ⟨asleep, -, awake⟩
  · rw [same]
    exact ⟨id, id⟩
  · rw [awake]
    exact ⟨nofun, id⟩

theorem soft_exitTable (table : Table) (curproc initproc : Slot) :
    Soft table (exitTable table curproc initproc) := by
  intro slot
  refine ⟨fun asleep => ?_, fun killed => ?_⟩
  · by_cases same : slot = curproc
    · subst same
      rw [exitTable_zombie] at asleep
      cases asleep
    · rcases (exitTable_of_ne table curproc initproc same).state with ⟨before, -⟩ | ⟨before, -⟩
      · exact before.symm.trans asleep
      · exact before
  · rwa [(exitTable_pid_killed _ _ _ _).2] at killed

theorem Soft.killed {table after : Table} (soft : Soft table after)
    (unkilled : (table slot).killed = false) : (after slot).killed = false := by
  by_contra killed
  rw [(soft slot).2 (by simpa using killed)] at unkilled
  cases unkilled

theorem Alert.move (alert : Alert state) (soft : Soft state.table next.table)
    (location : next.location = update state.location slot target)
    (ptable : Exclusive Location.holdsPtable next.location (next.lock .ptable))
    (proper : target.proper = true)
    (bound : target.bound = true → (state.table slot).killed = false) : Alert next where
  ptable := ptable
  proper := by
    intro other
    rw [location]
    by_cases same : other = slot
    · subst same
      rwa [update_self]
    · rw [update_of_ne same]
      exact alert.proper other
  bound := by
    intro other here
    apply soft.killed
    rw [location] at here
    by_cases same : other = slot
    · subst same
      rw [update_self] at here
      exact bound here
    · rw [update_of_ne same] at here
      exact alert.bound other here
  asleep := fun other asleep =>
    soft.killed (alert.asleep other ((soft other).1 asleep))

/-- Nobody moves or goes to sleep. -/
theorem Alert.stay (alert : Alert state) (soft : Soft state.table next.table)
    (location : next.location = state.location) (lock : next.lock = state.lock) : Alert next where
  ptable := by
    rw [location, lock]
    exact alert.ptable
  proper := by
    rw [location]
    exact alert.proper
  bound := by
    intro other here
    rw [location] at here
    exact soft.killed (alert.bound other here)
  asleep := fun other asleep =>
    soft.killed (alert.asleep other ((soft other).1 asleep))

/-- A process takes the lock of its loop. -/
theorem Alert.enter (call : Call) (alert : Alert state) (free : state.lock call.lock = none)
    (outside : (state.location slot).holdsPtable = false) :
    Alert ((state.setLock call.lock (some slot)).goto slot (.loop call)) := by
  refine alert.move (soft_refl _) rfl ?_ rfl nofun
  by_cases same : call = .wait
  · subst same
    have ptable := alert.ptable
    rw [show state.lock .ptable = none from free] at ptable
    simp only [State.goto, State.setLock, Call.lock, update_self]
    exact ptable.enter rfl
  · simp only [State.goto, State.setLock, update_of_ne (lock_ne same).symm]
    refine alert.ptable.move ?_
    rw [outside]
    cases call with
    | wait => exact absurd rfl same
    | piperead | pipewrite | consoleread | sysSleep => rfl

/-- A process gives the lock of its loop back. -/
theorem Alert.leave (alert : Alert state) (place : state.location slot = .leave call) :
    Alert ((state.setLock call.lock none).goto slot .idle) := by
  refine alert.move (soft_refl _) rfl ?_ rfl nofun
  by_cases same : call = .wait
  · subst same
    simp only [State.goto, State.setLock, Call.lock, update_self]
    refine alert.ptable.leave ?_ rfl
    rw [place]
    rfl
  · simp only [State.goto, State.setLock, update_of_ne (lock_ne same).symm]
    refine alert.ptable.move ?_
    rw [place]
    cases call with
    | wait => exact absurd rfl same
    | piperead | pipewrite | consoleread | sysSleep => rfl

/-- A process goes to sleep under `ptable.lock`. -/
theorem Alert.fallAsleep (alert : Alert state) (held : (state.location slot).holdsPtable = true)
    (unkilled : (state.table slot).killed = false) : Alert (state.fallAsleep slot call) where
  ptable := by
    simp only [State.fallAsleep, State.goto, State.setLock, update_self]
    exact alert.ptable.leave held rfl
  proper := by
    intro other
    simp only [State.fallAsleep, State.goto, State.setLock, State.setProc]
    by_cases same : other = slot
    · subst same
      rw [update_self]
      rfl
    · rw [update_of_ne same]
      exact alert.proper other
  bound := by
    intro other here
    simp only [State.fallAsleep, State.goto, State.setLock, State.setProc] at here ⊢
    by_cases same : other = slot
    · subst same
      rw [update_self] at here
      cases here
    · rw [update_of_ne same] at here
      rw [set_of_ne same]
      exact alert.bound other here
  asleep := by
    intro other here
    simp only [State.fallAsleep, State.goto, State.setLock, State.setProc] at here ⊢
    by_cases same : other = slot
    · subst same
      rw [set_self]
      exact unkilled
    · rw [set_of_ne same] at here ⊢
      exact alert.asleep other here

theorem holdsPtable_leave (call : Call) :
    (Location.leave call).holdsPtable = (Location.loop call).holdsPtable := by
  cases call <;> rfl

/-- A call moves on in its critical section. -/
theorem Alert.within (alert : Alert state)
    (place : state.location slot = .loop call) (soft : Soft state.table next.table)
    (location : next.location = update state.location slot target) (lock : next.lock = state.lock)
    (holds : target.holdsPtable = (Location.loop call).holdsPtable) (proper : target.proper = true)
    (bound : target.bound = true → (state.table slot).killed = false) : Alert next := by
  refine alert.move soft location ?_ proper bound
  rw [location, lock]
  refine alert.ptable.move ?_
  rw [place]
  exact holds

theorem Alert.proceed (alert : Alert state)
    (place : state.location slot = .loop call) : Alert (state.proceed slot call) := by
  have loose : ∀ {p : Prop}, false = true → p := fun same => absurd same Bool.false_ne_true
  cases call with
  | piperead pipe n => exact alert.within place (soft_refl _) rfl rfl rfl rfl loose
  | pipewrite pipe addr i =>
    simp only [State.proceed]
    split <;> exact alert.within place (soft_refl _) rfl rfl rfl rfl loose
  | consoleread n target =>
    simp only [State.proceed]
    repeat' split
    all_goals exact alert.within place (soft_refl _) rfl rfl rfl rfl loose
  | sysSleep n ticks0 => exact alert.within place (soft_refl _) rfl rfl rfl rfl loose
  | wait =>
    simp only [State.proceed]
    split
    · exact alert
    · have reaped : ∀ {p : Prop}, Process.State.unused = .sleeping → p :=
        fun same => absurd same (by decide)
      exact alert.within place (soft_set reaped loose) rfl rfl rfl rfl loose

theorem Alert.pass (alert : Alert state)
    (place : state.location slot = .loop call) : Alert (state.pass slot call) := by
  unfold State.pass
  split
  case isFalse => exact alert.proceed place
  case isTrue =>
    split
    case isTrue => exact alert.within place (soft_refl _) rfl rfl (holdsPtable_leave call) rfl nofun
    case isFalse goesOn =>
      have unkilled : (state.table slot).killed = false := by
        simpa using (not_or.mp goesOn).2
      split
      case isTrue same =>
        subst same
        refine alert.fallAsleep ?_ unkilled
        rw [place]
        rfl
      case isFalse other =>
        refine alert.within place (soft_refl _) rfl rfl ?_
          (by simp [Location.proper, other]) fun _ => unkilled
        cases call with
        | wait => exact absurd rfl other
        | piperead | pipewrite | consoleread | sysSleep => rfl

theorem Alert.inSleep {phase : Phase} (alert : Alert state)
    (place : state.location slot = .sleep call phase)
    (taken : state.inSleep slot call phase = some next) : Alert next := by
  have proper := alert.proper slot
  have bound := alert.bound slot
  rw [place] at proper bound
  cases phase with
  | ptable =>
    obtain ⟨free, ⟨⟩⟩ := Option.ite_none_right_eq_some.mp taken
    have ptable := alert.ptable
    rw [free] at ptable
    refine alert.move (soft_refl _) rfl ?_ proper bound
    simp only [State.goto, State.setLock, update_self]
    exact ptable.enter rfl
  | release =>
    cases taken
    have other : call ≠ .wait := by simpa [Location.proper] using proper
    refine alert.move (soft_refl _) rfl ?_ proper bound
    simp only [State.goto, State.setLock, update_of_ne (lock_ne other).symm]
    refine alert.ptable.move ?_
    rw [place]
    rfl
  | sched =>
    cases taken
    refine alert.fallAsleep ?_ (bound rfl)
    rw [place]
    rfl
  | sleeping =>
    obtain ⟨ready, taken⟩ := Option.ite_none_right_eq_some.mp taken
    have tidy : Alert (state.setProc slot { state.table slot with
        state := .running, chan := none }) :=
      alert.stay (soft_set nofun id) rfl rfl
    have here : (state.location slot).holdsPtable = false := by
      rw [place]
      rfl
    split at taken
    case isTrue same =>
      subst same
      cases taken
      exact tidy.enter .wait ready.2 here
    case isFalse other =>
      cases taken
      refine tidy.move (soft_refl _) rfl ?_ (by simp [Location.proper, other]) nofun
      exact tidy.ptable.move here.symm
  | reacquire =>
    obtain ⟨free, ⟨⟩⟩ := Option.ite_none_right_eq_some.mp taken
    refine alert.enter _ free ?_
    rw [place]
    rfl

/-- A process continues. -/
theorem Alert.advance (alert : Alert state) (taken : state.advance slot = some next) :
    Alert next := by
  unfold State.advance at taken
  split at taken
  case h_1 => cases taken
  case h_2 start place =>
    obtain ⟨free, ⟨⟩⟩ := Option.ite_none_right_eq_some.mp taken
    refine alert.enter _ free ?_
    rw [place]
    rfl
  case h_3 call place =>
    cases taken
    exact alert.pass place
  case h_4 call phase place => exact alert.inSleep place taken
  case h_5 call place =>
    cases taken
    exact alert.leave place

end Preservation

/-- `kill` does not find a process between its test of `killed` and
`acquire(&ptable.lock)` in `sleep`. -/
def Careful (state : State) : Action → Prop
  | .kill pid => ∀ slot, Process.first (fun slot => (state.table slot).pid = pid) = some slot →
        (state.location slot).exposed = false
  | _ => True

instance (state : State) (action : Action) : Decidable (Careful state action) :=
  match action with
  | .kill _ => inferInstanceAs (Decidable (∀ _, _ → _))
  | .call _ _ | .advance _ | .wakeup _ | .type _ | .tick | .close _ _
  | .fork _ _ _ | .exit _ => inferInstanceAs (Decidable True)

section Run

/-- `kill` wakes who sleeps, and finds nobody who is about to. -/
theorem Alert.kill {pid : BitVec 32} (alert : Alert state)
    (careful : Careful state (.kill pid)) (free : state.lock .ptable = none) :
    Alert { state with table := (Process.kill state.table pid).2 } := by
  unfold Process.kill
  split
  case h_1 => exact alert
  case h_2 slot found =>
    have unbound : (state.location slot).bound = false := by
      by_contra bound
      have outside := alert.ptable
      rw [free] at outside
      have notHeld := outside.outside slot
      cases place : state.location slot with
      | sleep call phase =>
        rw [place] at bound notHeld
        cases phase with
        | ptable =>
          have hidden := careful slot found
          rw [place] at hidden
          cases hidden
        | release | sched => cases notHeld
        | sleeping | reacquire => exact bound rfl
      | idle | acquire | loop | leave =>
        rw [place] at bound
        exact bound rfl
    refine ⟨alert.ptable, alert.proper, fun other here => ?_,
      fun other asleep => ?_⟩
    · have apart : other ≠ slot := by
        rintro rfl
        rw [unbound] at here
        cases here
      dsimp only
      rw [set_of_ne apart]
      exact alert.bound other here
    · dsimp only at asleep ⊢
      by_cases same : other = slot
      · subst same
        rw [set_self] at asleep
        simp only [Proc.kill] at asleep
        split at asleep
        case isTrue => cases asleep
        case isFalse awake => exact absurd asleep awake
      · rw [set_of_ne same] at asleep ⊢
        exact alert.asleep other asleep

theorem Alert.step {action : Action} (alert : Alert state)
    (careful : Careful state action) (taken : state.step action = some next) : Alert next := by
  cases action with
  | call slot start =>
    obtain ⟨free, ⟨⟩⟩ := Option.ite_none_right_eq_some.mp taken
    refine alert.move (soft_refl _) rfl ?_ rfl nofun
    refine alert.ptable.move ?_
    rw [free.1]
    rfl
  | advance slot => exact alert.advance taken
  | kill pid =>
    obtain ⟨free, ⟨⟩⟩ := Option.ite_none_right_eq_some.mp taken
    exact alert.kill careful free
  | wakeup channel =>
    obtain ⟨-, ⟨⟩⟩ := Option.ite_none_right_eq_some.mp taken
    exact alert.stay (soft_wakeup1 _ _) rfl rfl
  | type c | tick | close pipe writable =>
    obtain ⟨-, ⟨⟩⟩ := Option.ite_none_right_eq_some.mp taken
    exact alert.stay (soft_refl _) rfl rfl
  | fork slot child pid =>
    obtain ⟨ready, ⟨⟩⟩ := Option.ite_none_right_eq_some.mp taken
    refine alert.move (soft_set nofun id) rfl ?_ rfl nofun
    have ptable := alert.ptable
    rw [ready.2.2] at ptable
    have same : (state.setProc child { state.table child with
        state := .running
        pid := pid
        parent := some slot
        priority := 0 }).lock .ptable = none := ready.2.2
    simp only [State.goto]
    rw [same]
    refine ptable.move ?_
    rw [ptable.outside child]
    rfl
  | exit slot =>
    obtain ⟨-, ⟨⟩⟩ := Option.ite_none_right_eq_some.mp taken
    exact alert.stay (soft_exitTable _ _ _) rfl rfl

end Run

/-- Nobody is in a loop, holds a lock or sleeps. -/
def State.Quiet (state : State) : Prop :=
  (∀ slot, state.location slot = .idle) ∧ (∀ lock, state.lock lock = none) ∧
    ∀ slot, (state.table slot).state ≠ .sleeping

theorem State.Quiet.alert {state : State} (quiet : state.Quiet) : Alert state where
  ptable := by
    intro slot
    rw [quiet.1 slot, quiet.2.1]
    exact iff_of_false nofun nofun
  proper := by
    intro slot
    rw [quiet.1 slot]
    rfl
  bound := by
    intro slot here
    rw [quiet.1 slot] at here
    cases here
  asleep := fun slot asleep => absurd asleep (quiet.2.2 slot)

/-- In every run in which `kill` finds no process between its test of `killed`
and `acquire(&ptable.lock)` in `sleep`, no process that is `SLEEPING` is killed,
in any of the loops and in every state. -/
theorem unkilled_of_run {start final : State} {actions : List Action} (quiet : start.Quiet)
    (ended : run State.step start actions = some final)
    (careful : Along State.step Careful start actions) (slot : Slot)
    (asleep : (final.table slot).state = .sleeping) : (final.table slot).killed = false := by
  have alert : Alert final :=
    run_invariant_along Alert (fun _ _ _ alert careful taken => alert.step careful taken)
      quiet.alert careful ended
  exact alert.asleep slot asleep

/-- Three processes run, with an empty pipe and no input. -/
def threeProcesses : State where
  table := fun slot =>
    if slot < 3 then
      { Proc.zero with
        state := .running
        pid := BitVec.ofNat 32 (slot.val + 1)
        parent := if slot = 0 then none else some 0 }
    else Proc.zero
  initproc := 0
  pipes := fun _ => ⟨Ring.empty 0 fun _ => 0, true, true⟩
  input := ⟨fun _ => 0, 0, 0, 0, [], [], fun _ => []⟩
  ticks := 0
  lock := fun _ => none
  location := fun _ => .idle

theorem quiet_threeProcesses : threeProcesses.Quiet :=
  ⟨fun _ => rfl, fun _ => rfl, by decide⟩

/-- Process 1 sleeps in `piperead` and process 2 in `sys_sleep`; then process 1
is killed. -/
def killedAsleep : List Action :=
  [.call 1 (.piperead 0 1)] ++ List.replicate 5 (.advance 1) ++
    [.call 2 (.sysSleep 5)] ++ List.replicate 5 (.advance 2) ++ [.kill 2]

theorem unkilled_killedAsleep : ∃ final, run State.step threeProcesses killedAsleep = some final ∧
      (final.table 1).state = .runnable ∧
      (final.table 2).state = .sleeping ∧
      (final.table 2).killed = false := by
  have seen : (run State.step threeProcesses killedAsleep).map
      (fun final => ((final.table 1).state, (final.table 2).state)) =
        some (.runnable, .sleeping) := by
    decide +kernel
  obtain ⟨final, ended, same⟩ := Option.map_eq_some_iff.mp seen
  have asleep := congrArg Prod.snd same
  exact ⟨final, ended, congrArg Prod.fst same, asleep,
    unkilled_of_run quiet_threeProcesses ended (by decide +kernel) 2 asleep⟩

/-- Process 1 is killed right after `piperead` has tested `killed`. -/
def killedAwake : List Action :=
  [.call 1 (.piperead 0 1), .advance 1, .advance 1, .kill 2] ++ List.replicate 3 (.advance 1)

/-- The process sleeps in the loop although it is killed, and the locks are
free. -/
theorem killed_asleep : ∃ final, run State.step threeProcesses killedAwake = some final ∧
      final.location 1 = .sleep (.piperead 0 1) .sleeping ∧
      (final.table 1).state = .sleeping ∧
      (final.table 1).killed = true ∧
      final.lock .ptable = none ∧ final.lock (.pipe 0) = none := by
  have seen : (run State.step threeProcesses killedAwake).map
      (fun final => (final.location 1, (final.table 1).state,
        (final.table 1).killed, final.lock .ptable, final.lock (.pipe 0))) =
      some (.sleep (.piperead 0 1) .sleeping, .sleeping, true, none, none) := by
    decide +kernel
  obtain ⟨final, ended, same⟩ := Option.map_eq_some_iff.mp seen
  simp only [Prod.mk.injEq] at same
  exact ⟨final, ended, same⟩

end Xv6.Interruptible
