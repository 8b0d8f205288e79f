import Xv6.Disk.Block
import Xv6.Foundation.Monitor

/-!
# The interrupt-driven disk

`idestart`, `ideintr` and `iderw` of `ide.c`, by any number of processes that
hold distinct locked buffers, and the disk with its completion interrupts.  The
data of the monitor is the queue, the buffers and the disk, and its lock is
`idelock`.  The disk makes no errors, and all buffers are of device one.

The driver is compared with `iderw` of `memide.c`, which works on a disk in
memory and never waits.
-/

namespace Xv6.Ide

open Foundation.Monitor
open Foundation.Transition (run)

/-- `FSSIZE`, the blocks of the disk. -/
abbrev fssize : Nat := 2000

/-- The blocks on a disk. -/
abbrev Disk := Nat → Block

/-- What the driver reads and writes of a `struct buf`: the flags `B_VALID` and
`B_DIRTY`, the block number and the data. -/
structure Fields where
  valid : Bool
  dirty : Bool
  blockno : Nat
  data : Block
  deriving DecidableEq

/-- `(b->flags & (B_VALID|B_DIRTY)) == B_VALID`. -/
def Fields.Done (fields : Fields) : Prop :=
  fields.valid = true ∧ fields.dirty = false

instance (fields : Fields) : Decidable fields.Done :=
  inferInstanceAs (Decidable (_ ∧ _))

/-- A command written to the disk controller. -/
inductive Command
  | read (blockno : Nat)
  | write (blockno : Nat) (data : Block)
  deriving DecidableEq

/-- The command that `idestart` issues for a buffer. -/
def Fields.command (fields : Fields) : Command :=
  if fields.dirty then .write fields.blockno fields.data
  else .read fields.blockno

/-- The disk after a command. -/
def Command.perform (disk : Disk) : Command → Disk
  | read _ => disk
  | write blockno data => Function.update disk blockno data

/-- The data the controller has for `insl` after a command. -/
def Command.fetch (disk : Disk) (sector : Block) : Command → Block
  | read blockno => disk blockno
  | write _ _ => sector

/-- `iderw` of `memide.c`, on a disk of `FSSIZE` blocks; nothing if it panics. -/
def memIderw (disk : Disk) (b : Fields) : Option (Disk × Fields) :=
  if b.Done then none
  else if fssize ≤ b.blockno then none
  else if b.dirty then
    some (Function.update disk b.blockno b.data, { b with dirty := false, valid := true })
  else some (disk, { b with data := disk b.blockno, valid := true })

/-- The calls of `iderw` of `memide.c` one after another: the disk in the end
and the buffers as the calls leave them. -/
def memRun {Buf : Type} (disk : Disk) : List (Buf × Fields) → Option (Disk × List (Buf × Fields))
  | [] => some (disk, [])
  | (b, fields) :: rest => do
    let (disk, fields) ← memIderw disk fields
    let (disk, results) ← memRun disk rest
    return (disk, (b, fields) :: results)

variable {Process Buf : Type}

/-- The driver and the disk.  `user` says who is in `iderw` with a buffer;
`requests` are the buffers in the order in which they were queued, `completed`
the buffers as the interrupts left them, and `returned` the requests whose call
has returned, with the buffer at that time.  The code reads none of these. -/
structure Driver (Process Buf : Type) where
  idequeue : List Buf
  bufs : Buf → Fields
  disk : Disk
  /-- The command the controller has. -/
  command : Option Command
  sector : Block
  /-- The command is done and its interrupt was raised. -/
  raised : Bool
  user : Buf → Option Process
  requests : List (Buf × Fields)
  completed : List (Buf × Fields)
  returned : List (Nat × Buf × Fields)

/-- Places in the code that runs under `idelock`. -/
inductive Place (Buf : Type)
  /-- `iderw`, before it queues its buffer. -/
  | queue (b : Buf) (fields : Fields)
  /-- `iderw`, at the head of its loop, for a request. -/
  | wait (b : Buf) (request : Nat)
  /-- `ideintr`, before it looks at the queue. -/
  | intr
  /-- `ideintr`, before its `wakeup`. -/
  | intrWakeup (b : Buf)
  /-- `ideintr`, before it starts the next request. -/
  | intrStart
  deriving DecidableEq

/-- The interrupt handler has taken a buffer off the queue and not yet started
the next one. -/
def Place.between : Place Buf → Bool
  | intrWakeup _ | intrStart => true
  | _ => false

namespace Driver

/-- `idestart`; nothing if it panics. -/
def idestart (ide : Driver Process Buf) (b : Buf) : Option (Driver Process Buf) :=
  if fssize ≤ (ide.bufs b).blockno then none
  else some { ide with command := some (ide.bufs b).command, raised := false }

/-- Append a buffer to `idequeue`. -/
def append (ide : Driver Process Buf) (b : Buf) : Driver Process Buf :=
  { ide with
    idequeue := ide.idequeue ++ [b]
    requests := ide.requests ++ [(b, ide.bufs b)] }

/-- The buffer of a request that the disk has done. -/
def served (ide : Driver Process Buf) (b : Buf) : Fields :=
  { ide.bufs b with
    valid := true
    dirty := false
    data := if (ide.bufs b).dirty then (ide.bufs b).data else ide.sector }

theorem idestart_eq_some {ide started : Driver Process Buf} {b : Buf}
    (starts : ide.idestart b = some started) :
    (ide.bufs b).blockno < fssize ∧
      started = { ide with
        command := some (ide.bufs b).command, raised := false } := by
  unfold idestart at starts
  split at starts
  case isTrue => cases starts
  case isFalse inside =>
    cases starts
    exact ⟨by omega, rfl⟩

variable [DecidableEq Buf]

/-- `ideintr` up to its `wakeup`, with a buffer at the head of the queue. -/
def complete (ide : Driver Process Buf) (b : Buf) (rest : List Buf) : Driver Process Buf :=
  { ide with
    idequeue := rest
    bufs := Function.update ide.bufs b (ide.served b)
    command := none
    raised := false
    completed := ide.completed ++ [(b, ide.served b)] }

/-- `iderw` returns. -/
def finish (ide : Driver Process Buf) (b : Buf) (request : Nat) : Driver Process Buf :=
  { ide with
    user := Function.update ide.user b none
    returned := ide.returned ++ [(request, b, ide.bufs b)] }

/-- A process calls `iderw` with a buffer it has locked. -/
def call (ide : Driver Process Buf) (proc : Process) (b : Buf)
    (fields : Fields) : Driver Process Buf :=
  { ide with
    bufs := Function.update ide.bufs b fields
    user := Function.update ide.user b (some proc) }

/-- The disk does the command and raises its interrupt. -/
def raise (ide : Driver Process Buf) (command : Command) : Driver Process Buf :=
  { ide with
    disk := command.perform ide.disk
    sector := command.fetch ide.disk ide.sector
    raised := true }

/-- A process may call `iderw` for a buffer that nobody else has locked and that
is not valid and clean; `ideintr` runs when the disk is done. -/
def starts (proc : Process) (ide : Driver Process Buf) : Place Buf → Option (Driver Process Buf)
  | .queue b fields =>
    if ide.user b = none ∧ ¬ fields.Done then
      some (ide.call proc b fields)
    else none
  | .intr =>
    match ide.command, ide.raised with
    | some command, false => some (ide.raise command)
    | _, _ => none
  | .wait _ _ | .intrWakeup _ | .intrStart => none

/-- The code that runs under `idelock`. -/
def inside (ide : Driver Process Buf) :
    Place Buf → Option (Outcome (Driver Process Buf) (Place Buf) Buf)
  | .queue b _ =>
    match ide.idequeue with
    | [] =>
      ((ide.append b).idestart b).map fun started =>
        .go started (.wait b ide.requests.length)
    | _ :: _ => some (.go (ide.append b) (.wait b ide.requests.length))
  | .wait b request =>
    if (ide.bufs b).Done then some (.leave (ide.finish b request))
    else some (.sleep b (.wait b request))
  | .intr =>
    match ide.idequeue with
    | [] => some (.leave ide)
    | b :: rest => some (.go (ide.complete b rest) (.intrWakeup b))
  | .intrWakeup b => some (.wakeup b .intrStart)
  | .intrStart =>
    match ide.idequeue with
    | [] => some (.leave ide)
    | b :: _ => (ide.idestart b).map .leave

/-- The driver as a monitor; a process sleeps on its buffer. -/
def code : Code Process (Driver Process Buf) (Place Buf) Buf where
  starts := starts
  inside := fun _ => inside

/-- The driver with nothing to do, before any request. -/
def init (disk : Disk) (bufs : Buf → Fields) (sector : Block) : Driver Process Buf where
  idequeue := []
  bufs := bufs
  disk := disk
  command := none
  sector := sector
  raised := false
  user := fun _ => none
  requests := []
  completed := []
  returned := []

/-- What the code does at each place. -/
inductive Does (ide : Driver Process Buf) :
    Place Buf → Outcome (Driver Process Buf) (Place Buf) Buf → Prop
  | start {b fields started} (idle : ide.idequeue = [])
      (starts : (ide.append b).idestart b = some started) :
      Does ide (.queue b fields) (.go started (.wait b ide.requests.length))
  | queue {b fields} (busy : ide.idequeue ≠ []) : Does ide (.queue b fields)
        (.go (ide.append b) (.wait b ide.requests.length))
  | finish {b request} (done : (ide.bufs b).Done) :
      Does ide (.wait b request) (.leave (ide.finish b request))
  | sleep {b request} (unfinished : ¬ (ide.bufs b).Done) :
      Does ide (.wait b request) (.sleep b (.wait b request))
  | spurious (idle : ide.idequeue = []) : Does ide .intr (.leave ide)
  | complete {b rest} (head : ide.idequeue = b :: rest) :
      Does ide .intr (.go (ide.complete b rest) (.intrWakeup b))
  | wakeup {b} : Does ide (.intrWakeup b) (.wakeup b .intrStart)
  | rest (idle : ide.idequeue = []) : Does ide .intrStart (.leave ide)
  | next {b rest started} (head : ide.idequeue = b :: rest)
      (starts : ide.idestart b = some started) :
      Does ide .intrStart (.leave started)

theorem does_of_inside {ide : Driver Process Buf} {place : Place Buf}
    {outcome : Outcome (Driver Process Buf) (Place Buf) Buf}
    (does : ide.inside place = some outcome) : Does ide place outcome := by
  cases place with
  | queue b fields =>
    simp only [inside] at does
    split at does
    case h_1 idle =>
      obtain ⟨started, starts, rfl⟩ := Option.map_eq_some_iff.mp does
      exact .start idle starts
    case h_2 busy =>
      cases does
      exact .queue (by simp [busy])
  | wait b request =>
    simp only [inside] at does
    split at does
    case isTrue done =>
      cases does
      exact .finish done
    case isFalse unfinished =>
      cases does
      exact .sleep unfinished
  | intr =>
    simp only [inside] at does
    split at does
    case h_1 idle =>
      cases does
      exact .spurious idle
    case h_2 head =>
      cases does
      exact .complete head
  | intrWakeup b =>
    cases does
    exact .wakeup
  | intrStart =>
    simp only [inside] at does
    split at does
    case h_1 idle =>
      cases does
      exact .rest idle
    case h_2 head =>
      obtain ⟨started, starts, rfl⟩ := Option.map_eq_some_iff.mp does
      exact .next head starts

/-- The two ways in. -/
theorem starts_cases {proc : Process} {ide next : Driver Process Buf} {place : Place Buf}
    (starts : starts proc ide place = some next) :
    (∃ b fields, place = .queue b fields ∧ ide.user b = none ∧
      ¬ fields.Done ∧ next = ide.call proc b fields) ∨
    (∃ command, place = .intr ∧ ide.command = some command ∧
      ide.raised = false ∧ next = ide.raise command) := by
  cases place with
  | queue b fields =>
    simp only [Driver.starts] at starts
    split at starts
    case isTrue allowed =>
      cases starts
      exact .inl ⟨b, fields, rfl, allowed.1, allowed.2, rfl⟩
    case isFalse => cases starts
  | intr =>
    simp only [Driver.starts] at starts
    split at starts
    case h_1 command raised issued quiet =>
      cases starts
      exact .inr ⟨_, rfl, issued, quiet, rfl⟩
    case h_2 => cases starts
  | wait _ _ | intrWakeup _ | intrStart => cases starts

end Driver

end Xv6.Ide
