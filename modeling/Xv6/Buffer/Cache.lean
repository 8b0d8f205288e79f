import Xv6.Foundation.Circular
import Xv6.Log.GroupCommit

/-!
# The buffer cache

`bio.c` over the memory disk of `memide.c`, as a transition system.  Any number
of processes read blocks, change the buffers they have locked with `log_write` or
`bwrite`, and release them.  A step is a section under `bcache.lock` or `log.lock`,
or what a process does with a buffer it has locked.  A commit reads, writes and
releases buffers as any process does; the step `commit` is its write of the log
header, which empties the list of uncommitted blocks.
-/

namespace Xv6.Buffer

open Foundation.Circular (Links follow)

/-- `NBUF`. -/
abbrev nbuf : Nat := 30

/-- A pointer to an entry of `bcache.buf`. -/
abbrev Buf := Fin nbuf

/-- `ROOTDEV`. -/
abbrev rootdev : Nat := 1

/-- `struct buf` without its lock and its list pointers. -/
structure Entry where
  /-- `B_VALID`. -/
  valid : Bool
  /-- `B_DIRTY`. -/
  dirty : Bool
  dev : Nat
  blockno : Nat
  refcnt : Nat
  data : Block

/-- Where a process is. -/
inductive Location
  /-- In none of the functions. -/
  | idle
  /-- In `bget` for a block, before `acquiresleep(&b->lock)`. -/
  | locking (buf : Buf) (blockno : Nat)
  /-- In `bread` for a block, after `bget`. -/
  | filling (buf : Buf) (blockno : Nat)
  /-- In `brelse`, after `releasesleep(&b->lock)`. -/
  | releasing (buf : Buf)
  /-- Stopped in `panic`. -/
  | panicked (message : String)
  deriving DecidableEq

/-- What `bread` has returned. -/
structure Returned where
  blockno : Nat
  /-- The contents of the buffer. -/
  data : Block
  /-- The contents last stored for the block. -/
  last : Block

variable {Process : Type}

/-- The cache, the disk, the log's list and the processes.  `stored` and
`returned` record what happened and are not read by the code. -/
structure State (Process : Type) where
  entry : Buf → Entry
  /-- The list pointers; `none` is `bcache.head`. -/
  links : Links Buf
  /-- `memdisk`. -/
  disk : Nat → Block
  disksize : Nat
  /-- The holder of the lock of each buffer. -/
  lock : Buf → Option Process
  location : Process → Location
  /-- `log.lh.block[0..n)`, until the header is written. -/
  logged : List Nat
  /-- The contents last stored for each block. -/
  stored : Nat → Block
  returned : List Returned

/-- What a process does next. -/
inductive Action (Process : Type)
  /-- `bread` calls `bget`. -/
  | bread (proc : Process) (blockno : Nat)
  /-- `acquiresleep(&b->lock)` in `bget`. -/
  | acquire (proc : Process)
  /-- The rest of `bread`. -/
  | fill (proc : Process)
  /-- A locked buffer is changed and logged. -/
  | logWrite (proc : Process) (buf : Buf) (data : Block)
  /-- A locked buffer is changed and written. -/
  | bwrite (proc : Process) (buf : Buf) (data : Block)
  /-- `releasesleep(&b->lock)` in `brelse`. -/
  | brelse (proc : Process) (buf : Buf)
  /-- The rest of `brelse`. -/
  | unref (proc : Process)
  /-- `write_head` of a commit. -/
  | commit

/-- `binit`. -/
def binit : Links Buf :=
  (List.finRange nbuf).foldl Links.pushFront ⟨fun _ => none, fun _ => none⟩

namespace State

variable [DecidableEq Process]

/-- Move one process. -/
def goto (s : State Process) (proc : Process) (target : Location) : State Process :=
  { s with location := Function.update s.location proc target }

/-- Change one buffer. -/
def setEntry (s : State Process) (buf : Buf) (entry : Entry) : State Process :=
  { s with entry := Function.update s.entry buf entry }

/-- The buffers from the most recently used on. -/
def forward (s : State Process) : List Buf :=
  follow s.links.next (nbuf + 1) (s.links.next none)

/-- The buffers from the least recently used on. -/
def backward (s : State Process) : List Buf :=
  follow s.links.prev (nbuf + 1) (s.links.prev none)

/-- The buffer is assigned to a block of the root device. -/
def Assigned (s : State Process) (buf : Buf) (blockno : Nat) : Prop :=
  (s.entry buf).dev = rootdev ∧ (s.entry buf).blockno = blockno

instance (s : State Process) (buf : Buf) (blockno : Nat) :
    Decidable (s.Assigned buf blockno) :=
  inferInstanceAs (Decidable (_ ∧ _))

/-- `bget` may recycle the buffer. -/
def Unused (s : State Process) (buf : Buf) : Prop :=
  (s.entry buf).refcnt = 0 ∧ (s.entry buf).dirty = false

instance (s : State Process) (buf : Buf) : Decidable (s.Unused buf) :=
  inferInstanceAs (Decidable (_ ∧ _))

/-- The part of `bget` under `bcache.lock`. -/
def bget (s : State Process) (proc : Process) (blockno : Nat) : State Process :=
  match s.forward.find? (s.Assigned · blockno) with
  | some buf =>
    let entry := s.entry buf
    (s.setEntry buf { entry with refcnt := entry.refcnt + 1 }).goto
      proc (.locking buf blockno)
  | none =>
    match s.backward.find? (s.Unused ·) with
    | some buf =>
      (s.setEntry buf
        { valid := false
          dirty := false
          dev := rootdev
          blockno := blockno
          refcnt := 1
          data := (s.entry buf).data }).goto proc
        (.locking buf blockno)
    | none => s.goto proc (.panicked "bget: no buffers")

/-- `iderw` of a buffer that is locked. -/
def iderw (s : State Process) (buf : Buf) : Except String (State Process) :=
  let entry := s.entry buf
  if entry.valid = true ∧ entry.dirty = false then
    .error "iderw: nothing to do"
  else if entry.dev ≠ 1 then .error "iderw: request not for disk 1"
  else if s.disksize ≤ entry.blockno then
    .error "iderw: block out of range"
  else if entry.dirty then
    .ok { s.setEntry buf { entry with dirty := false, valid := true } with
      disk := Function.update s.disk entry.blockno entry.data }
  else
    .ok (s.setEntry buf { entry with
      data := s.disk entry.blockno
      valid := true })

/-- `bread` returns a buffer. -/
def deliver (s : State Process) (proc : Process) (buf : Buf) (blockno : Nat) : State Process :=
  { s.goto proc .idle with
    returned := ⟨blockno, (s.entry buf).data, s.stored blockno⟩ :: s.returned }

/-- The second half of `brelse`. -/
def unrefBuf (s : State Process) (buf : Buf) : State Process :=
  let entry := s.entry buf
  let lowered := s.setEntry buf { entry with refcnt := entry.refcnt - 1 }
  if entry.refcnt - 1 = 0 then
    { lowered with links := (s.links.unlink buf).pushFront buf }
  else lowered

/-- The process is in none of the functions and holds the lock. -/
def Holds (s : State Process) (proc : Process) (buf : Buf) : Prop :=
  s.location proc = .idle ∧ s.lock buf = some proc

instance (s : State Process) (proc : Process) (buf : Buf) :
    Decidable (s.Holds proc buf) :=
  inferInstanceAs (Decidable (_ ∧ _))

/-- One step of the system. -/
def step (s : State Process) : Action Process → Option (State Process)
  | .bread proc blockno =>
    if s.location proc = .idle then
      some (s.bget proc blockno)
    else none
  | .acquire proc =>
    match s.location proc with
    | .locking buf blockno =>
      if s.lock buf = none then
        some { s.goto proc (.filling buf blockno) with
          lock := Function.update s.lock buf (some proc) }
      else none
    | _ => none
  | .fill proc =>
    match s.location proc with
    | .filling buf blockno =>
      if (s.entry buf).valid then
        some (s.deliver proc buf blockno)
      else
        match s.iderw buf with
        | .error message => some (s.goto proc (.panicked message))
        | .ok filled => some (filled.deliver proc buf blockno)
    | _ => none
  | .logWrite proc buf data =>
    if s.Holds proc buf then
      let blockno := (s.entry buf).blockno
      some { s.setEntry buf { s.entry buf with
          data := data
          dirty := true } with
        logged := Log.absorb s.logged blockno
        stored := Function.update s.stored blockno data }
    else none
  | .bwrite proc buf data =>
    if s.Holds proc buf then
      let blockno := (s.entry buf).blockno
      match (s.setEntry buf { s.entry buf with
          data := data
          dirty := true }).iderw buf with
      | .error message => some (s.goto proc (.panicked message))
      | .ok written => some { written with
          stored := Function.update s.stored blockno data }
    else none
  | .brelse proc buf =>
    if s.Holds proc buf then
      some { s.goto proc (.releasing buf) with
        lock := Function.update s.lock buf none }
    else none
  | .unref proc =>
    match s.location proc with
    | .releasing buf => some ((s.unrefBuf buf).goto proc .idle)
    | _ => none
  | .commit => some { s with logged := [] }

end State

/-- An entry that `binit` leaves as it finds it. -/
def Entry.zero : Entry where
  valid := false
  dirty := false
  dev := 0
  blockno := 0
  refcnt := 0
  data := 0

/-- The cache after `binit`, over a disk. -/
def started (disk : Nat → Block) (disksize : Nat) : State Process where
  entry := fun _ => .zero
  links := binit
  disk := disk
  disksize := disksize
  lock := fun _ => none
  location := fun _ => .idle
  logged := []
  stored := disk
  returned := []

end Xv6.Buffer
