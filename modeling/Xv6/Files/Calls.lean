import Xv6.Foundation.Interleaving
import Xv6.Fs.Sysfile
import Xv6.Process.Table

/-!
# Calls that take and give back references

The code of the calls that work on descriptors, open files, pipes, inodes and
processes, as far as it takes and gives back references.  An operation is a
section under `icache.lock`, `ftable.lock`, `p->lock` of a pipe or `ptable.lock`,
or an access of a process to its own `struct proc`, or to that of a child that
does not run yet.  Operations of different processes are interleaved in any
order.

What the code reads from the disk, from user memory, or from the allocator of
pages may be anything: it is the choice made by `choose`.  A process that
panics, or waits for ever, does not go on.
-/

namespace Xv6.Files

open Foundation.Interleaving
open Fs (Slot nfile nofile nproc ninode rootdev rootino skipelem slash)

/-- What is counted of a `struct inode`. -/
structure Inode where
  dev : Nat
  inum : Nat
  ref : Int

/-- `f->type`, with the field that belongs to it. -/
inductive Kind
  | none
  /-- `FD_PIPE`, with `f->pipe` and `f->writable`. -/
  | pipe (pipe : Nat) (writable : Bool)
  /-- `FD_INODE`, with `f->ip`. -/
  | inode (ip : Slot)
  deriving DecidableEq

/-- What is counted of a `struct file`. -/
structure File where
  ref : Int
  kind : Kind

/-- What is counted of a `struct pipe`. -/
structure Pipe where
  readopen : Bool
  writeopen : Bool
  /-- How often its page was given to `kfree`. -/
  freed : Nat

/-- The pipe after `pipeclose` of one end, which frees it with the last; the
wakeups are left out. -/
def Pipe.close (pipe : Pipe) (writable : Bool) : Pipe :=
  let readopen := if writable then pipe.readopen else false
  let writeopen := if writable then false else pipe.writeopen
  { readopen := readopen
    writeopen := writeopen
    freed :=
      if readopen = false ∧ writeopen = false then pipe.freed + 1
      else pipe.freed }

inductive ProcState
  | unused
  | embryo
  /-- `SLEEPING`, `RUNNABLE` or `RUNNING`. -/
  | live
  | zombie
  deriving DecidableEq

/-- `struct proc`. -/
structure Proc where
  state : ProcState
  ofile : Fin nofile → Option (Fin nfile)
  cwd : Option Slot

/-- The tables that processes share.  The pipes are numbered in the order in
which they are made. -/
structure Shared where
  icache : Slot → Inode
  ftable : Fin nfile → File
  pipes : Nat → Pipe
  npipes : Nat
  procs : Fin nproc → Proc

/-- The operations. -/
inductive Op
  /-- Something is read that does not concern references. -/
  | choose
  | panic (message : String)
  | iget (dev inum : Nat)
  | idup (ip : Slot)
  /-- The end of `iput`, `ip->ref--`. -/
  | iput (ip : Slot)
  | filealloc
  | filedup (f : Fin nfile)
  /-- The part of `fileclose` under `ftable.lock`. -/
  | fileclose (f : Fin nfile)
  /-- The type of an open file is set, with the field that belongs to it. -/
  | setKind (f : Fin nfile) (kind : Kind)
  /-- `kalloc` of a pipe, and its initialization. -/
  | newPipe
  | pipeclose (pipe : Nat) (writable : Bool)
  | getFd (fd : Fin nofile)
  /-- `ofile[fd] = 0`. -/
  | clearFd (fd : Fin nofile)
  | fdalloc (f : Fin nfile)
  | getCwd
  | setCwd (cwd : Option Slot)
  /-- The part of `allocproc` under `ptable.lock`. -/
  | allocproc
  /-- `np->state = UNUSED` when `fork` fails. -/
  | freeproc (np : Fin nproc)
  | setChildFd (np : Fin nproc) (fd : Fin nofile) (f : Fin nfile)
  | setChildCwd (np : Fin nproc) (ip : Slot)
  /-- `np->state = RUNNABLE`. -/
  | runnable (np : Fin nproc)
  /-- `curproc->state = ZOMBIE`. -/
  | zombie
  /-- `wait` frees a process that has exited. -/
  | reap (child : Fin nproc)

/-- How `fileclose` goes on after `ftable.lock` is released. -/
inductive Closing
  /-- It panics. -/
  | bad
  /-- There are other references. -/
  | shared
  /-- The last reference was given back; this was `ff`. -/
  | last (kind : Kind)

/-- What an operation returns. -/
def Reply : Op → Type
  | .choose => Nat
  | .iget .. => Option Slot
  | .filealloc => Option (Fin nfile)
  | .filedup _ => Bool
  | .fileclose _ => Closing
  | .newPipe => Option Nat
  | .getFd _ => Option (Fin nfile)
  | .fdalloc _ => Option (Fin nofile)
  | .getCwd => Option Slot
  | .allocproc => Option (Fin nproc)
  | .panic _ | .idup _ | .iput _ | .setKind .. | .pipeclose .. | .clearFd _
  | .setCwd _ | .freeproc _ | .setChildFd .. | .setChildCwd .. | .runnable _
  | .zombie | .reap _ => Unit

namespace Shared

def setInode (shared : Shared) (ip : Slot) (inode : Inode) : Shared :=
  { shared with icache := Function.update shared.icache ip inode }

def setFile (shared : Shared) (f : Fin nfile) (file : File) : Shared :=
  { shared with ftable := Function.update shared.ftable f file }

def setProc (shared : Shared) (p : Fin nproc) (proc : Proc) : Shared :=
  { shared with procs := Function.update shared.procs p proc }

/-- The entry that `iget` finds for an inode. -/
def cached? (shared : Shared) (dev inum : Nat) : Option Slot :=
  (List.finRange ninode).find? fun ip => decide
    (0 < (shared.icache ip).ref ∧ (shared.icache ip).dev = dev ∧ (shared.icache ip).inum = inum)

/-- The entry that `iget` recycles. -/
def empty? (shared : Shared) : Option Slot :=
  (List.finRange ninode).find? fun ip => decide ((shared.icache ip).ref = 0)

/-- `iget`; without a reply it panics. -/
def iget (shared : Shared) (dev inum : Nat) : Option Slot × Shared :=
  match shared.cached? dev inum with
  | some ip =>
    let inode := shared.icache ip
    (some ip, shared.setInode ip { inode with ref := inode.ref + 1 })
  | none =>
    match shared.empty? with
    | some ip => (some ip, shared.setInode ip ⟨dev, inum, 1⟩)
    | none => (none, shared)

/-- `filealloc`. -/
def filealloc (shared : Shared) : Option (Fin nfile) × Shared :=
  match (List.finRange nfile).find? fun f =>
      decide ((shared.ftable f).ref = 0) with
  | some f => (some f, shared.setFile f { shared.ftable f with ref := 1 })
  | none => (none, shared)

/-- The part of `fileclose` under `ftable.lock`. -/
def fileclose (shared : Shared) (f : Fin nfile) : Closing × Shared :=
  let file := shared.ftable f
  if file.ref < 1 then (.bad, shared)
  else if 0 < file.ref - 1 then
    (.shared, shared.setFile f { file with ref := file.ref - 1 })
  else (.last file.kind, shared.setFile f ⟨0, .none⟩)

/-- A pipe is made; its number is the next one. -/
def newPipe (shared : Shared) : Shared :=
  { shared with
    pipes := Function.update shared.pipes shared.npipes ⟨true, true, 0⟩
    npipes := shared.npipes + 1 }

/-- `pipeclose`. -/
def pipeclose (shared : Shared) (pipe : Nat) (writable : Bool) : Shared :=
  { shared with
    pipes := Function.update shared.pipes pipe ((shared.pipes pipe).close writable) }

/-- `fdalloc`. -/
def fdalloc (shared : Shared) (p : Fin nproc) (f : Fin nfile) : Option (Fin nofile) × Shared :=
  let proc := shared.procs p
  match (List.finRange nofile).find? fun fd =>
      decide (proc.ofile fd = none) with
  | some fd =>
    (some fd, shared.setProc p { proc with ofile := Function.update proc.ofile fd (some f) })
  | none => (none, shared)

/-- The part of `allocproc` under `ptable.lock`. -/
def allocproc (shared : Shared) : Option (Fin nproc) × Shared :=
  match (List.finRange nproc).find? fun p =>
      decide ((shared.procs p).state = .unused) with
  | some np => (some np, shared.setProc np { shared.procs np with state := .embryo })
  | none => (none, shared)

/-- Perform an operation for a process. -/
def perform (p : Fin nproc) (op : Op) (choice : Nat) (shared : Shared) :
    Option (Reply op × Shared) :=
  match op with
  | .choose => some (choice, shared)
  | .panic _ => none
  | .iget dev inum => some (shared.iget dev inum)
  | .idup ip =>
    let inode := shared.icache ip
    some ((), shared.setInode ip { inode with ref := inode.ref + 1 })
  | .iput ip =>
    let inode := shared.icache ip
    some ((), shared.setInode ip { inode with ref := inode.ref - 1 })
  | .filealloc => some shared.filealloc
  | .filedup f =>
    let file := shared.ftable f
    if file.ref < 1 then some (false, shared)
    else some (true, shared.setFile f { file with ref := file.ref + 1 })
  | .fileclose f => some (shared.fileclose f)
  | .setKind f kind => some ((), shared.setFile f { shared.ftable f with kind := kind })
  | .newPipe =>
    if choice = 0 then some (none, shared)
    else some (some shared.npipes, shared.newPipe)
  | .pipeclose pipe writable => some ((), shared.pipeclose pipe writable)
  | .getFd fd => some ((shared.procs p).ofile fd, shared)
  | .clearFd fd =>
    let proc := shared.procs p
    some ((), shared.setProc p { proc with ofile := Function.update proc.ofile fd none })
  | .fdalloc f => some (shared.fdalloc p f)
  | .getCwd => some ((shared.procs p).cwd, shared)
  | .setCwd cwd => some ((), shared.setProc p { shared.procs p with cwd := cwd })
  | .allocproc => some shared.allocproc
  | .freeproc np => some ((), shared.setProc np { shared.procs np with state := .unused })
  | .setChildFd np fd f =>
    let proc := shared.procs np
    some ((), shared.setProc np { proc with ofile := Function.update proc.ofile fd (some f) })
  | .setChildCwd np ip => some ((), shared.setProc np { shared.procs np with cwd := some ip })
  | .runnable np => some ((), shared.setProc np { shared.procs np with state := .live })
  | .zombie => some ((), shared.setProc p { shared.procs p with state := .zombie })
  | .reap child =>
    if (shared.procs child).state = .zombie then
      some ((), shared.setProc child { shared.procs child with state := .unused })
    else none

end Shared

/-! ## The code -/

/-- Code of the kernel. -/
abbrev FileM := Code Op Reply

/-- One operation. -/
def op (op : Op) : FileM (Reply op) :=
  Code.perform op

/-- Something read from the disk or from user memory is not zero. -/
def test : FileM Bool := do
  let choice : Nat ← op .choose
  return decide (choice ≠ 0)

/-- `iget`. -/
def iget (dev inum : Nat) : FileM Slot := do
  match (← op (.iget dev inum) : Option Slot) with
  | some ip => return ip
  | none =>
    op (.panic "iget: no inodes")
    return 0

/-- `filedup`. -/
def filedup (f : Fin nfile) : FileM Unit := do
  let fine : Bool ← op (.filedup f)
  if fine then return
  else op (.panic "filedup")

/-- `fileclose`. -/
def fileclose (f : Fin nfile) : FileM Unit := do
  match (← op (.fileclose f) : Closing) with
  | .bad => op (.panic "fileclose")
  | .shared | .last .none => return
  | .last (.pipe pipe writable) => op (.pipeclose pipe writable)
  | .last (.inode ip) => op (.iput ip)

/-- `dirlookup`: the number of the inode is read from the directory. -/
def dirlookup : FileM (Option Slot) := do
  let inum : Nat ← op .choose
  if inum = 0 then return none
  else return some (← iget rootdev inum)

/-- `dirlink`: its result is whether there was no entry of the name. -/
def dirlink : FileM Bool := do
  match ← dirlookup with
  | some ip =>
    op (.iput ip)
    return false
  | none => return true

/-- The loop of `namex`.  Every round shortens the path, so `namex` gives it
enough rounds. -/
def namexLoop (nameiparent : Bool) : Nat → List Byte → Slot → FileM (Option Slot)
  | 0, _, ip => do
    op (.iput ip)
    return none
  | fuel + 1, path, ip => do
    match skipelem path with
    | none =>
      if nameiparent then
        op (.iput ip)
        return none
      else return some ip
    | some (_, path) =>
      let dir ← test
      if dir = false then
        op (.iput ip)
        return none
      else if nameiparent ∧ path = [] then return some ip
      else
        match ← dirlookup with
        | none =>
          op (.iput ip)
          return none
        | some next =>
          op (.iput ip)
          namexLoop nameiparent fuel path next

/-- `namex`. -/
def namex (path : List Byte) (nameiparent : Bool) : FileM (Option Slot) := do
  if path.head? = some slash then
    let ip ← iget rootdev rootino
    namexLoop nameiparent (path.length + 1) path ip
  else
    match (← op .getCwd : Option Slot) with
    | none => return none
    | some ip =>
      op (.idup ip)
      namexLoop nameiparent (path.length + 1) path ip

/-- `create`, for a `T_FILE` or not. -/
def create (path : List Byte) (file dir : Bool) : FileM (Option Slot) := do
  match ← namex path true with
  | none => return none
  | some dp =>
    match ← dirlookup with
    | some ip =>
      op (.iput dp)
      let sameType ← test
      if file ∧ sameType then return some ip
      else
        op (.iput ip)
        return none
    | none =>
      let inum : Nat ← op .choose
      let ip ← iget rootdev inum
      if dir then
        if !(← dirlink) then op (.panic "create dots")
        if !(← dirlink) then op (.panic "create dots")
      if !(← dirlink) then op (.panic "create: dirlink")
      op (.iput dp)
      return some ip

/-- The end of `sys_open`. -/
def openFile (ip : Slot) : FileM Int := do
  match (← op .filealloc : Option (Fin nfile)) with
  | none =>
    op (.iput ip)
    return -1
  | some f =>
    match (← op (.fdalloc f) : Option (Fin nofile)) with
    | none =>
      fileclose f
      op (.iput ip)
      return -1
    | some fd =>
      op (.setKind f (.inode ip))
      return fd.val

/-- `sys_open`. -/
def sysOpen (path : List Byte) (creates : Bool) : FileM Int := do
  if creates then
    match ← create path true false with
    | none => return -1
    | some ip => openFile ip
  else
    match ← namex path false with
    | none => return -1
    | some ip =>
      let refused ← test
      if refused then
        op (.iput ip)
        return -1
      else openFile ip

/-- `sys_close`. -/
def sysClose (fd : Fin nofile) : FileM Int := do
  match (← op (.getFd fd) : Option (Fin nfile)) with
  | none => return -1
  | some f =>
    op (.clearFd fd)
    fileclose f
    return 0

/-- `sys_dup`. -/
def sysDup (fd : Fin nofile) : FileM Int := do
  match (← op (.getFd fd) : Option (Fin nfile)) with
  | none => return -1
  | some f =>
    match (← op (.fdalloc f) : Option (Fin nofile)) with
    | none => return -1
    | some fd =>
      filedup f
      return fd.val

/-- `pipealloc`: the read end and the write end. -/
def pipealloc : FileM (Option (Fin nfile × Fin nfile)) := do
  match (← op .filealloc : Option (Fin nfile)) with
  | none => return none
  | some f0 =>
    match (← op .filealloc : Option (Fin nfile)) with
    | none =>
      fileclose f0
      return none
    | some f1 =>
      match (← op .newPipe : Option Nat) with
      | none =>
        fileclose f0
        fileclose f1
        return none
      | some p =>
        op (.setKind f0 (.pipe p false))
        op (.setKind f1 (.pipe p true))
        return some (f0, f1)

/-- `sys_pipe`. -/
def sysPipe : FileM Int := do
  match ← pipealloc with
  | none => return -1
  | some (rf, wf) =>
    match (← op (.fdalloc rf) : Option (Fin nofile)) with
    | none =>
      fileclose rf
      fileclose wf
      return -1
    | some fd0 =>
      match (← op (.fdalloc wf) : Option (Fin nofile)) with
      | none =>
        op (.clearFd fd0)
        fileclose rf
        fileclose wf
        return -1
      | some _ => return 0

/-- `sys_link`. -/
def sysLink (old new : List Byte) : FileM Int := do
  match ← namex old false with
  | none => return -1
  | some ip =>
    let dir ← test
    if dir then
      op (.iput ip)
      return -1
    else
      match ← namex new true with
      | none =>
        op (.iput ip)
        return -1
      | some dp =>
        let linked ← dirlink
        op (.iput dp)
        op (.iput ip)
        if linked then return 0 else return -1

/-- `sys_unlink`. -/
def sysUnlink (path : List Byte) : FileM Int := do
  match ← namex path true with
  | none => return -1
  | some dp =>
    let dots ← test
    if dots then
      op (.iput dp)
      return -1
    else
      match ← dirlookup with
      | none =>
        op (.iput dp)
        return -1
      | some ip =>
        let notEmpty ← test
        if notEmpty then
          op (.iput ip)
          op (.iput dp)
          return -1
        else
          op (.iput dp)
          op (.iput ip)
          return 0

/-- `sys_mkdir` and `sys_mknod`. -/
def makeNode (path : List Byte) (dir : Bool) : FileM Int := do
  match ← create path false dir with
  | none => return -1
  | some ip =>
    op (.iput ip)
    return 0

/-- `sys_chdir`. -/
def sysChdir (path : List Byte) : FileM Int := do
  match ← namex path false with
  | none => return -1
  | some ip =>
    let dir ← test
    if dir = false then
      op (.iput ip)
      return -1
    else
      match (← op .getCwd : Option Slot) with
      | none => return -1
      | some cwd =>
        op (.iput cwd)
        op (.setCwd (some ip))
        return 0

/-- `exec`, which gives its inode back wherever it fails. -/
def exec (path : List Byte) : FileM Int := do
  match ← namex path false with
  | none => return -1
  | some ip =>
    op (.iput ip)
    let loaded ← test
    if loaded then return 0 else return -1

/-- The loop of `fork` over open files. -/
def forkFiles (np : Fin nproc) : List (Fin nofile) → FileM Unit
  | [] => return
  | fd :: fds => do
    match (← op (.getFd fd) : Option (Fin nfile)) with
    | none => forkFiles np fds
    | some f =>
      filedup f
      op (.setChildFd np fd f)
      forkFiles np fds

/-- `fork`. -/
def fork : FileM Int := do
  match (← op .allocproc : Option (Fin nproc)) with
  | none => return -1
  | some np =>
    let memory ← test
    if memory = false then
      op (.freeproc np)
      return -1
    else
      forkFiles np (List.finRange nofile)
      match (← op .getCwd : Option Slot) with
      | none => return -1
      | some cwd =>
        op (.idup cwd)
        op (.setChildCwd np cwd)
        op (.runnable np)
        return 1

/-- The loop of `exit` over open files. -/
def exitFiles : List (Fin nofile) → FileM Unit
  | [] => return
  | fd :: fds => do
    match (← op (.getFd fd) : Option (Fin nfile)) with
    | none => exitFiles fds
    | some f =>
      fileclose f
      op (.clearFd fd)
      exitFiles fds

/-- `initproc`. -/
abbrev initproc : Fin nproc := 0

/-- `exit`. -/
def exit (p : Fin nproc) : FileM Int := do
  if p = initproc then
    op (.panic "init exiting")
    return -1
  else
    exitFiles (List.finRange nofile)
    match (← op .getCwd : Option Slot) with
    | none => return -1
    | some cwd =>
      op (.iput cwd)
      op (.setCwd none)
      op .zombie
      return 0

/-- `wait`, once a child has exited. -/
def wait (child : Fin nproc) : FileM Int := do
  op (.reap child)
  return 0

/-- The calls.  A descriptor is one that `argfd` lets pass if it is open. -/
inductive Call
  | openPath (path : List Byte) (creates : Bool)
  | close (fd : Fin nofile)
  | dup (fd : Fin nofile)
  | pipe
  | link (old new : List Byte)
  | unlink (path : List Byte)
  | mkdir (path : List Byte)
  | mknod (path : List Byte)
  | chdir (path : List Byte)
  | exec (path : List Byte)
  | fork
  | exit
  | wait (child : Fin nproc)

/-- The code of a call of a process. -/
def Call.body (p : Fin nproc) : Call → FileM Int
  | openPath path creates => sysOpen path creates
  | close fd => sysClose fd
  | dup fd => sysDup fd
  | pipe => sysPipe
  | link old new => sysLink old new
  | unlink path => sysUnlink path
  | mkdir path => makeNode path true
  | mknod path => makeNode path false
  | chdir path => sysChdir path
  | exec path => Files.exec path
  | fork => Files.fork
  | exit => Files.exit p
  | wait child => Files.wait child

/-- The kernel as a machine whose operations are interleaved. -/
def machine : Machine (Fin nproc) Op Reply Shared Call where
  perform := Shared.perform
  alive := fun shared p => decide ((shared.procs p).state = .live)
  body := Call.body

/-- The tables after `userinit`: the first process has the root as its current
directory. -/
def boot : Shared where
  icache := Function.update (fun _ => ⟨0, 0, 0⟩) 0 ⟨rootdev, rootino, 1⟩
  ftable := fun _ => ⟨0, .none⟩
  pipes := fun _ => ⟨false, false, 0⟩
  npipes := 0
  procs := Function.update (fun _ => ⟨.unused, fun _ => none, none⟩) 0
    ⟨.live, fun _ => none, some 0⟩

end Xv6.Files
