import Xv6.Fs.Store

/-!
# The inode cache

The inode layer of `fs.c`: `iget`, `ialloc`, `iput`, the sleep locks of
`sleeplock.c`, and `readi` and `writei` on a cached inode.  A call runs on
behalf of the current process, and the other processes do not run meanwhile.
-/

namespace Xv6.Fs

/-- `NINODE`. -/
abbrev ninode : Nat := 50

/-- `NFILE`. -/
abbrev nfile : Nat := 100

/-- `NOFILE`. -/
abbrev nofile : Nat := 16

/-- `NPROC`. -/
abbrev nproc : Nat := 64

/-- `NDEV`. -/
abbrev ndev : Nat := 10

/-- A pointer to an entry of `icache`. -/
abbrev Slot := Fin ninode

instance neZero_nfile : NeZero nfile := ⟨by decide⟩

instance neZero_ninode : NeZero ninode := ⟨by decide⟩

/-- `struct inode`.  The copy of the on-disk fields is one `Dinode`. -/
structure Inode where
  dev : Nat
  inum : Nat
  ref : Int
  /-- `pid` of the holder of the sleep lock. -/
  lock : Option Nat
  valid : Bool
  dinode : Dinode

/-- The kinds of `struct file`. -/
inductive FileType
  | none
  | pipe
  | inode
  deriving DecidableEq

/-- `struct file`. -/
structure File where
  type : FileType
  ref : Int
  readable : Bool
  writable : Bool
  ip : Slot
  off : Nat

/-- The states of a process, as far as its files are concerned. -/
inductive ProcState
  | unused
  | live
  | zombie
  deriving DecidableEq

/-- `struct proc`.  `cwd` means something while the process is live. -/
structure Proc where
  state : ProcState
  pid : Nat
  ofile : Fin nofile → Option (Fin nfile)
  cwd : Slot

/-- An entry of `devsw`.  What a driver returns may differ from call to call,
so it is given the number of the call. -/
structure Driver where
  /-- The driver gives up the inode's lock while it runs. -/
  yields : Bool
  read : Nat → Nat → Option (List Byte)
  write : Nat → List Byte → Int

/-- The state that file system calls work on. -/
structure Kernel where
  store : Store
  icache : Slot → Inode
  ftable : Fin nfile → File
  procs : Fin nproc → Proc
  /-- The process that runs. -/
  cur : Fin nproc
  /-- `initproc`. -/
  initproc : Fin nproc
  nextpid : Nat
  devsw : Nat → Option Driver
  /-- How often a driver was called. -/
  devcalls : Nat

/-- Code of the kernel. -/
abbrev KernelM := StateT Kernel (Except Stop)

/-- Run code that works on the store. -/
def onStore (program : StoreM α) : KernelM α := fun os =>
  match program os.store with
  | .ok (value, store) => .ok (value, { os with store := store })
  | .error reason => .error reason

/-- `myproc()->pid`. -/
def Kernel.pid (os : Kernel) : Nat :=
  (os.procs os.cur).pid

/-- Replace an entry of the cache. -/
def Kernel.setInode (os : Kernel) (ip : Slot) (inode : Inode) : Kernel :=
  { os with icache := Function.update os.icache ip inode }

/-- Read the fields of a cached inode. -/
def getInode (ip : Slot) : KernelM Inode := do
  return (← get).icache ip

/-- Change the fields of a cached inode. -/
def modifyInode (ip : Slot) (change : Inode → Inode) : KernelM Unit :=
  modify fun os => os.setInode ip (change (os.icache ip))

/-- Change the copy of the on-disk fields of a cached inode. -/
def modifyDinode (ip : Slot) (change : Dinode → Dinode) : KernelM Unit :=
  modifyInode ip fun inode => { inode with dinode := change inode.dinode }

/-- `iupdate`. -/
def iupdate (ip : Slot) : KernelM Unit := do
  let inode ← getInode ip
  onStore (writeDinode inode.inum inode.dinode)

/-- `iget`. -/
def iget (dev inum : Nat) : KernelM Slot := do
  let os ← get
  let cached := (List.finRange ninode).find? fun ip =>
    let inode := os.icache ip
    inode.ref > 0 ∧ inode.dev = dev ∧ inode.inum = inum
  match cached with
  | some ip =>
    modifyInode ip fun inode => { inode with ref := inode.ref + 1 }
    return ip
  | none =>
    let empty := (List.finRange ninode).find? fun ip =>
      (os.icache ip).ref = 0
    match empty with
    | none => throw (.panic "iget: no inodes")
    | some ip =>
      modifyInode ip fun inode =>
        { inode with dev := dev, inum := inum, ref := 1, valid := false }
      return ip

/-- `ialloc`. -/
def ialloc (dev : Nat) (type : BitVec 16) : KernelM Slot := do
  let os ← get
  let free := (List.range' 1 (os.store.sb.ninodes - 1)).find? fun inum =>
    (os.store.dinode inum).type = 0
  match free with
  | none => throw (.panic "ialloc: no inodes")
  | some inum =>
    onStore (writeDinode inum { Dinode.zero with type := type })
    iget dev inum

/-- `idup`. -/
def idup (ip : Slot) : KernelM Slot := do
  modifyInode ip fun inode => { inode with ref := inode.ref + 1 }
  return ip

/-- `acquiresleep` on the lock of an inode. -/
def acquiresleep (ip : Slot) : KernelM Unit := do
  let os ← get
  match (os.icache ip).lock with
  | none => modifyInode ip fun inode => { inode with lock := some os.pid }
  | some holder =>
    if holder = os.pid then throw .deadlock else throw .asleep

/-- `releasesleep` on the lock of an inode. -/
def releasesleep (ip : Slot) : KernelM Unit :=
  modifyInode ip fun inode => { inode with lock := none }

/-- `ilock`. -/
def ilock (ip : Slot) : KernelM Unit := do
  if (← getInode ip).ref < 1 then
    throw (.panic "ilock")
  acquiresleep ip
  let inode ← getInode ip
  if inode.valid = false then
    let dinode := (← get).store.dinode inode.inum
    modifyInode ip fun inode => { inode with dinode := dinode, valid := true }
    if dinode.type = 0 then
      throw (.panic "ilock: no type")

/-- `iunlock`. -/
def iunlock (ip : Slot) : KernelM Unit := do
  let os ← get
  if (os.icache ip).lock ≠ some os.pid ∨ (os.icache ip).ref < 1 then
    throw (.panic "iunlock")
  releasesleep ip

/-- `itrunc`. -/
def itrunc (ip : Slot) : KernelM Unit := do
  let inode ← getInode ip
  let dinode ← onStore (truncate inode.dinode)
  modifyDinode ip fun _ => dinode
  iupdate ip

/-- `iput`. -/
def iput (ip : Slot) : KernelM Unit := do
  acquiresleep ip
  let inode ← getInode ip
  if inode.valid = true ∧ inode.dinode.nlink = 0 then
    let r := inode.ref
    if r = 1 then
      itrunc ip
      modifyDinode ip fun dinode => { dinode with type := 0 }
      iupdate ip
      modifyInode ip fun inode => { inode with valid := false }
  releasesleep ip
  modifyInode ip fun inode => { inode with ref := inode.ref - 1 }

/-- `iunlockput`. -/
def iunlockput (ip : Slot) : KernelM Unit := do
  iunlock ip
  iput ip

/-- The entry of `devsw` that `readi` and `writei` use, unless the major number
is out of range. -/
def driver (inode : Inode) : KernelM (Option Driver) := do
  let major := inode.dinode.major.toInt
  if major < 0 ∨ (ndev : Int) ≤ major then return none
  else return (← get).devsw major.toNat

/-- A driver runs; the console's gives up the lock of the inode and takes it
again. -/
def callDriver (ip : Slot) (driver : Driver) : KernelM Nat := do
  if driver.yields then
    iunlock ip
    ilock ip
  let call := (← get).devcalls
  modify fun os => { os with devcalls := call + 1 }
  return call

/-- `readi`: the bytes read, or nothing for the result -1. -/
def readi (ip : Slot) (off n : Nat) : KernelM (Option (List Byte)) := do
  let inode ← getInode ip
  if inode.dinode.type = tDev then
    match ← driver inode with
    | none => return none
    | some driver =>
      let call ← callDriver ip driver
      return driver.read call n
  else
    let size := inode.dinode.size.toNat
    if size < off ∨ (off + n) % 2 ^ 32 < off then return none
    else
      let n := if size < off + n then size - off else n
      let (bytes, dinode) ← onStore (readiLoop n inode.dinode off n)
      modifyDinode ip fun _ => dinode
      return some bytes

/-- `writei`: its result. -/
def writei (ip : Slot) (src : List Byte) (off : Nat) : KernelM Int := do
  let inode ← getInode ip
  if inode.dinode.type = tDev then
    match ← driver inode with
    | none => return -1
    | some driver =>
      let call ← callDriver ip driver
      return driver.write call src
  else
    let size := inode.dinode.size.toNat
    let n := src.length
    if size < off ∨ (off + n) % 2 ^ 32 < off then return -1
    else if maxfile * bsize < off + n then return -1
    else
      let dinode ← onStore (writeiLoop n inode.dinode off src)
      modifyDinode ip fun _ => dinode
      if 0 < n ∧ size < off + n then
        modifyDinode ip fun dinode =>
          { dinode with size := BitVec.ofNat 32 (off + n) }
        iupdate ip
      return n

end Xv6.Fs
