import Xv6.Fs.Directory

/-!
# File system calls

The calls of `sysfile.c` on paths, with `file.c` and the parts of `fork` and
`exit` in `proc.c` that concern files.  A path argument is the string that
`argstr` fetches, or nothing if it cannot be fetched.
-/

namespace Xv6.Fs

/-- A string argument as `argstr` finds it in user memory. -/
abbrev StringArgument := Option (List Byte)

/-- `argstr`: the characters before the NUL. -/
def argstr (argument : StringArgument) : Option (List Byte) :=
  argument.map fun characters => characters.takeWhile (· ≠ 0)

/-- The part of `create` that makes the entries `.` and `..`. -/
def createDots (dp ip : Slot) : KernelM Unit := do
  modifyDinode dp fun dinode => { dinode with nlink := dinode.nlink + 1 }
  iupdate dp
  if (← dirlink ip dot (← getInode ip).inum) < 0 then
    throw (.panic "create dots")
  if (← dirlink ip dotdot (← getInode dp).inum) < 0 then
    throw (.panic "create dots")

/-- The part of `create` that makes the inode. -/
def createInode (dp : Slot) (type major minor : BitVec 16) : KernelM Slot := do
  let ip ← ialloc (← getInode dp).dev type
  ilock ip
  modifyDinode ip fun dinode =>
    { dinode with major := major, minor := minor, nlink := 1 }
  iupdate ip
  if type = tDir then
    createDots dp ip
  return ip

/-- The part of `create` for a name that is not there. -/
def createNew (dp : Slot) (name : List Byte) (type major minor : BitVec 16) : KernelM Slot := do
  let ip ← createInode dp type major minor
  if (← dirlink dp name (← getInode ip).inum) < 0 then
    throw (.panic "create: dirlink")
  iunlockput dp
  return ip

/-- The part of `create` once the parent directory is found. -/
def createIn (dp : Slot) (name : List Byte) (type major minor : BitVec 16) :
    KernelM (Option Slot) := do
  ilock dp
  match ← dirlookup dp name with
  | some (ip, _) =>
    iunlockput dp
    ilock ip
    if type = tFile ∧ (← getInode ip).dinode.type = tFile then
      return some ip
    else
      iunlockput ip
      return none
  | none => return some (← createNew dp name type major minor)

/-- `create`. -/
def create (path : List Byte) (type major minor : BitVec 16) : KernelM (Option Slot) := do
  match ← nameiparent path with
  | none => return none
  | some (dp, name) => createIn dp name type major minor

/-- The part of `sys_link` at its label `bad`. -/
def linkBad (ip : Slot) : KernelM Int := do
  ilock ip
  modifyDinode ip fun dinode => { dinode with nlink := dinode.nlink - 1 }
  iupdate ip
  iunlockput ip
  onStore endOp
  return -1

/-- The part of `sys_link` once the parent directory is found. -/
def linkIn (ip dp : Slot) (name : List Byte) : KernelM Int := do
  ilock dp
  let dir ← getInode dp
  let inode ← getInode ip
  if dir.dev ≠ inode.dev then
    iunlockput dp
    linkBad ip
  else if (← dirlink dp name inode.inum) < 0 then
    iunlockput dp
    linkBad ip
  else
    iunlockput dp
    iput ip
    onStore endOp
    return 0

/-- The part of `sys_link` once the inode is found and locked. -/
def linkInode (ip : Slot) (new : List Byte) : KernelM Int := do
  modifyDinode ip fun dinode => { dinode with nlink := dinode.nlink + 1 }
  iupdate ip
  iunlock ip
  match ← nameiparent new with
  | none => linkBad ip
  | some (dp, name) => linkIn ip dp name

/-- `sys_link`. -/
def sysLink (old new : StringArgument) : KernelM Int := do
  match argstr old, argstr new with
  | some old, some new =>
    onStore beginOp
    match ← namei old with
    | none =>
      onStore endOp
      return -1
    | some ip =>
      ilock ip
      if (← getInode ip).dinode.type = tDir then
        iunlockput ip
        onStore endOp
        return -1
      else linkInode ip new
  | _, _ => return -1

/-- The loop of `isdirempty`. -/
def isdiremptyLoop (dp : Slot) : Nat → Nat → KernelM Bool
  | 0, _ => return true
  | fuel + 1, off => do
    if off < (← getInode dp).dinode.size.toNat then
      let de ← readDirent dp off "isdirempty: readi"
      if de.inum ≠ 0 then return false
      else isdiremptyLoop dp fuel (off + direntSize)
    else return true

/-- `isdirempty`. -/
def isdirempty (dp : Slot) : KernelM Bool := do
  let size := (← getInode dp).dinode.size.toNat
  isdiremptyLoop dp (size / direntSize + 1) (2 * direntSize)

/-- The test of `sys_unlink` for a directory that is not empty. -/
def occupied (ip : Slot) : KernelM Bool := do
  if (← getInode ip).dinode.type = tDir then
    return !(← isdirempty ip)
  else return false

/-- The part of `sys_unlink` at its label `bad`. -/
def unlinkBad (dp : Slot) : KernelM Int := do
  iunlockput dp
  onStore endOp
  return -1

/-- The end of `sys_unlink`, once the entry is removed. -/
def unlinkEnd (dp ip : Slot) : KernelM Int := do
  iunlockput dp
  modifyDinode ip fun dinode => { dinode with nlink := dinode.nlink - 1 }
  iupdate ip
  iunlockput ip
  onStore endOp
  return 0

/-- The part of `sys_unlink` that removes the entry at an offset. -/
def unlinkEntry (dp ip : Slot) (off : Nat) : KernelM Int := do
  if (← writei dp (List.replicate direntSize 0) off) ≠ direntSize then
    throw (.panic "unlink: writei")
  if (← getInode ip).dinode.type = tDir then
    modifyDinode dp fun dinode => { dinode with nlink := dinode.nlink - 1 }
    iupdate dp
  unlinkEnd dp ip

/-- The part of `sys_unlink` once the entry is found. -/
def unlinkFound (dp ip : Slot) (off : Nat) : KernelM Int := do
  ilock ip
  if (← getInode ip).dinode.nlink.toInt < 1 then
    throw (.panic "unlink: nlink < 1")
  if ← occupied ip then
    iunlockput ip
    unlinkBad dp
  else unlinkEntry dp ip off

/-- The part of `sys_unlink` once the parent directory is found. -/
def unlinkIn (dp : Slot) (name : List Byte) : KernelM Int := do
  ilock dp
  if namecmp name dot = 0 ∨ namecmp name dotdot = 0 then unlinkBad dp
  else
    match ← dirlookup dp name with
    | none => unlinkBad dp
    | some (ip, off) => unlinkFound dp ip off

/-- `sys_unlink`. -/
def sysUnlink (path : StringArgument) : KernelM Int := do
  match argstr path with
  | none => return -1
  | some path =>
    onStore beginOp
    match ← nameiparent path with
    | none =>
      onStore endOp
      return -1
    | some (dp, name) => unlinkIn dp name

/-! ## Open files -/

/-- Replace an entry of the table of open files. -/
def Kernel.setFile (os : Kernel) (f : Fin nfile) (file : File) : Kernel :=
  { os with ftable := Function.update os.ftable f file }

/-- Replace the current process. -/
def Kernel.setProc (os : Kernel) (proc : Proc) : Kernel :=
  { os with procs := Function.update os.procs os.cur proc }

/-- `filealloc`. -/
def filealloc : KernelM (Option (Fin nfile)) := do
  let os ← get
  match (List.finRange nfile).find? fun f => (os.ftable f).ref = 0 with
  | none => return none
  | some f =>
    set (os.setFile f { os.ftable f with ref := 1 })
    return some f

/-- `fdalloc`. -/
def fdalloc (f : Fin nfile) : KernelM (Option (Fin nofile)) := do
  let os ← get
  let proc := os.procs os.cur
  match (List.finRange nofile).find? fun fd => proc.ofile fd = none with
  | none => return none
  | some fd =>
    set (os.setProc { proc with ofile := Function.update proc.ofile fd (some f) })
    return some fd

/-- `filedup`. -/
def filedup (f : Fin nfile) : KernelM (Fin nfile) := do
  let os ← get
  let file := os.ftable f
  if file.ref < 1 then
    throw (.panic "filedup")
  set (os.setFile f { file with ref := file.ref + 1 })
  return f

/-- `fileclose`; closing a pipe does not concern the file system. -/
def fileclose (f : Fin nfile) : KernelM Unit := do
  let os ← get
  let file := os.ftable f
  if file.ref < 1 then
    throw (.panic "fileclose")
  if 0 < file.ref - 1 then
    set (os.setFile f { file with ref := file.ref - 1 })
  else
    set (os.setFile f { file with ref := 0, type := .none })
    if file.type = .inode then
      onStore beginOp
      iput file.ip
      onStore endOp

/-- The end of `sys_open`, once the inode is found and locked. -/
def openFile (ip : Slot) (omode : Nat) : KernelM Int := do
  match ← filealloc with
  | none =>
    iunlockput ip
    onStore endOp
    return -1
  | some f =>
    match ← fdalloc f with
    | none =>
      fileclose f
      iunlockput ip
      onStore endOp
      return -1
    | some fd =>
      iunlock ip
      onStore endOp
      modify fun os => os.setFile f
        { os.ftable f with
          type := .inode
          ip := ip
          off := 0
          readable := !omode.testBit 0
          writable := omode.testBit 0 || omode.testBit 1 }
      return fd.val

/-- `sys_open`; bits 0, 1 and 9 of the mode are `O_WRONLY`, `O_RDWR` and
`O_CREATE`. -/
def sysOpen (path : StringArgument) (omode : Nat) : KernelM Int := do
  match argstr path with
  | none => return -1
  | some path =>
    onStore beginOp
    if omode.testBit 9 then
      match ← create path tFile 0 0 with
      | none =>
        onStore endOp
        return -1
      | some ip => openFile ip omode
    else
      match ← namei path with
      | none =>
        onStore endOp
        return -1
      | some ip =>
        ilock ip
        if (← getInode ip).dinode.type = tDir ∧ omode ≠ 0 then
          iunlockput ip
          onStore endOp
          return -1
        else openFile ip omode

/-- The common form of `sys_mkdir` and `sys_mknod`. -/
def makeNode (path : StringArgument) (type major minor : BitVec 16) : KernelM Int := do
  onStore beginOp
  match argstr path with
  | none =>
    onStore endOp
    return -1
  | some path =>
    match ← create path type major minor with
    | none =>
      onStore endOp
      return -1
    | some ip =>
      iunlockput ip
      onStore endOp
      return 0

/-- `sys_mkdir`. -/
def sysMkdir (path : StringArgument) : KernelM Int :=
  makeNode path tDir 0 0

/-- `sys_mknod`; `create` takes the numbers as shorts. -/
def sysMknod (path : StringArgument) (major minor : BitVec 32) : KernelM Int :=
  makeNode path tDev (major.setWidth 16) (minor.setWidth 16)

/-- `sys_chdir`. -/
def sysChdir (path : StringArgument) : KernelM Int := do
  onStore beginOp
  match argstr path with
  | none =>
    onStore endOp
    return -1
  | some path =>
    match ← namei path with
    | none =>
      onStore endOp
      return -1
    | some ip =>
      ilock ip
      if (← getInode ip).dinode.type ≠ tDir then
        iunlockput ip
        onStore endOp
        return -1
      else
        iunlock ip
        let os ← get
        iput (os.procs os.cur).cwd
        onStore endOp
        modify fun os =>
          os.setProc { os.procs os.cur with cwd := ip }
        return 0

/-- `sys_close`. -/
def sysClose (fd : Nat) : KernelM Int := do
  if inside : fd < nofile then
    let os ← get
    let proc := os.procs os.cur
    match proc.ofile ⟨fd, inside⟩ with
    | none => return -1
    | some f =>
      set (os.setProc { proc with ofile := Function.update proc.ofile ⟨fd, inside⟩ none })
      fileclose f
      return 0
  else return -1

/-! ## Processes -/

/-- The loop of `fork` over open files. -/
def forkFiles (ofile : Fin nofile → Option (Fin nfile)) : List (Fin nofile) → KernelM Unit
  | [] => return
  | fd :: fds => do
    match ofile fd with
    | none => pure ()
    | some f => discard (filedup f)
    forkFiles ofile fds

/-- `fork`.  `memory` says whether there is memory for the child. -/
def fork (memory : Bool) : KernelM Int := do
  let os ← get
  match (List.finRange nproc).find? fun p =>
      (os.procs p).state = .unused with
  | none => return -1
  | some np =>
    set { os with nextpid := os.nextpid + 1 }
    if memory then
      let parent := os.procs os.cur
      forkFiles parent.ofile (List.finRange nofile)
      let cwd ← idup parent.cwd
      let child : Proc :=
        { state := .live
          pid := os.nextpid
          ofile := fun fd =>
            (parent.ofile fd).or ((os.procs np).ofile fd)
          cwd := cwd }
      modify fun os =>
        { os with procs := Function.update os.procs np child }
      return os.nextpid
    else return -1

/-- The loop of `exit` over open files. -/
def exitFiles : List (Fin nofile) → KernelM Unit
  | [] => return
  | fd :: fds => do
    let os ← get
    let proc := os.procs os.cur
    match proc.ofile fd with
    | none => pure ()
    | some f =>
      fileclose f
      modify fun os =>
        let proc := os.procs os.cur
        os.setProc
          { proc with ofile := Function.update proc.ofile fd none }
    exitFiles fds

/-- The end of `exit`, once its files are closed. -/
def exitEnd : KernelM Unit := do
  onStore beginOp
  let os ← get
  iput (os.procs os.cur).cwd
  onStore endOp
  modify fun os =>
    os.setProc { os.procs os.cur with state := .zombie }

/-- `exit`, up to the end of the process. -/
def exit : KernelM Unit := do
  let os ← get
  if os.cur = os.initproc then
    throw (.panic "init exiting")
  exitFiles (List.finRange nofile)
  exitEnd

end Xv6.Fs
