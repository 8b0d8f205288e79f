import Xv6.Fs.Inode

/-!
# Directories and paths

The directory layer of `fs.c`: directory entries, `dirlookup`, `dirlink`,
`skipelem` and `namex`.  A string is the list of its characters, without the
terminating NUL.
-/

namespace Xv6.Fs

/-- `sizeof(struct dirent)`. -/
abbrev direntSize : Nat := 16

/-- `struct dirent`. -/
structure Dirent where
  inum : BitVec 16
  name : List Byte
  deriving DecidableEq

namespace Dirent

/-- Read a `struct dirent`. -/
def ofBytes (bytes : List Byte) : Dirent where
  inum := bytes.getD 1 0 ++ bytes.getD 0 0
  name := bytes.drop 2

/-- Write a `struct dirent`. -/
def toBytes (dirent : Dirent) : List Byte :=
  dirent.inum.extractLsb' 0 8 :: dirent.inum.extractLsb' 8 8 :: dirent.name

end Dirent

/-- `strncmp`; a string ends where its list does. -/
def strncmp : List Byte → List Byte → Nat → Int
  | _, _, 0 => 0
  | p, q, n + 1 =>
    if p.headD 0 ≠ 0 ∧ p.headD 0 = q.headD 0 then strncmp p.tail q.tail n
    else ((p.headD 0).toNat : Int) - (q.headD 0).toNat

/-- `namecmp`. -/
def namecmp (s t : List Byte) : Int :=
  strncmp s t dirsiz

/-- What `strncpy` stores in a buffer of `n` bytes. -/
def strncpy (t : List Byte) (n : Nat) : List Byte :=
  let copied := (t.take n).takeWhile (· ≠ 0)
  copied ++ List.replicate (n - copied.length) 0

/-- `readi` of one directory entry, with `panic` if it is not whole. -/
def readDirent (dp : Slot) (off : Nat) (message : String) : KernelM Dirent := do
  match ← readi dp off direntSize with
  | none => throw (.panic message)
  | some bytes =>
    if bytes.length ≠ direntSize then throw (.panic message)
    else return .ofBytes bytes

/-- The loop of `dirlookup`: the inode number and offset of the entry. -/
def dirlookupLoop (dp : Slot) (name : List Byte) : Nat → Nat → KernelM (Option (Nat × Nat))
  | 0, _ => return none
  | fuel + 1, off => do
    if off < (← getInode dp).dinode.size.toNat then
      let de ← readDirent dp off "dirlookup read"
      if de.inum = 0 then dirlookupLoop dp name fuel (off + direntSize)
      else if namecmp name de.name = 0 then return some (de.inum.toNat, off)
      else dirlookupLoop dp name fuel (off + direntSize)
    else return none

/-- `dirlookup`: the inode and the offset of its entry. -/
def dirlookup (dp : Slot) (name : List Byte) : KernelM (Option (Slot × Nat)) := do
  let inode ← getInode dp
  if inode.dinode.type ≠ tDir then
    throw (.panic "dirlookup not DIR")
  match ← dirlookupLoop dp name (inode.dinode.size.toNat / direntSize + 1) 0 with
  | none => return none
  | some (inum, off) => return some (← iget inode.dev inum, off)

/-- The loop of `dirlink`: the offset of an empty entry, or the end. -/
def dirlinkLoop (dp : Slot) : Nat → Nat → KernelM Nat
  | 0, off => return off
  | fuel + 1, off => do
    if off < (← getInode dp).dinode.size.toNat then
      let de ← readDirent dp off "dirlink read"
      if de.inum = 0 then return off
      else dirlinkLoop dp fuel (off + direntSize)
    else return off

/-- `dirlink`. -/
def dirlink (dp : Slot) (name : List Byte) (inum : Nat) : KernelM Int := do
  match ← dirlookup dp name with
  | some (ip, _) =>
    iput ip
    return -1
  | none =>
    let size := (← getInode dp).dinode.size.toNat
    let off ← dirlinkLoop dp (size / direntSize + 1) 0
    let de : Dirent := ⟨BitVec.ofNat 16 inum, strncpy name dirsiz⟩
    if (← writei dp de.toBytes off) ≠ direntSize then
      throw (.panic "dirlink")
    return 0

/-! ## Paths -/

/-- The character `/`. -/
abbrev slash : Byte := 0x2f

/-- The name `.`. -/
abbrev dot : List Byte := [0x2e]

/-- The name `..`. -/
abbrev dotdot : List Byte := [0x2e, 0x2e]

/-- `skipelem`: the first element of the path and the rest, if there is one. -/
def skipelem (path : List Byte) : Option (List Byte × List Byte) :=
  let path := path.dropWhile (· = slash)
  if path = [] then none
  else
    let name := (path.takeWhile (· ≠ slash)).take dirsiz
    some (name, (path.dropWhile (· ≠ slash)).dropWhile (· = slash))

/-- The loop of `namex`.  It needs no more rounds than the path has
characters, and one to see the end. -/
def namexLoop (nameiparent : Bool) :
    Nat → List Byte → Slot → List Byte → KernelM (Option (Slot × List Byte))
  | 0, _, _, _ => return none
  | fuel + 1, path, ip, name => do
    match skipelem path with
    | none =>
      if nameiparent then
        iput ip
        return none
      else return some (ip, name)
    | some (name, path) =>
      ilock ip
      if (← getInode ip).dinode.type ≠ tDir then
        iunlockput ip
        return none
      else if nameiparent ∧ path = [] then
        iunlock ip
        return some (ip, name)
      else
        match ← dirlookup ip name with
        | none =>
          iunlockput ip
          return none
        | some (next, _) =>
          iunlockput ip
          namexLoop nameiparent fuel path next name

/-- `namex`: the inode and the last element of the path. -/
def namex (path : List Byte) (nameiparent : Bool) : KernelM (Option (Slot × List Byte)) := do
  let ip ←
    if path.head? = some slash then iget rootdev rootino
    else do
      let os ← get
      idup (os.procs os.cur).cwd
  namexLoop nameiparent (path.length + 1) path ip []

/-- `namei`. -/
def namei (path : List Byte) : KernelM (Option Slot) := do
  return (← namex path false).map Prod.fst

/-- `nameiparent`. -/
def nameiparent (path : List Byte) : KernelM (Option (Slot × List Byte)) :=
  namex path true

end Xv6.Fs
