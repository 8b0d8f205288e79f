import Xv6.Fs.Lookup
import Xv6.Fs.WellFormed
import Xv6.Process.Table

/-!
# The first process

The state in which the first process starts, and a small disk to start from.
-/

namespace Xv6.Fs

/-- An entry of `icache` that was never used. -/
def Inode.unused : Inode where
  dev := 0
  inum := 0
  ref := 0
  lock := none
  valid := false
  dinode := .zero

/-- An entry of the table of open files that was never used. -/
def File.unused : File where
  type := .none
  ref := 0
  readable := false
  writable := false
  ip := 0
  off := 0

/-- The kernel after `userinit`, `iinit` and `initlog`: the only process is the
first one, and its current directory is the root. -/
def boot (store : Store) (devsw : Nat → Option Driver) : Kernel where
  store := store
  icache := Function.update (fun _ => .unused) 0
    { Inode.unused with dev := rootdev, inum := rootino, ref := 1 }
  ftable := fun _ => .unused
  procs := Function.update
    (fun _ => { state := .unused, pid := 0, ofile := fun _ => none, cwd := 0 })
    0 { state := .live, pid := 1, ofile := fun _ => none, cwd := 0 }
  cur := 0
  initproc := 0
  nextpid := 2
  devsw := devsw
  devcalls := 0

section Boot

variable {store : Store} {devsw : Nat → Option Driver}

theorem boot_refs : (boot store devsw).refs = Pi.single 0 1 := by
  funext ip
  by_cases first : ip = 0
  · subst first
    rfl
  · rw [Pi.single_eq_of_ne first, Kernel.refs]
    simp only [boot, Function.update_of_ne first]
    rfl

theorem boot_locks (ip : Slot) : (boot store devsw).locks ip = none := by
  by_cases first : ip = 0
  · subst first
    rfl
  · rw [Kernel.locks]
    simp only [boot, Function.update_of_ne first]
    rfl

/-- Only the entry for the root is in use. -/
theorem boot_held {ip : Slot} (held : 0 < (boot store devsw).refs ip) : ip = 0 := by
  by_contra other
  rw [boot_refs, Pi.single_eq_of_ne other] at held
  exact lt_irrefl 0 held

theorem boot_cached (layout : store.sb.Valid) : Cached (boot store devsw) where
  counted ip := by
    rw [boot_refs]
    by_cases first : ip = 0
    · subst first
      decide
    · rw [Pi.single_eq_of_ne first]
  device ip held := by
    cases boot_held held
    rfl
  inside ip held := by
    cases boot_held held
    exact layout.root
  unique ip jp held held' _ := (boot_held held).trans (boot_held held').symm
  agrees ip held valid := by
    cases boot_held held
    cases valid

end Boot

/-! ## A small disk -/

/-- A super block with one block of inodes, one of the bitmap and ten of
data. -/
def smallSuperblock : Superblock where
  size := 44
  nblocks := 10
  ninodes := 8
  nlog := 30
  logstart := 2
  inodestart := 32
  bmapstart := 33

/-- A block of inodes. -/
def inodeBlock : List Dinode → Nat → Block
  | [], _ => 0
  | dinode :: rest, index =>
    Foundation.BitField.setCell (inodeBlock rest (index + 1)) index dinode.toBits

/-- A block of directory entries. -/
def direntBlock (entries : List Dirent) : Block :=
  (0 : Block).setBytes 0 (entries.flatMap Dirent.toBytes)

/-- A small disk with the given inodes and data blocks. -/
def smallStore (dinodes : List Dinode) (data : List Block) : Store where
  sb := smallSuperblock
  blocks := fun number =>
    if number = 32 then inodeBlock dinodes 0
    else if number = 33 then BitVec.ofNat 4096 (2 ^ (34 + data.length) - 1)
    else if number < 34 then 0
    else data.getD (number - 34) 0
  logSize := 30
  outstanding := 0
  logged := []

/-- An inode with one block. -/
def smallDinode (type : BitVec 16) (size : Nat) (number : Nat) : Dinode where
  type := type
  major := 0
  minor := 0
  nlink := 1
  size := BitVec.ofNat 32 size
  addrs := Function.update (fun _ => 0) 0 (BitVec.ofNat 32 number)

/-- A small disk with an empty root directory. -/
def emptyStore : Store :=
  smallStore [.zero, smallDinode tDir 32 34]
    [direntBlock [linkEntry dot rootino, linkEntry dotdot rootino]]

theorem checked_emptyStore : Checked emptyStore ∧ WholeEntries emptyStore := by
  decide +kernel

end Xv6.Fs
