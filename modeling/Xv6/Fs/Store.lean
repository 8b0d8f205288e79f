import Xv6.Foundation.Program
import Xv6.Fs.Layout
import Xv6.Log.GroupCommit

/-!
# Blocks, bitmap and inode contents

The part of `fs.c` that works on disk blocks: `balloc`, `bfree`, `bmap`, the
loops of `readi` and `writei`, `itrunc`, and the reading and writing of on-disk
inodes.  The blocks are those the buffer cache shows.  A change of a buffer and
the `log_write` of it are one operation.  Functions that change `ip->addrs`
take the inode's fields and return them.
-/

namespace Xv6.Fs

open Foundation.BitField
open Log (logsize maxopblocks absorb)

/-- Why a call does not return. -/
inductive Stop
  /-- `panic` with a message. -/
  | panic (message : String)
  /-- The process waits for a sleep lock that it holds. -/
  | deadlock
  /-- The process waits for another process. -/
  | asleep
  deriving DecidableEq

/-- The file system as the buffer cache shows it, with `struct log`. -/
structure Store where
  /-- The super block, read once by `iinit`. -/
  sb : Superblock
  /-- The contents of each block. -/
  blocks : Nat → Block
  /-- `log.size`. -/
  logSize : Nat
  /-- `log.outstanding`. -/
  outstanding : Nat
  /-- `log.lh.block[0..n)`. -/
  logged : List Nat

/-- Code that works on the store. -/
abbrev StoreM := StateT Store (Except Stop)

namespace Dinode

/-- `addrs[index]`. -/
def addr (dinode : Dinode) (index : Nat) : BitVec 32 :=
  dinode.addrs (Fin.ofNat 13 index)

/-- `addrs[index] = value`. -/
def setAddr (dinode : Dinode) (index : Nat) (value : BitVec 32) : Dinode :=
  { dinode with
    addrs := Function.update dinode.addrs (Fin.ofNat 13 index) value }

end Dinode

/-- Store new contents in a block and `log_write` it. -/
def logWrite (number : Nat) (contents : Block) : StoreM Unit := do
  let store ← get
  if logsize ≤ store.logged.length ∨
      store.logSize - 1 ≤ store.logged.length then
    throw (.panic "too big a transaction")
  if store.outstanding < 1 then
    throw (.panic "log_write outside of trans")
  set { store with
    blocks := Function.update store.blocks number contents
    logged := absorb store.logged number }

/-- The admission of `begin_op`, for a process that has the log to itself. -/
def beginOp : StoreM Unit := do
  let store ← get
  if logsize < store.logged.length + (store.outstanding + 1) * maxopblocks then
    throw .asleep
  set { store with outstanding := store.outstanding + 1 }

/-- `end_op`, which commits when no operation is left. -/
def endOp : StoreM Unit :=
  modify fun store =>
    { store with
      outstanding := store.outstanding - 1
      logged := if store.outstanding - 1 = 0 then [] else store.logged }

namespace Superblock

/-- `BBLOCK`, the bitmap block of a block. -/
def bblock (sb : Superblock) (number : Nat) : Nat :=
  number / bpb + sb.bmapstart

/-- `IBLOCK`, the block of an inode. -/
def iblock (sb : Superblock) (inum : Nat) : Nat :=
  inum / ipb + sb.inodestart

end Superblock

namespace Store

/-- The bitmap bit of a block. -/
def bit (store : Store) (number : Nat) : Bool :=
  (store.blocks (store.sb.bblock number)).getLsbD (number % bpb)

/-- The on-disk inode of a number. -/
def dinode (store : Store) (inum : Nat) : Dinode :=
  .ofBits (cell 512 (store.blocks (store.sb.iblock inum)) (inum % ipb))

end Store

/-- Change one bit of the bitmap. -/
def setBit (number : Nat) (value : BitVec 1) : StoreM Unit := do
  let store ← get
  let bitmap := store.sb.bblock number
  logWrite bitmap (setCell (store.blocks bitmap) (number % bpb) value)

/-- `balloc`: mark the first free block as used and zero it. -/
def balloc : StoreM Nat := do
  let store ← get
  match (List.range store.sb.size).find? fun number => !store.bit number with
  | none => throw (.panic "balloc: out of blocks")
  | some number =>
    setBit number 1
    logWrite number 0
    return number

/-- `bfree`. -/
def bfree (number : Nat) : StoreM Unit := do
  let store ← get
  if store.bit number = false then
    throw (.panic "freeing free block")
  setBit number 0

/-- Write an on-disk inode. -/
def writeDinode (inum : Nat) (dinode : Dinode) : StoreM Unit := do
  let store ← get
  let number := store.sb.iblock inum
  logWrite number (setCell (store.blocks number) (inum % ipb) dinode.toBits)

/-- Allocate a block for an address of the inode that has none. -/
def mapDirect (dinode : Dinode) (index : Nat) : StoreM (BitVec 32 × Dinode) :=
  if dinode.addr index = 0 then do
    let number ← balloc
    let address := BitVec.ofNat 32 number
    return (address, dinode.setAddr index address)
  else return (dinode.addr index, dinode)

/-- Allocate a block for an address of an indirect block that has none. -/
def mapIndirect (indirect index : Nat) : StoreM (BitVec 32) := do
  let store ← get
  let address := (store.blocks indirect).word index
  if address = 0 then
    let number ← balloc
    let address := BitVec.ofNat 32 number
    let store ← get
    logWrite indirect ((store.blocks indirect).setWord index address)
    return address
  else return address

/-- `bmap`, with the changed inode. -/
def bmap (dinode : Dinode) (bn : Nat) : StoreM (BitVec 32 × Dinode) :=
  if bn < ndirect then mapDirect dinode bn
  else if bn - ndirect < nindirect then do
    let (indirect, dinode) ← mapDirect dinode ndirect
    let address ← mapIndirect indirect.toNat (bn - ndirect)
    return (address, dinode)
  else throw (.panic "bmap: out of range")

/-- The loop of `readi`; `left` is `n - tot`. -/
def readiLoop : Nat → Dinode → Nat → Nat → StoreM (List Byte × Dinode)
  | 0, dinode, _, _ => return ([], dinode)
  | fuel + 1, dinode, off, left =>
    if left = 0 then return ([], dinode)
    else do
      let (address, dinode) ← bmap dinode (off / bsize)
      let store ← get
      let m := min left (bsize - off % bsize)
      let bytes := (store.blocks address.toNat).bytes (off % bsize) m
      let (rest, dinode) ← readiLoop fuel dinode (off + m) (left - m)
      return (bytes ++ rest, dinode)

/-- The loop of `writei`; `src` is what is left to write. -/
def writeiLoop : Nat → Dinode → Nat → List Byte → StoreM Dinode
  | 0, dinode, _, _ => return dinode
  | fuel + 1, dinode, off, src =>
    if src.length = 0 then return dinode
    else do
      let (address, dinode) ← bmap dinode (off / bsize)
      let store ← get
      let m := min src.length (bsize - off % bsize)
      logWrite address.toNat ((store.blocks address.toNat).setBytes (off % bsize) (src.take m))
      writeiLoop fuel dinode (off + m) (src.drop m)

/-- The first loop of `itrunc`, over the given addresses. -/
def truncDirect : List Nat → Dinode → StoreM Dinode
  | [], dinode => return dinode
  | index :: indices, dinode =>
    if dinode.addr index ≠ 0 then do
      bfree (dinode.addr index).toNat
      truncDirect indices (dinode.setAddr index 0)
    else truncDirect indices dinode

/-- The second loop of `itrunc`, over the given words of the indirect
block. -/
def truncIndirect (indirect : Block) : List Nat → StoreM Unit
  | [] => return
  | index :: indices => do
    if indirect.word index ≠ 0 then
      bfree (indirect.word index).toNat
    truncIndirect indirect indices

/-- `itrunc`, up to its `iupdate`. -/
def truncate (dinode : Dinode) : StoreM Dinode := do
  let dinode ← truncDirect (List.range ndirect) dinode
  if dinode.addr ndirect ≠ 0 then
    let store ← get
    let indirect := (dinode.addr ndirect).toNat
    truncIndirect (store.blocks indirect) (List.range nindirect)
    bfree indirect
    return { dinode.setAddr ndirect 0 with size := 0 }
  else return { dinode with size := 0 }

end Xv6.Fs
