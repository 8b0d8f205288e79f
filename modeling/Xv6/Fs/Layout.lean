import Xv6.Disk.Block
import Mathlib.Data.Fintype.Card

/-!
# The on-disk format

The constants and structures of `fs.h`, `stat.h` and `param.h`: the super
block, the on-disk inode and the directory entry, each with the bits it has in
a block.
-/

namespace Xv6.Fs

open Foundation.BitField

/-- `ROOTINO`. -/
abbrev rootino : Nat := 1

/-- `ROOTDEV`. -/
abbrev rootdev : Nat := 1

/-- `NDIRECT`. -/
abbrev ndirect : Nat := 12

/-- `NINDIRECT`. -/
abbrev nindirect : Nat := 128

/-- `MAXFILE`. -/
abbrev maxfile : Nat := ndirect + nindirect

/-- `IPB`, the inodes of a block. -/
abbrev ipb : Nat := 8

/-- `BPB`, the bitmap bits of a block. -/
abbrev bpb : Nat := 4096

/-- `DIRSIZ`. -/
abbrev dirsiz : Nat := 14

/-- `T_DIR`. -/
abbrev tDir : BitVec 16 := 1

/-- `T_FILE`. -/
abbrev tFile : BitVec 16 := 2

/-- `T_DEV`. -/
abbrev tDev : BitVec 16 := 3

/-- `struct superblock`. -/
structure Superblock where
  size : Nat
  nblocks : Nat
  ninodes : Nat
  nlog : Nat
  logstart : Nat
  inodestart : Nat
  bmapstart : Nat
  deriving DecidableEq

/-- `struct dinode`. -/
@[ext] structure Dinode where
  type : BitVec 16
  major : BitVec 16
  minor : BitVec 16
  nlink : BitVec 16
  size : BitVec 32
  addrs : Fin 13 → BitVec 32
  deriving DecidableEq

namespace Dinode

/-- An inode of zero bytes. -/
def zero : Dinode where
  type := 0
  major := 0
  minor := 0
  nlink := 0
  size := 0
  addrs := fun _ => 0

/-- Read a `struct dinode`. -/
def ofBits (bits : BitVec 512) : Dinode where
  type := field bits 0 16
  major := field bits 16 16
  minor := field bits 32 16
  nlink := field bits 48 16
  size := field bits 64 32
  addrs := fun index => field bits (96 + 32 * index) 32

instance neZero_addrs : NeZero 13 := ⟨by decide⟩

/-- Store the first `count` block addresses. -/
def setAddrs (bits : BitVec 512) (addrs : Fin 13 → BitVec 32) : Nat → BitVec 512
  | 0 => bits
  | count + 1 => setField (setAddrs bits addrs count) (96 + 32 * count) (addrs (Fin.ofNat 13 count))

/-- Write a `struct dinode`. -/
def toBits (dinode : Dinode) : BitVec 512 :=
  let bits := setField (0 : BitVec 512) 0 dinode.type
  let bits := setField bits 16 dinode.major
  let bits := setField bits 32 dinode.minor
  let bits := setField bits 48 dinode.nlink
  let bits := setField bits 64 dinode.size
  setAddrs bits dinode.addrs 13

theorem field_setAddrs_of_le (bits : BitVec 512) (addrs : Fin 13 → BitVec 32)
    (count offset width : Nat) (before : offset + width ≤ 96) :
    field (setAddrs bits addrs count) offset width = field bits offset width := by
  induction count with
  | zero => rfl
  | succ count ih => rw [setAddrs, field_setField_disjoint _ _ _ _ _ (by omega), ih]

theorem field_setAddrs (bits : BitVec 512) (addrs : Fin 13 → BitVec 32)
    {count : Nat} (short : count ≤ 13) (index : Fin 13) (stored : index < count) :
    field (setAddrs bits addrs count) (96 + 32 * index) 32 = addrs index := by
  induction count with
  | zero => omega
  | succ count ih =>
    rw [setAddrs]
    by_cases last : index.val = count
    · subst last
      rw [field_setField_self _ _ _ (by omega)]
      congr 1
      exact Fin.ext (Nat.mod_eq_of_lt index.isLt)
    · rw [field_setField_disjoint _ _ _ _ _ (by omega)]
      exact ih (by omega) (by omega)

/-- What was written is read back. -/
@[simp] theorem ofBits_toBits (dinode : Dinode) : ofBits dinode.toBits = dinode := by
  have keep := fun offset width before =>
    field_setAddrs_of_le (setField (setField (setField (setField (setField (0 : BitVec 512) 0
        dinode.type) 16 dinode.major) 32 dinode.minor) 48 dinode.nlink) 64
        dinode.size)
      dinode.addrs 13 offset width before
  ext1
  · refine (keep 0 16 (by omega)).trans ?_
    simp (disch := omega) only [field_setField_disjoint, field_setField_self]
  · refine (keep 16 16 (by omega)).trans ?_
    simp (disch := omega) only [field_setField_disjoint, field_setField_self]
  · refine (keep 32 16 (by omega)).trans ?_
    simp (disch := omega) only [field_setField_disjoint, field_setField_self]
  · refine (keep 48 16 (by omega)).trans ?_
    simp (disch := omega) only [field_setField_disjoint, field_setField_self]
  · refine (keep 64 32 (by omega)).trans ?_
    simp (disch := omega) only [field_setField_self]
  · funext index
    exact field_setAddrs _ _ (le_refl 13) index index.isLt

end Dinode

end Xv6.Fs
