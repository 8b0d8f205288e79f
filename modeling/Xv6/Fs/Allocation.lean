import Xv6.Foundation.Ownership
import Xv6.Fs.Store

/-!
# What the block allocator does

Specifications of `log_write`, `balloc`, `bfree` and the writing of on-disk
inodes: which blocks, bitmap bits and inodes they change.
-/

namespace Xv6.Fs

open Function Foundation.BitField Foundation.Program
open Log (logsize absorb)

/-- The regions of the disk follow each other: inodes, bitmap, data.  There is
a root inode. -/
structure Superblock.Valid (sb : Superblock) : Prop where
  root : rootino < sb.ninodes
  inodes : ∀ inum < sb.ninodes, sb.iblock inum < sb.bmapstart
  bitmap : ∀ number < sb.size, sb.bblock number < sb.size - sb.nblocks
  address : sb.size ≤ 2 ^ 32

/-- The first block of the data area. -/
def Superblock.dataStart (sb : Superblock) : Nat :=
  sb.size - sb.nblocks

/-- Stopping for want of blocks, inodes, cache entries or log space. -/
structure Lenient (stops : Stop → Prop) : Prop where
  tooBig : stops (.panic "too big a transaction")
  outside : stops (.panic "log_write outside of trans")
  blocks : stops (.panic "balloc: out of blocks")
  inodes : stops (.panic "ialloc: no inodes")
  entries : stops (.panic "iget: no inodes")

namespace Superblock

theorem bblock_ge (sb : Superblock) (number : Nat) : sb.bmapstart ≤ sb.bblock number :=
  Nat.le_add_left ..

/-- Inode blocks are not bitmap blocks. -/
theorem Valid.iblock_ne_bblock {sb : Superblock} (valid : sb.Valid)
    {inum : Nat} (inside : inum < sb.ninodes) (number : Nat) : sb.iblock inum ≠ sb.bblock number :=
  ((valid.inodes inum inside).trans_le (sb.bblock_ge number)).ne

end Superblock

variable {store : Store} {stops : Stop → Prop}

/-- A step of the store that keeps the super block and the transaction. -/
structure Kept (store next : Store) : Prop where
  sb : next.sb = store.sb
  logSize : next.logSize = store.logSize
  outstanding : next.outstanding = store.outstanding

theorem Kept.refl (store : Store) : Kept store store :=
  ⟨rfl, rfl, rfl⟩

theorem Kept.trans {first second third : Store}
    (one : Kept first second) (two : Kept second third) : Kept first third :=
  ⟨two.sb.trans one.sb, two.logSize.trans one.logSize, two.outstanding.trans one.outstanding⟩

/-- `log_write` stores the contents or finds the log unfit. -/
theorem logWrite_spec (number : Nat) (contents : Block) (lenient : Lenient stops) :
    wp (logWrite number contents) (fun _ next => Kept store next ∧
        next.blocks = update store.blocks number contents)
      stops store := by
  unfold logWrite
  simp only [wp_bind, wp_get, wp_ite, wp_throw, wp_set]
  refine ⟨fun _ => lenient.tooBig, fun _ => ⟨fun _ => lenient.outside,
    fun _ => ⟨⟨rfl, rfl, rfl⟩, trivial⟩⟩⟩

/-! ## The bitmap -/

/-- Reading a bit after one bit was written. -/
theorem getLsbD_setCell_one (region : BitVec n) (index other : Nat) (value : BitVec 1)
    (inside : other < n) :
    (setCell region index value).getLsbD other =
      if other = index then value.getLsbD 0 else region.getLsbD other := by
  rw [setCell, getLsbD_setField _ _ _ _ inside]
  by_cases same : other = index
  · subst same
    simp
  · rw [if_neg (by omega), if_neg same]

theorem eq_of_place {start per first second : Nat}
    (sameBlock : first / per + start = second / per + start)
    (samePlace : first % per = second % per) : first = second := by
  have quotient : first / per = second / per := Nat.add_right_cancel sameBlock
  rw [← Nat.div_add_mod first per, ← Nat.div_add_mod second per, quotient, samePlace]

/-- Blocks share a bit only with themselves. -/
theorem Superblock.bit_address_injective {sb : Superblock} {first second : Nat}
    (sameBlock : sb.bblock first = sb.bblock second)
    (sameBit : first % bpb = second % bpb) : first = second :=
  eq_of_place sameBlock sameBit

/-- One bit of the bitmap has been written. -/
structure BitWritten (store next : Store) (number : Nat) (value : Bool) :
    Prop where
  kept : Kept store next
  bit : ∀ other, next.bit other = if other = number then value else store.bit other
  blocks : ∀ other, other ≠ store.sb.bblock number → next.blocks other = store.blocks other

theorem setBit_spec (number : Nat) (value : BitVec 1) (lenient : Lenient stops) :
    wp (setBit number value) (fun _ next => BitWritten store next number (value.getLsbD 0))
      stops store := by
  unfold setBit
  rw [wp_bind, wp_get]
  refine wp_mono (logWrite_spec _ _ lenient) ?_ fun _ => id
  rintro _ next ⟨kept, blocks⟩
  refine ⟨kept, fun other => ?_, fun other apart => ?_⟩
  · unfold Store.bit
    rw [kept.sb, blocks]
    by_cases here : store.sb.bblock other = store.sb.bblock number
    · rw [here, update_self, getLsbD_setCell_one _ _ _ _ (Nat.mod_lt _ (by decide))]
      by_cases same : other = number
      · rw [if_pos same, if_pos (by rw [same])]
      · rw [if_neg same, if_neg fun sameBit =>
          same (Superblock.bit_address_injective here sameBit)]
    · rw [update_of_ne here, if_neg fun same => here (by rw [same])]
  · rw [blocks, update_of_ne apart]

/-- A block has been allocated. -/
structure Allocated (store next : Store) (number : Nat) : Prop where
  kept : Kept store next
  inside : number < store.sb.size
  free : store.bit number = false
  data : store.sb.dataStart ≤ number
  bit : ∀ other < store.sb.size, next.bit other = if other = number then true else store.bit other
  zeroed : next.blocks number = 0
  blocks : ∀ other, other ≠ number → other ≠ store.sb.bblock number →
    next.blocks other = store.blocks other

/-- `balloc` takes a free data block, provided that the bitmap marks the
metadata. -/
theorem balloc_spec (valid : store.sb.Valid)
    (metadata : ∀ number < store.sb.dataStart, store.bit number = true) (lenient : Lenient stops) :
    wp balloc (fun number next => Allocated store next number) stops store := by
  unfold balloc
  rw [wp_bind, wp_get]
  cases found : (List.range store.sb.size).find?
      fun number => !store.bit number with
  | none => exact lenient.blocks
  | some number =>
    have inside : number < store.sb.size := List.mem_range.mp (List.mem_of_find?_eq_some found)
    have free : store.bit number = false := by
      simpa using List.find?_some found
    have data : store.sb.dataStart ≤ number := by
      by_contra early
      rw [metadata number (not_le.mp early)] at free
      cases free
    refine wp_bind_of (setBit_spec number 1 lenient) ?_
    rintro _ marked ⟨marks, bits, elsewhere⟩
    refine wp_bind_of (logWrite_spec number 0 lenient) ?_
    rintro _ next ⟨kept, blocks⟩
    have notBitmap : ∀ other < store.sb.size, store.sb.bblock other ≠ number := fun other within =>
      ((valid.bitmap other within).trans_le data).ne
    refine ⟨marks.trans kept, inside, free, data, fun other within => ?_,
      by rw [blocks, update_self], fun other apart outside => ?_⟩
    · have same : next.bit other = marked.bit other := by
        unfold Store.bit
        rw [kept.sb, blocks, marks.sb, update_of_ne (notBitmap other within)]
      rw [same, bits other]
      rfl
    · rw [blocks, update_of_ne apart, elsewhere other outside]

/-- `bfree` clears the bit of a block that is in use. -/
theorem bfree_spec {number : Nat} (used : store.bit number = true) (lenient : Lenient stops) :
    wp (bfree number) (fun _ next => BitWritten store next number false) stops store := by
  unfold bfree
  simp only [wp_bind, wp_get, wp_ite, wp_throw]
  refine ⟨fun free => ?_, fun _ => setBit_spec number 0 lenient⟩
  rw [used] at free
  cases free

/-! ## On-disk inodes -/

/-- Inodes share a place only with themselves. -/
theorem Superblock.dinode_address_injective {sb : Superblock} {first second : Nat}
    (sameBlock : sb.iblock first = sb.iblock second)
    (sameCell : first % ipb = second % ipb) : first = second :=
  eq_of_place sameBlock sameCell

/-- One on-disk inode has been written. -/
structure DinodeWritten (store next : Store) (inum : Nat) (dinode : Dinode) :
    Prop where
  kept : Kept store next
  dinode : ∀ other, next.dinode other = if other = inum then dinode else store.dinode other
  blocks : ∀ other, other ≠ store.sb.iblock inum → next.blocks other = store.blocks other

theorem writeDinode_spec (inum : Nat) (dinode : Dinode) (lenient : Lenient stops) :
    wp (writeDinode inum dinode)
      (fun _ next => DinodeWritten store next inum dinode) stops store := by
  unfold writeDinode
  rw [wp_bind, wp_get]
  refine wp_mono (logWrite_spec _ _ lenient) ?_ fun _ => id
  rintro _ next ⟨kept, blocks⟩
  refine ⟨kept, fun other => ?_, fun other apart => ?_⟩
  · unfold Store.dinode
    rw [kept.sb, blocks]
    by_cases here : store.sb.iblock other = store.sb.iblock inum
    · have fits : inum % ipb < ipb := Nat.mod_lt _ (by decide)
      rw [here, update_self, cell_setCell _ _ _ _ (by
        simp only [ipb] at fits ⊢
        omega)]
      by_cases same : other = inum
      · rw [if_pos same, if_pos (by rw [same]), Dinode.ofBits_toBits]
      · rw [if_neg same, if_neg fun sameCell =>
          same (Superblock.dinode_address_injective here sameCell)]
    · rw [update_of_ne here, if_neg fun same => here (by rw [same])]
  · rw [blocks, update_of_ne apart]

end Xv6.Fs
