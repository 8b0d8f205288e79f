import Xv6.Fs.Truncation
import Xv6.Fs.Directory

/-!
# The volume

What the inodes of a disk stand for: which are allocated, their types and link
counts, and the entries of the directories.  A disk is sound when the blocks
and bitmap that hold this agree with each other.  This module says what writing
one inode does to the volume.
-/

namespace Xv6.Fs

open Function Foundation.Program Foundation.Ownership

/-- An allocated inode, as paths and links see it. -/
structure Node where
  type : BitVec 16
  nlink : BitVec 16
  /-- The entries, if it is a directory. -/
  entries : List Dirent
  deriving DecidableEq

/-- The allocated inodes. -/
abbrev Volume := Nat → Option Node

/-- The directory entry at an index of a file. -/
def direntAt (blocks : Nat → Option Block) (index : Nat) : Dirent :=
  .ofBytes (fileBytes blocks (direntSize * index) direntSize)

/-- The directory entries in a file. -/
def dirents (blocks : Nat → Option Block) (size : Nat) : List Dirent :=
  (List.range (size / direntSize)).map (direntAt blocks)

/-- What an inode stands for. -/
def Dinode.node (blocks : Nat → Block) (dinode : Dinode) : Node where
  type := dinode.type
  nlink := dinode.nlink
  entries :=
    if dinode.type = tDir then
      dirents (contents blocks dinode) dinode.size.toNat
    else []

/-- What an inode stands for, if it is allocated. -/
def Dinode.node? (blocks : Nat → Block) (dinode : Dinode) : Option Node :=
  if dinode.type = 0 then none else some (dinode.node blocks)

/-- The volume on a disk. -/
def Store.volume (store : Store) : Volume := fun inum =>
  if inum < store.sb.ninodes then (store.dinode inum).node? store.blocks
  else none

theorem volume_eq_some {store : Store} {inum : Nat} {node : Node} : store.volume inum = some node ↔
      inum < store.sb.ninodes ∧ (store.dinode inum).type ≠ 0 ∧
        (store.dinode inum).node store.blocks = node := by
  unfold Store.volume Dinode.node?
  split
  case isTrue inside =>
    split
    case isTrue free => exact iff_of_false nofun fun all => all.2.1 free
    case isFalse allocated =>
      rw [Option.some.injEq]
      exact ⟨fun same => ⟨inside, allocated, same⟩, fun all => all.2.2⟩
  case isFalse outside => exact iff_of_false nofun fun all => outside all.1

/-- The blocks of a file are those that its size needs. -/
structure Shaped (blocks : Nat → Block) (dinode : Dinode) : Prop where
  blocks : ∀ bn, contents blocks dinode bn ≠ none ↔ bsize * bn < dinode.size.toNat
  indirect : dinode.addr 12 ≠ 0 → bsize * 12 < dinode.size.toNat
  /-- A directory consists of whole entries. -/
  whole : dinode.type = tDir → dinode.size.toNat % direntSize = 0

/-- The inode of a file that is not a device has the blocks it needs. -/
def Formed (blocks : Nat → Block) (dinode : Dinode) : Prop :=
  dinode.type ≠ 0 → dinode.type ≠ tDev → Shaped blocks dinode

/-- The inode numbers in directory entries exist. -/
def Volume.Within (volume : Volume) (ninodes : Nat) : Prop :=
  ∀ inum node, volume inum = some node → ∀ dirent ∈ node.entries, dirent.inum.toNat < ninodes

/-- The inodes and the bitmap of a disk agree. -/
structure Sound (store : Store) : Prop where
  valid : store.sb.Valid
  balanced : Balanced store store.dinode
  formed : ∀ inum < store.sb.ninodes, Formed store.blocks (store.dinode inum)
  within : store.volume.Within store.sb.ninodes

/-! ## Writing one inode -/

section Rewrite

variable {store next final : Store} {inum : Nat} {dinode dinode' : Dinode}

/-- Blocks of one inode were changed, and its fields are in memory. -/
structure Loose (store next : Store) (inum : Nat) (dinode : Dinode) :
    Prop where
  others : OthersKept store next store.dinode inum
  balanced : Balanced next (update store.dinode inum dinode)

/-- One inode was changed, on the disk as well. -/
structure Rewritten (store next : Store) (inum : Nat) (dinode : Dinode) :
    Prop where
  kept : Kept store next
  table : ∀ other < store.sb.ninodes, next.dinode other =
    update store.dinode inum dinode other
  files : ∀ other, other ≠ inum → other < store.sb.ninodes → (store.dinode other).type ≠ 0 →
      contents next.blocks (store.dinode other) = contents store.blocks (store.dinode other)
  balanced : Balanced next (update store.dinode inum dinode)

theorem Loose.refl (sound : Sound store) : Loose store store inum (store.dinode inum) where
  others := .refl
  balanced := by
    rw [update_eq_self]
    exact sound.balanced

theorem Sound.tracked (sound : Sound store) (inside : inum < store.sb.ninodes)
    (allocated : (store.dinode inum).type ≠ 0) :
    Tracked store store.dinode inum (store.dinode inum) :=
  ⟨sound.valid, sound.balanced, inside, rfl, allocated⟩

variable {table : Nat → Dinode}

/-- The blocks that inodes refer to are not inode blocks. -/
theorem Balanced.ne_iblock {place : Nat × Nat} {number : Nat}
    (balanced : Balanced store table) (valid : store.sb.Valid) (inside : inum < store.sb.ninodes)
    (holds : owned store.sb store.blocks table place = some number) :
    number ≠ store.sb.iblock inum := by
  obtain ⟨data, within⟩ := balanced.data holds
  have inodes := valid.inodes inum inside
  have bitmap := valid.bitmap number within
  have start := store.sb.bblock_ge number
  unfold Superblock.dataStart at data
  omega

section

variable (written : DinodeWritten store next inum dinode) (valid : store.sb.Valid)
include written valid

/-- Writing an inode leaves the blocks that inodes refer to. -/
theorem DinodeWritten.owned_kept {place : Nat × Nat} {number : Nat}
    (balanced : Balanced store table) (inside : inum < store.sb.ninodes)
    (holds : owned store.sb store.blocks table place = some number) :
    next.blocks number = store.blocks number :=
  written.blocks number (balanced.ne_iblock valid inside holds)

/-- Writing an inode keeps the contents of the inodes in the table. -/
theorem DinodeWritten.contents_kept {other : Nat}
    (balanced : Balanced store table) (inside : inum < store.sb.ninodes)
    (otherInside : other < store.sb.ninodes) (allocated : (table other).type ≠ 0) :
    (∀ pos, reference next.blocks (table other) pos = reference store.blocks (table other) pos) ∧
    contents next.blocks (table other) = contents store.blocks (table other) := by
  refine contents_congr fun pos small mapped => ?_
  exact written.owned_kept valid balanced inside
    (owned_eq_some.mpr ⟨otherInside, allocated, small, mapped, rfl⟩)

/-- The bitmap is not touched by writing an inode. -/
theorem DinodeWritten.bit (inside : inum < store.sb.ninodes) (number : Nat) :
    next.bit number = store.bit number := by
  unfold Store.bit
  rw [written.kept.sb, written.blocks _ (valid.iblock_ne_bblock inside number).symm]

end

variable {blocks : Nat → Block}

theorem reference_of_addrs (addrs : dinode'.addrs = dinode.addrs) (pos : Nat) :
    reference blocks dinode' pos = reference blocks dinode pos := by
  unfold reference Dinode.addr
  rw [addrs]

theorem contents_of_addrs (addrs : dinode'.addrs = dinode.addrs) :
    contents blocks dinode' = contents blocks dinode := by
  funext bn
  unfold contents
  rw [reference_of_addrs addrs]

section

variable (loose : Loose store next inum dinode) (sound : Sound store)
  (inside : inum < store.sb.ninodes)
include loose sound inside

/-- The fields are written to the disk; the inode owns the same blocks. -/
theorem Loose.write (written : DinodeWritten next final inum dinode')
    (same : ∀ pos, owned next.sb final.blocks (update store.dinode inum dinode') (inum, pos) =
        owned next.sb next.blocks (update store.dinode inum dinode)
          (inum, pos)) : Rewritten store final inum dinode' := by
  have sb := loose.others.kept.sb
  have valid : next.sb.Valid := by rw [sb]; exact sound.valid
  have nextInside : inum < next.sb.ninodes := by rw [sb]; exact inside
  have others : ∀ other, other ≠ inum → other < store.sb.ninodes → (store.dinode other).type ≠ 0 →
        (∀ pos, reference final.blocks (store.dinode other) pos =
          reference next.blocks (store.dinode other) pos) ∧
        contents final.blocks (store.dinode other) = contents next.blocks (store.dinode other) := by
    intro other apart within allocated
    have kept := written.contents_kept valid loose.balanced nextInside
      (by rw [sb]; exact within : other < next.sb.ninodes)
    rw [update_of_ne apart] at kept
    exact kept allocated
  refine ⟨loose.others.kept.trans written.kept, fun other within => ?_,
    fun other apart within allocated => ?_, ?_⟩
  · rw [written.dinode other, update_apply]
    by_cases here : other = inum
    · rw [if_pos here, if_pos here]
    · rw [if_neg here, if_neg here, loose.others.dinode other within]
  · rw [(others other apart within allocated).2, loose.others.files other apart within allocated]
  · unfold Balanced
    rw [written.kept.sb]
    refine loose.balanced.congr ?_ fun number => ?_
    · rintro ⟨other, pos⟩
      by_cases here : other = inum
      · rw [here]
        exact same pos
      · refine owned_congr ?_ fun within allocated _ => ?_
        · rw [update_of_ne here, update_of_ne here]
        · rw [update_of_ne here] at allocated
          rw [update_of_ne here, update_of_ne here]
          rw [sb] at within
          exact (others other here within allocated).1 pos
    · unfold Store.Used
      rw [written.kept.sb, written.bit valid nextInside]

/-- The fields are written to the disk, with the same type and addresses. -/
theorem Loose.write_fields (allocated : dinode.type ≠ 0)
    (written : DinodeWritten next final inum dinode')
    (type : dinode'.type = dinode.type) (addrs : dinode'.addrs = dinode.addrs) :
    Rewritten store final inum dinode' ∧
      contents final.blocks dinode' = contents next.blocks dinode := by
  have sb := loose.others.kept.sb
  have valid : next.sb.Valid := by rw [sb]; exact sound.valid
  have nextInside : inum < next.sb.ninodes := by rw [sb]; exact inside
  have kept := written.contents_kept valid loose.balanced nextInside nextInside
  rw [update_self] at kept
  obtain ⟨references, contents⟩ := kept allocated
  refine ⟨loose.write sound inside written fun pos => ?_, ?_⟩
  · refine owned_congr ?_ fun _ _ _ => ?_
    · rw [update_self, update_self, type]
    · rw [update_self, update_self, reference_of_addrs addrs, references]
  · rw [contents_of_addrs addrs, contents]

end

/-- Nothing is owned by an inode without references or that is free. -/
theorem owned_eq_none
    {sb : Superblock} (empty : (table inum).type ≠ 0 → ∀ pos, reference blocks (table inum) pos = 0)
    (pos : Nat) : owned sb blocks table (inum, pos) = none := by
  unfold owned
  rw [if_neg]
  rintro ⟨_, allocated, _, mapped⟩
  exact mapped (empty allocated pos)

/-- The fields of an inode without blocks are written to the disk. -/
theorem Loose.write_empty (loose : Loose store next inum dinode)
    (sound : Sound store) (inside : inum < store.sb.ninodes)
    (empty : dinode.type ≠ 0 → ∀ pos, reference next.blocks dinode pos = 0)
    (written : DinodeWritten next final inum dinode')
    (empty' : ∀ index, dinode'.addr index = 0) : Rewritten store final inum dinode' := by
  refine loose.write sound inside written fun pos => ?_
  rw [owned_eq_none, owned_eq_none]
  · rw [update_self]
    exact empty
  · rw [update_self]
    intro _ pos
    unfold reference
    split
    · exact empty' pos
    · rw [if_pos (empty' 12)]

/-- The fields did not change. -/
theorem Loose.unchanged (loose : Loose store next inum (store.dinode inum)) :
    Rewritten store next inum (store.dinode inum) where
  kept := loose.others.kept
  table := by
    intro other within
    rw [update_eq_self, loose.others.dinode other within]
  files := loose.others.files
  balanced := loose.balanced

theorem Rewritten.volume (rewritten : Rewritten store next inum dinode)
    (inside : inum < store.sb.ninodes) :
    next.volume = update store.volume inum (dinode.node? next.blocks) := by
  funext other
  unfold Store.volume
  rw [rewritten.kept.sb]
  by_cases here : other = inum
  · subst here
    rw [update_self, if_pos inside, rewritten.table other inside, update_self]
  · rw [update_of_ne here]
    by_cases within : other < store.sb.ninodes
    · rw [if_pos within, if_pos within, rewritten.table other within, update_of_ne here]
      by_cases free : (store.dinode other).type = 0
      · unfold Dinode.node?
        rw [if_pos free, if_pos free]
      · unfold Dinode.node? Dinode.node
        rw [rewritten.files other here within free]
    · rw [if_neg within, if_neg within]

/-- The disk is sound after an inode was changed to a well-formed one. -/
theorem Rewritten.sound (rewritten : Rewritten store next inum dinode)
    (sound : Sound store) (inside : inum < store.sb.ninodes) (formed : Formed next.blocks dinode)
    (entries : dinode.type = tDir → ∀ dirent ∈ (dinode.node next.blocks).entries,
        dirent.inum.toNat < store.sb.ninodes) : Sound next where
  valid := by
    rw [rewritten.kept.sb]
    exact sound.valid
  balanced := by
    refine rewritten.balanced.congr ?_ fun _ => Iff.rfl
    rintro ⟨other, pos⟩
    by_cases within : other < store.sb.ninodes
    · rw [← rewritten.kept.sb] at within
      have same := rewritten.table other (by rwa [← rewritten.kept.sb])
      refine owned_congr (by rw [same]) fun _ _ _ => by rw [same]
    · unfold owned
      rw [rewritten.kept.sb, if_neg fun holds => within holds.1, if_neg fun holds => within holds.1]
  formed := by
    intro other within
    rw [rewritten.kept.sb] at within
    rw [rewritten.table other within]
    by_cases here : other = inum
    · rw [here, update_self]
      exact formed
    · rw [update_of_ne here]
      intro allocated notDevice
      obtain ⟨blocks, indirect, whole⟩ := sound.formed other within allocated notDevice
      refine ⟨fun bn => ?_, indirect, whole⟩
      rw [rewritten.files other here within allocated]
      exact blocks bn
  within := by
    rw [rewritten.kept.sb, rewritten.volume inside]
    intro other node present
    by_cases here : other = inum
    · rw [here, update_self] at present
      unfold Dinode.node? at present
      split at present
      · cases present
      · cases present
        by_cases dir : dinode.type = tDir
        · exact entries dir
        · unfold Dinode.node
          rw [if_neg dir]
          intro dirent member
          cases member
    · rw [update_of_ne here] at present
      exact sound.within other node present

end Rewrite

end Xv6.Fs
