import Xv6.Fs.Volume
import Mathlib.Data.List.Pairwise

/-!
# Well-formed disks

A disk is well formed when the bitmap and the inodes agree on which blocks are
in use.  Together with directories of whole entries this is soundness.  Both
parts can be checked by computing.
-/

namespace Xv6.Fs

open Foundation.Ownership

variable {store : Store} {blocks : Nat → Block} {dinode : Dinode}

/-- The address of a block of the file is not zero. -/
def Maps (blocks : Nat → Block) (dinode : Dinode) (bn : Nat) : Prop :=
  bn < maxfile ∧ reference blocks dinode (dataPosition bn) ≠ 0

instance (blocks : Nat → Block) (dinode : Dinode) (bn : Nat) : Decidable (Maps blocks dinode bn) :=
  inferInstanceAs (Decidable (_ ∧ _))

/-- The number of blocks that a size needs. -/
def blockCount (size : BitVec 32) : Nat :=
  (size.toNat + (bsize - 1)) / bsize

/-- The inode is that of a file or directory. -/
def Dinode.Regular (dinode : Dinode) : Prop :=
  dinode.type ≠ 0 ∧ dinode.type ≠ tDev

instance (dinode : Dinode) : Decidable dinode.Regular :=
  inferInstanceAs (Decidable (_ ∧ _))

/-- The inodes and the bitmap agree on the blocks in use. -/
structure WellFormed (store : Store) : Prop where
  layout : store.sb.Valid
  mapped : ∀ inum < store.sb.ninodes, (store.dinode inum).Regular →
    ∀ bn, Maps store.blocks (store.dinode inum) bn ↔ bn < blockCount (store.dinode inum).size
  indirect : ∀ inum < store.sb.ninodes, (store.dinode inum).Regular →
    ((store.dinode inum).addr ndirect ≠ 0 ↔ ndirect * bsize < (store.dinode inum).size.toNat)
  /-- No block is referred to twice. -/
  distinct : ∀ {first second number}, owned store.sb store.blocks store.dinode first = some number →
    owned store.sb store.blocks store.dinode second = some number →
    first = second
  data : ∀ {place number}, owned store.sb store.blocks store.dinode place = some number →
    store.sb.dataStart ≤ number ∧ number < store.sb.size
  bitmap : ∀ number < store.sb.size, store.bit number = true ↔ number < store.sb.dataStart ∨
      ∃ place, owned store.sb store.blocks store.dinode place = some number

/-- Directories consist of whole entries, for inodes that exist. -/
def WholeEntries (store : Store) : Prop :=
  ∀ inum < store.sb.ninodes, (store.dinode inum).type = tDir →
    (store.dinode inum).size.toNat % direntSize = 0 ∧
      ∀ dirent ∈ ((store.dinode inum).node store.blocks).entries,
        dirent.inum.toNat < store.sb.ninodes

instance (store : Store) : Decidable (WholeEntries store) :=
  inferInstanceAs (Decidable (∀ inum < store.sb.ninodes, _ → _ ∧ _))

theorem lt_blockCount {size : BitVec 32} {bn : Nat} :
    bn < blockCount size ↔ bsize * bn < size.toNat := by
  simp only [blockCount, bsize]
  omega

theorem contents_ne_none {bn : Nat} : contents blocks dinode bn ≠ none ↔ Maps blocks dinode bn := by
  unfold contents Maps
  split
  case isTrue present => simpa using present
  case isFalse absent => simpa using absent

/-- A block beyond the direct ones is found through the indirect block. -/
theorem Maps.indirect {bn : Nat} (mapped : Maps blocks dinode bn) (far : ndirect ≤ bn) :
    dinode.addr ndirect ≠ 0 := by
  intro absent
  apply mapped.2
  simp only [ndirect] at far absent
  rw [dataPosition, if_neg (by simp only [ndirect]; omega), reference,
    if_neg (by omega), if_pos absent]

/-- The shape of a file in terms of the addresses that are not zero. -/
theorem shaped_iff : Shaped blocks dinode ↔
      (∀ bn, Maps blocks dinode bn ↔ bn < blockCount dinode.size) ∧
      (dinode.addr ndirect ≠ 0 ↔ ndirect * bsize < dinode.size.toNat) ∧
      (dinode.type = tDir → dinode.size.toNat % direntSize = 0) := by
  have commuted : ndirect * bsize = bsize * 12 := rfl
  constructor
  · intro shaped
    have mapped : ∀ bn, Maps blocks dinode bn ↔ bn < blockCount dinode.size :=
      fun bn => by rw [← contents_ne_none, shaped.blocks, lt_blockCount]
    refine ⟨mapped, ⟨fun present => ?_, fun large => ?_⟩, shaped.whole⟩
    · exact commuted ▸ shaped.indirect present
    · have reached := (mapped 12).mpr (lt_blockCount.mpr (commuted ▸ large))
      exact reached.indirect (Nat.le_refl _)
  · rintro ⟨mapped, indirect, whole⟩
    exact ⟨fun bn => by rw [contents_ne_none, mapped, lt_blockCount],
      fun present => commuted ▸ indirect.mp present, whole⟩

theorem type_of_mem_entries {dirent : Dirent} (member : dirent ∈ (dinode.node blocks).entries) :
    dinode.type = tDir := by
  by_contra other
  rw [Dinode.node, if_neg other] at member
  cases member

/-- The accounts of a well-formed disk are right. -/
theorem WellFormed.balanced (wellFormed : WellFormed store) : Balanced store store.dinode where
  injective := wellFormed.distinct
  used_iff := by
    intro number
    unfold Store.Used Superblock.Reserved
    by_cases inside : number < store.sb.size
    · rw [wellFormed.bitmap number inside]
      have within := not_le.mpr inside
      tauto
    · exact iff_of_true (.inl (not_lt.mp inside)) (.inl (.inr (not_lt.mp inside)))
  unreserved := by
    intro place number holds reserved
    obtain ⟨low, high⟩ := wellFormed.data holds
    rcases reserved with early | late
    · exact absurd low (not_le.mpr early)
    · exact absurd high (not_lt.mpr late)

/-- A disk is sound if it is well formed and directories are whole. -/
theorem sound_iff : Sound store ↔ WellFormed store ∧ WholeEntries store := by
  constructor
  · intro sound
    have shaped : ∀ inum < store.sb.ninodes, (store.dinode inum).Regular →
        Shaped store.blocks (store.dinode inum) :=
      fun inum inside regular => sound.formed inum inside regular.1 regular.2
    refine ⟨⟨sound.valid, fun inum inside regular => (shaped_iff.mp (shaped inum inside regular)).1,
      fun inum inside regular =>
        (shaped_iff.mp (shaped inum inside regular)).2.1,
      sound.balanced.injective, ?_, ?_⟩, ?_⟩
    · intro place number holds
      have data := sound.balanced.unreserved holds
      unfold Superblock.Reserved at data
      omega
    · intro number inside
      have used := sound.balanced.used_iff number
      unfold Store.Used Superblock.Reserved at used
      have within := not_le.mpr inside
      tauto
    · intro inum inside dir
      have regular : (store.dinode inum).Regular := by
        rw [Dinode.Regular, dir]
        decide
      exact ⟨(shaped inum inside regular).whole dir,
        sound.within inum _ (volume_eq_some.mpr ⟨inside, regular.1, rfl⟩)⟩
  · rintro ⟨wellFormed, whole⟩
    refine ⟨wellFormed.layout, wellFormed.balanced, ?_, ?_⟩
    · intro inum inside allocated notDevice
      exact shaped_iff.mpr ⟨wellFormed.mapped inum inside ⟨allocated, notDevice⟩,
        wellFormed.indirect inum inside ⟨allocated, notDevice⟩,
        fun dir => (whole inum inside dir).1⟩
    · intro inum node present dirent member
      obtain ⟨inside, -, rfl⟩ := volume_eq_some.mp present
      exact (whole inum inside (type_of_mem_entries member)).2 dirent member

/-! ## Checking a disk -/

/-- The positions of all inodes. -/
def Superblock.places (sb : Superblock) : List (Nat × Nat) :=
  (List.range sb.ninodes).flatMap fun inum =>
    (List.range positions).map fun pos => (inum, pos)

/-- The blocks that inodes refer to, in the order of the inodes. -/
def Store.referenced (store : Store) : List Nat :=
  store.sb.places.filterMap (owned store.sb store.blocks store.dinode)

theorem mem_places {sb : Superblock} {place : Nat × Nat} :
    place ∈ sb.places ↔ place.1 < sb.ninodes ∧ place.2 < positions := by
  obtain ⟨inum, pos⟩ := place
  simp only [Superblock.places, List.mem_flatMap, List.mem_range, List.mem_map, Prod.mk.injEq]
  constructor
  · rintro ⟨_, inside, _, small, rfl, rfl⟩
    exact ⟨inside, small⟩
  · rintro ⟨inside, small⟩
    exact ⟨inum, inside, pos, small, rfl, rfl⟩

variable {number : Nat}

theorem mem_places_of_owned {place : Nat × Nat}
    (holds : owned store.sb store.blocks store.dinode place = some number) :
    place ∈ store.sb.places := by
  obtain ⟨inum, pos⟩ := place
  obtain ⟨inside, -, small, -⟩ := owned_eq_some.mp holds
  exact mem_places.mpr ⟨inside, small⟩

theorem mem_referenced : number ∈ store.referenced ↔
      ∃ place, owned store.sb store.blocks store.dinode place = some number := by
  unfold Store.referenced
  rw [List.mem_filterMap]
  constructor
  · rintro ⟨place, -, holds⟩
    exact ⟨place, holds⟩
  · rintro ⟨place, holds⟩
    exact ⟨place, mem_places_of_owned holds, holds⟩

/-- Blocks that are referred to once have one position each. -/
theorem owned_injective_of_nodup (distinct : store.referenced.Nodup) {first second : Nat × Nat}
    (firstOwns : owned store.sb store.blocks store.dinode first = some number)
    (secondOwns : owned store.sb store.blocks store.dinode second = some number) :
    first = second := by
  by_contra different
  have pairs := List.pairwise_filterMap.mp distinct
  have : Std.Symm fun a b : Nat × Nat =>
      ∀ x, owned store.sb store.blocks store.dinode a = some x →
        ∀ y, owned store.sb store.blocks store.dinode b = some y → x ≠ y :=
    ⟨fun a b apart x holdsB y holdsA => (apart y holdsA x holdsB).symm⟩
  exact pairs.forall (mem_places_of_owned firstOwns)
    (mem_places_of_owned secondOwns) different number firstOwns number
    secondOwns rfl

/-- The super block describes regions that follow each other. -/
def Superblock.Checked (sb : Superblock) : Prop :=
  rootino < sb.ninodes ∧ (∀ inum < sb.ninodes, sb.iblock inum < sb.bmapstart) ∧
    (∀ number < sb.size, sb.bblock number < sb.size - sb.nblocks) ∧
    sb.size ≤ 2 ^ 32

instance (sb : Superblock) : Decidable sb.Checked :=
  inferInstanceAs (Decidable (_ ∧ _ ∧ _ ∧ _))

/-- The inode has the blocks it needs, among those that it can have. -/
def Fitting (blocks : Nat → Block) (dinode : Dinode) : Prop :=
  blockCount dinode.size ≤ maxfile ∧
    (∀ bn < maxfile, Maps blocks dinode bn ↔ bn < blockCount dinode.size) ∧
    (dinode.addr ndirect ≠ 0 ↔ ndirect * bsize < dinode.size.toNat)

instance (blocks : Nat → Block) (dinode : Dinode) : Decidable (Fitting blocks dinode) :=
  inferInstanceAs (Decidable (_ ∧ _ ∧ _))

theorem Fitting.mapped (fitting : Fitting blocks dinode) (bn : Nat) :
    Maps blocks dinode bn ↔ bn < blockCount dinode.size := by
  by_cases inside : bn < maxfile
  · exact fitting.2.1 bn inside
  · exact iff_of_false (fun mapped => inside mapped.1)
      fun needed => inside (Nat.lt_of_lt_of_le needed fitting.1)

/-- The check of a disk. -/
def Checked (store : Store) : Prop :=
  store.sb.Checked ∧ (∀ inum < store.sb.ninodes, (store.dinode inum).Regular →
      Fitting store.blocks (store.dinode inum)) ∧
    store.referenced.Nodup ∧
    (∀ number ∈ store.referenced, store.sb.dataStart ≤ number ∧ number < store.sb.size) ∧
    ∀ number < store.sb.size, store.bit number = true ↔
      number < store.sb.dataStart ∨ number ∈ store.referenced

instance (store : Store) : Decidable (Checked store) :=
  inferInstanceAs (Decidable (_ ∧ _ ∧ _ ∧ _ ∧ _))

theorem Checked.wellFormed (checked : Checked store) : WellFormed store where
  layout := ⟨checked.1.1, checked.1.2.1, checked.1.2.2.1, checked.1.2.2.2⟩
  mapped inum inside regular := (checked.2.1 inum inside regular).mapped
  indirect inum inside regular := (checked.2.1 inum inside regular).2.2
  distinct := owned_injective_of_nodup checked.2.2.1
  data holds := checked.2.2.2.1 _ (mem_referenced.mpr ⟨_, holds⟩)
  bitmap number inside := by
    rw [checked.2.2.2.2 number inside, mem_referenced]

end Xv6.Fs
