import Xv6.Fs.Allocation

/-!
# Which blocks an inode refers to

An inode refers to blocks at 141 positions: its twelve direct addresses, the
indirect block, and the addresses in the indirect block.  The bitmap is
balanced when it marks exactly the metadata blocks and the blocks referred to,
each of which is referred to once.  `bmap` and `itrunc` keep the balance.
-/

namespace Xv6.Fs

open Function Foundation.BitField Foundation.Program Foundation.Ownership
open Superblock (dataStart)

namespace Dinode

theorem addr_setAddr (dinode : Dinode) {index other : Nat} (value : BitVec 32)
    (inside : index < 13) (otherInside : other < 13) :
    (dinode.setAddr index value).addr other =
      if other = index then value else dinode.addr other := by
  simp only [addr, setAddr, update_apply]
  have same : Fin.ofNat 13 other = Fin.ofNat 13 index ↔ other = index := by
    rw [Fin.ext_iff]
    simp only [Fin.val_ofNat]
    omega
  simp only [same]

end Dinode

/-- Number of positions at which an inode refers to a block. -/
abbrev positions : Nat := 141

/-- The block address at a position: the direct addresses, the indirect block,
and the words of the indirect block. -/
def reference (blocks : Nat → Block) (dinode : Dinode) (pos : Nat) : BitVec 32 :=
  if pos < 13 then dinode.addr pos
  else if dinode.addr 12 = 0 then 0
  else (blocks (dinode.addr 12).toNat).word (pos - 13)

/-- The position of a block of the file's data. -/
def dataPosition (bn : Nat) : Nat :=
  if bn < ndirect then bn else bn + 1

/-- The blocks of the file's data that the inode refers to. -/
def contents (blocks : Nat → Block) (dinode : Dinode) (bn : Nat) : Option Block :=
  if bn < maxfile ∧ reference blocks dinode (dataPosition bn) ≠ 0 then
    some (blocks (reference blocks dinode (dataPosition bn)).toNat)
  else none

/-- The block that an allocated inode refers to at a position. -/
def owned (sb : Superblock) (blocks : Nat → Block) (table : Nat → Dinode)
    (place : Nat × Nat) : Option Nat :=
  if place.1 < sb.ninodes ∧ (table place.1).type ≠ 0 ∧
      place.2 < positions ∧ reference blocks (table place.1) place.2 ≠ 0 then
    some (reference blocks (table place.1) place.2).toNat
  else none

/-- The bitmap marks the block, or there is no such block. -/
def Store.Used (store : Store) (number : Nat) : Prop :=
  store.sb.size ≤ number ∨ store.bit number = true

/-- Blocks outside the data area. -/
def Superblock.Reserved (sb : Superblock) (number : Nat) : Prop :=
  number < sb.dataStart ∨ sb.size ≤ number

/-- The bitmap agrees with the references of the inodes in the table. -/
def Balanced (store : Store) (table : Nat → Dinode) : Prop :=
  Accounted (owned store.sb store.blocks table) store.Used store.sb.Reserved

variable {blocks : Nat → Block}

theorem owned_eq_some {sb : Superblock} {table : Nat → Dinode} {inum pos number : Nat} :
    owned sb blocks table (inum, pos) = some number ↔
      inum < sb.ninodes ∧ (table inum).type ≠ 0 ∧ pos < positions ∧
        reference blocks (table inum) pos ≠ 0 ∧
        (reference blocks (table inum) pos).toNat = number := by
  unfold owned
  split
  case isTrue holds =>
    rw [Option.some.injEq]
    constructor
    · exact fun same => ⟨holds.1, holds.2.1, holds.2.2.1, holds.2.2.2, same⟩
    · exact fun all => all.2.2.2.2
  case isFalse fails =>
    constructor
    · nofun
    · exact fun all =>
        absurd ⟨all.1, all.2.1, all.2.2.1, all.2.2.2.1⟩ fails

variable {blocks blocks' : Nat → Block}

/-- What an inode owns depends on its type and its references. -/
theorem owned_congr {sb : Superblock} {table table' : Nat → Dinode} {inum pos : Nat}
    (type : (table' inum).type = (table inum).type)
    (references : inum < sb.ninodes → (table inum).type ≠ 0 →
      pos < positions → reference blocks' (table' inum) pos =
        reference blocks (table inum) pos) :
    owned sb blocks' table' (inum, pos) = owned sb blocks table (inum, pos) := by
  unfold owned
  rw [type]
  by_cases live : inum < sb.ninodes ∧ (table inum).type ≠ 0 ∧ pos < positions
  · rw [references live.1 live.2.1 live.2.2]
  · rw [if_neg fun all => live ⟨all.1, all.2.1, all.2.2.1⟩,
      if_neg fun all => live ⟨all.1, all.2.1, all.2.2.1⟩]

theorem dataPosition_ne_indirect (bn : Nat) : dataPosition bn ≠ 12 := by
  unfold dataPosition
  simp only [ndirect]
  split <;> omega

theorem dataPosition_lt {bn : Nat} (inside : bn < maxfile) : dataPosition bn < positions := by
  unfold dataPosition
  simp only [maxfile, ndirect, nindirect, positions] at inside ⊢
  split <;> omega

theorem dataPosition_injective {first second : Nat}
    (same : dataPosition first = dataPosition second) : first = second := by
  unfold dataPosition at same
  simp only [ndirect] at same
  split at same <;> split at same <;> omega

variable {dinode : Dinode}

theorem reference_entry (present : dinode.addr 12 ≠ 0) (blocks : Nat → Block) (index : Nat) :
    reference blocks dinode (13 + index) = (blocks (dinode.addr 12).toNat).word index := by
  rw [reference, if_neg (by omega), if_neg present, Nat.add_sub_cancel_left]

theorem reference_congr
    (same : dinode.addr 12 ≠ 0 → blocks' (dinode.addr 12).toNat = blocks (dinode.addr 12).toNat)
    (pos : Nat) : reference blocks' dinode pos = reference blocks dinode pos := by
  unfold reference
  split
  · rfl
  · split
    · rfl
    · rw [same ‹_›]

theorem contents_congr
    (same : ∀ pos < positions, reference blocks dinode pos ≠ 0 →
      blocks' (reference blocks dinode pos).toNat =
        blocks (reference blocks dinode pos).toNat) :
    (∀ pos, reference blocks' dinode pos = reference blocks dinode pos) ∧
    contents blocks' dinode = contents blocks dinode := by
  have references := reference_congr (same 12 (by decide))
  refine ⟨references, ?_⟩
  funext bn
  unfold contents
  simp only [references]
  split
  case isTrue mapped => rw [same _ (dataPosition_lt mapped.1) mapped.2]
  case isFalse => rfl

/-! ## Balance -/

variable {table : Nat → Dinode} {store next : Store} {inum : Nat}

section Balance

variable {number : Nat}

theorem Balanced.metadata (balanced : Balanced store table)
    (early : number < store.sb.dataStart) : store.bit number = true := by
  rcases (balanced.used_iff number).mpr (.inl (.inl early)) with late | marked
  · unfold dataStart at early
    omega
  · exact marked

theorem Balanced.data (balanced : Balanced store table) {place : Nat × Nat}
    (holds : owned store.sb store.blocks table place = some number) :
    store.sb.dataStart ≤ number ∧ number < store.sb.size := by
  have area := balanced.unreserved holds
  unfold Superblock.Reserved at area
  omega

theorem Balanced.marked (balanced : Balanced store table) {place : Nat × Nat}
    (holds : owned store.sb store.blocks table place = some number) : store.bit number = true := by
  rcases balanced.used_of_owned holds with late | marked
  · exact absurd (balanced.data holds).2 (not_lt.mpr late)
  · exact marked

/-- What a change to the blocks of one inode leaves alone. -/
structure OthersKept (store next : Store) (table : Nat → Dinode) (inum : Nat) : Prop where
  kept : Kept store next
  dinode : ∀ other < store.sb.ninodes, next.dinode other = store.dinode other
  references : ∀ other, other ≠ inum → other < store.sb.ninodes →
    (table other).type ≠ 0 → ∀ pos, reference next.blocks (table other) pos =
        reference store.blocks (table other) pos
  files : ∀ other, other ≠ inum → other < store.sb.ninodes → (table other).type ≠ 0 →
      contents next.blocks (table other) = contents store.blocks (table other)

theorem OthersKept.refl : OthersKept store store table inum :=
  ⟨.refl store, fun _ _ => rfl, fun _ _ _ _ _ => rfl, fun _ _ _ _ => rfl⟩

theorem OthersKept.trans {middle : Store} (first : OthersKept store middle table inum)
    (second : OthersKept middle next (update table inum dinode) inum) :
    OthersKept store next table inum := by
  have sb := first.kept.sb
  refine ⟨first.kept.trans second.kept, ?_, ?_, ?_⟩
  · intro other inside
    rw [second.dinode other (by rwa [sb]), first.dinode other inside]
  · intro other apart inside allocated pos
    have step := second.references other apart (by rwa [sb])
    rw [update_of_ne apart] at step
    rw [step allocated pos, first.references other apart inside allocated pos]
  · intro other apart inside allocated
    have step := second.files other apart (by rwa [sb])
    rw [update_of_ne apart] at step
    rw [step allocated, first.files other apart inside allocated]

/-- Only blocks beyond the inodes that no other inode refers to change. -/
theorem OthersKept.of_blocks (valid : store.sb.Valid) (kept : Kept store next)
    (touched : ∀ number, next.blocks number ≠ store.blocks number →
      store.sb.bmapstart ≤ number ∧ ∀ other pos, other ≠ inum →
        owned store.sb store.blocks table (other, pos) ≠ some number) :
    OthersKept store next table inum := by
  have untouched : ∀ other, other ≠ inum → other < store.sb.ninodes →
      (table other).type ≠ 0 → ∀ pos < positions,
        reference store.blocks (table other) pos ≠ 0 →
          next.blocks (reference store.blocks (table other) pos).toNat = store.blocks
              (reference store.blocks (table other) pos).toNat := by
    intro other apart inside allocated pos within mapped
    by_contra changed
    exact (touched _ changed).2 other pos apart
      (owned_eq_some.mpr ⟨inside, allocated, within, mapped, rfl⟩)
  refine ⟨kept, ?_, ?_, ?_⟩
  · intro other inside
    unfold Store.dinode
    rw [kept.sb]
    by_contra changed
    have moved : next.blocks (store.sb.iblock other) ≠
        store.blocks (store.sb.iblock other) := fun same =>
      changed (by rw [same])
    exact absurd (touched _ moved).1 (not_le.mpr (valid.inodes other inside))
  · intro other apart inside allocated pos
    exact (contents_congr (untouched other apart inside allocated)).1 pos
  · intro other apart inside allocated
    exact (contents_congr (untouched other apart inside allocated)).2

/-- A free block is referred to from one more position. -/
theorem Balanced.attach {table' : Nat → Dinode} {number pos : Nat}
    (balanced : Balanced store table) (sb : next.sb = store.sb)
    (inside : number < store.sb.size) (free : store.bit number = false)
    (empty : owned store.sb store.blocks table (inum, pos) = none)
    (owns : ∀ place, owned next.sb next.blocks table' place =
      update (owned store.sb store.blocks table) (inum, pos) (some number) place)
    (bits : ∀ other < store.sb.size,
      next.bit other = if other = number then true else store.bit other) :
    Balanced next table' := by
  have unused : ¬ store.Used number := by
    rintro (late | marked)
    · omega
    · rw [free] at marked
      cases marked
  have assigned := balanced.assign unused empty
  unfold Balanced
  rw [sb]
  rw [sb] at owns
  refine assigned.congr owns fun other => ?_
  unfold Store.Used
  rw [sb]
  by_cases within : other < store.sb.size
  · rw [bits other within]
    by_cases same : other = number
    · simp [same]
    · simp [same]
  · simp [not_lt.mp within]

end Balance

/-! ## Mapping a block -/

/-- An inode of the table that the functions on block addresses work on. -/
structure Tracked (store : Store) (table : Nat → Dinode) (inum : Nat) (dinode : Dinode) :
    Prop where
  valid : store.sb.Valid
  balanced : Balanced store table
  inside : inum < store.sb.ninodes
  entry : table inum = dinode
  allocated : dinode.type ≠ 0

/-- The inode refers to a block at a position. -/
structure Attached (store next : Store) (table : Nat → Dinode) (inum : Nat)
    (dinode dinode' : Dinode) (pos : Nat) (address : BitVec 32) :
    Prop where
  others : OthersKept store next table inum
  tracked : Tracked next (update table inum dinode') inum dinode'
  fields : dinode' = { dinode with addrs := dinode'.addrs }
  mapped : address ≠ 0
  references : ∀ other < positions, reference next.blocks dinode' other =
      if other = pos then address
      else reference store.blocks dinode other
  /-- The other blocks of data are not touched. -/
  data : ∀ other < positions, other ≠ 12 → other ≠ pos →
    reference store.blocks dinode other ≠ 0 →
      next.blocks (reference store.blocks dinode other).toNat =
        store.blocks (reference store.blocks dinode other).toNat
  /-- The block was there, and nothing happened, or it is new and zero. -/
  fresh : reference store.blocks dinode pos = 0 ∧ next.blocks address.toNat = 0 ∨
    reference store.blocks dinode pos = address ∧ next = store ∧ dinode' = dinode

section Map

variable {dinode : Dinode} {stops : Stop → Prop} {pos number : Nat}

section

variable (tracked : Tracked store table inum dinode)
include tracked

theorem Tracked.owned (within : pos < positions) (mapped : reference store.blocks dinode pos ≠ 0) :
    owned store.sb store.blocks table (inum, pos) =
      some (reference store.blocks dinode pos).toNat := by
  rw [owned_eq_some, tracked.entry]
  exact ⟨tracked.inside, tracked.allocated, within, mapped, rfl⟩

theorem Tracked.owned_indirect (present : dinode.addr 12 ≠ 0) :
    Fs.owned store.sb store.blocks table (inum, 12) = some (dinode.addr 12).toNat :=
  tracked.owned (by decide : 12 < positions) present

theorem Tracked.unowned (unmapped : reference store.blocks dinode pos = 0) :
    Fs.owned store.sb store.blocks table (inum, pos) = none := by
  unfold Fs.owned
  rw [if_neg]
  rw [tracked.entry]
  exact fun all => all.2.2.2 unmapped

/-- A position that is mapped already. -/
theorem Attached.refl (mapped : reference store.blocks dinode pos ≠ 0) :
    Attached store store table inum dinode dinode pos
      (reference store.blocks dinode pos) where
  others := .refl
  tracked := by
    have same : update table inum dinode = table := by
      rw [← tracked.entry, update_eq_self]
    rw [same]
    exact tracked
  fields := rfl
  mapped := mapped
  references := by
    intro other _
    split
    case isTrue same => rw [same]
    case isFalse => rfl
  data := fun _ _ _ _ _ => rfl
  fresh := .inr ⟨rfl, rfl, rfl⟩

end

theorem Allocated.address (valid : store.sb.Valid) (allocated : Allocated store next number) :
    (BitVec.ofNat 32 number).toNat = number ∧ BitVec.ofNat 32 number ≠ 0 := by
  have small := allocated.inside.trans_le valid.address
  have exact : (BitVec.ofNat 32 number).toNat = number := by
    rw [BitVec.toNat_ofNat, Nat.mod_eq_of_lt small]
  refine ⟨exact, fun zero => ?_⟩
  have bitmap := valid.bitmap number allocated.inside
  have data := allocated.data
  rw [zero] at exact
  change 0 = number at exact
  unfold dataStart at data
  omega

/-- Blocks that are referred to are not touched by an allocation. -/
theorem Allocated.owned_kept (allocated : Allocated store next number)
    (valid : store.sb.Valid) (balanced : Balanced store table) {place : Nat × Nat} {other : Nat}
    (holds : owned store.sb store.blocks table place = some other) :
    other ≠ number ∧ next.blocks other = store.blocks other := by
  have apart : other ≠ number := by
    rintro rfl
    have marked := balanced.marked holds
    rw [allocated.free] at marked
    cases marked
  refine ⟨apart, allocated.blocks other apart ?_⟩
  have bitmap := valid.bitmap number allocated.inside
  exact (bitmap.trans_le (balanced.data holds).1).ne'

variable {dinode' : Dinode}

section

variable (tracked : Tracked store table inum dinode)
include tracked

/-- The references of the inode after one is attached, and the others
unchanged, are those of the balance. -/
theorem owned_update {table' : Nat → Dinode} {address : BitVec 32}
    (others : OthersKept store next table inum) (entries : table' = update table inum dinode')
    (type : dinode'.type = dinode.type) (within : pos < positions) (mapped : address ≠ 0)
    (references : ∀ other < positions, reference next.blocks dinode' other =
        if other = pos then address
        else reference store.blocks dinode other)
    (place : Nat × Nat) :
    owned next.sb next.blocks table' place =
      update (owned store.sb store.blocks table) (inum, pos) (some address.toNat) place := by
  obtain ⟨other, slot⟩ := place
  subst entries
  rw [others.kept.sb]
  by_cases same : other = inum
  · subst same
    by_cases here : slot = pos
    · subst here
      rw [update_self, owned_eq_some, update_self, type, references slot within, if_pos rfl]
      exact ⟨tracked.inside, tracked.allocated, within, mapped, rfl⟩
    · rw [update_of_ne (by simp [here])]
      refine owned_congr ?_ fun _ _ far => ?_
      · rw [update_self, type, tracked.entry]
      · rw [update_self, tracked.entry, references slot far, if_neg here]
  · rw [update_of_ne (by simp [same])]
    refine owned_congr ?_ fun inside allocated _ => ?_
    · rw [update_of_ne same]
    · rw [update_of_ne same]
      exact others.references other same inside allocated slot

/-- A new block attached at a position. -/
theorem Attached.of_allocated {middle : Store} (allocated : Allocated store middle number)
    (kept : Kept middle next)
    (within : pos < positions) (unmapped : reference store.blocks dinode pos = 0)
    (fields : dinode' = { dinode with addrs := dinode'.addrs })
    (references : ∀ other < positions, reference next.blocks dinode' other =
        if other = pos then BitVec.ofNat 32 number
        else reference store.blocks dinode other)
    (zeroed : next.blocks number = 0)
    (bits : ∀ other < store.sb.size, next.bit other = middle.bit other)
    (blocks : ∀ other, other ≠ number → other ≠ (dinode.addr 12).toNat →
      next.blocks other = middle.blocks other)
    (indirect : dinode.addr 12 = 0 → ∀ other, next.blocks other = middle.blocks other) :
    Attached store next table inum dinode dinode' pos (BitVec.ofNat 32 number) := by
  have valid := tracked.valid
  have balanced := tracked.balanced
  obtain ⟨exact, mapped⟩ := allocated.address valid
  have type : dinode'.type = dinode.type := by rw [fields]
  -- the indirect block belongs to the inode itself
  have own := tracked.owned_indirect
  have others : OthersKept store next table inum := by
    refine .of_blocks valid (allocated.kept.trans kept) fun other changed => ?_
    by_cases new : other = number
    · subst new
      have data := allocated.data
      have bitmap := valid.bitmap other allocated.inside
      refine ⟨?_, fun owner slot _ holds => ?_⟩
      · have low := store.sb.bblock_ge other
        unfold dataStart at data
        omega
      · exact (allocated.owned_kept valid balanced holds).1 rfl
    · by_cases isIndirect : dinode.addr 12 ≠ 0 ∧ other = (dinode.addr 12).toNat
      · obtain ⟨present, rfl⟩ := isIndirect
        have holds := own present
        have data := (balanced.data holds).1
        have bitmap := valid.bitmap number allocated.inside
        have low := store.sb.bblock_ge number
        refine ⟨?_, fun owner slot apart owns => ?_⟩
        · unfold dataStart at data
          omega
        · exact apart (congrArg Prod.fst (balanced.injective owns holds))
      · have same : next.blocks other = middle.blocks other := by
          by_cases absent : dinode.addr 12 = 0
          · exact indirect absent other
          · exact blocks other new fun equal => isIndirect ⟨absent, equal⟩
        rw [same] at changed
        have isBitmap : other = store.sb.bblock number := by
          by_contra elsewhere
          exact changed (allocated.blocks other new elsewhere)
        subst isBitmap
        refine ⟨store.sb.bblock_ge number, fun owner slot _ holds => ?_⟩
        have data := (balanced.data holds).1
        have bitmap := valid.bitmap number allocated.inside
        unfold dataStart at data
        omega
  have owns := owned_update tracked others rfl type within mapped references
  rw [exact] at owns
  refine ⟨others, ⟨by rw [others.kept.sb]; exact valid, ?_,
    by rw [others.kept.sb]; exact tracked.inside,
    update_self .., by rw [type]; exact tracked.allocated⟩,
    fields, mapped, references, ?_, .inl ⟨unmapped, by rw [exact]; exact zeroed⟩⟩
  · refine balanced.attach others.kept.sb allocated.inside allocated.free
      (tracked.unowned unmapped) owns fun other small => ?_
    rw [bits other small, allocated.bit other small]
  · intro other small notIndirect _ present
    have holds := tracked.owned small present
    obtain ⟨apart, same⟩ := allocated.owned_kept valid balanced holds
    by_cases absent : dinode.addr 12 = 0
    · rw [indirect absent, same]
    · rw [blocks _ apart, same]
      intro equal
      have twice := holds.trans (congrArg some equal)
      exact notIndirect (congrArg Prod.snd (balanced.injective twice (own absent)))

/-- `bmap` for an address held in the inode. -/
theorem mapDirect_spec {index : Nat} (small : index < 13) (lenient : Lenient stops) :
    wp (mapDirect dinode index) (fun result next => Attached store next table inum dinode result.2
        index result.1)
      stops store := by
  have here : reference store.blocks dinode index = dinode.addr index := by
    rw [reference, if_pos small]
  unfold mapDirect
  rw [wp_ite]
  refine ⟨fun absent => ?_, fun present => ?_⟩
  · refine wp_bind_of (balloc_spec tracked.valid (fun _ => tracked.balanced.metadata) lenient) ?_
    intro number next allocated
    rw [wp_pure]
    obtain ⟨exact, mapped⟩ := allocated.address tracked.valid
    refine .of_allocated tracked allocated (.refl next)
      (small.trans (by decide)) (by rw [here, absent]) rfl ?_
      allocated.zeroed (fun _ _ => rfl) (fun _ _ _ => rfl) (fun _ _ => rfl)
    intro other _
    by_cases direct : other < 13
    · rw [reference, if_pos direct, dinode.addr_setAddr _ small direct, reference, if_pos direct]
    · have apart : other ≠ index := by omega
      rw [if_neg apart, reference, if_neg direct, reference,
        if_neg direct, dinode.addr_setAddr _ small (by decide)]
      by_cases last : 12 = index
      · subst last
        -- the new indirect block has no addresses yet
        rw [if_pos rfl, if_neg mapped, exact, allocated.zeroed, if_pos absent]
        exact Block.word_zero _
      · rw [if_neg last]
        split
        case isTrue => rfl
        case isFalse present =>
          have holds := tracked.owned_indirect present
          rw [(allocated.owned_kept tracked.valid tracked.balanced holds).2]
  · rw [wp_pure, ← here]
    exact .refl tracked (by rwa [here])

/-- `bmap` for an address held in the indirect block. -/
theorem mapIndirect_spec (present : dinode.addr 12 ≠ 0) {index : Nat} (small : index < nindirect)
    (lenient : Lenient stops) :
    wp (mapIndirect (dinode.addr 12).toNat index)
      (fun address next => Attached store next table inum dinode dinode (13 + index) address)
      stops store := by
  have here := reference_entry present store.blocks index
  have inside : 13 + index < positions := by
    simp only [nindirect, positions] at small ⊢
    omega
  have holds := tracked.owned_indirect present
  unfold mapIndirect
  rw [wp_bind, wp_get, wp_ite]
  refine ⟨fun absent => ?_, fun mapped => ?_⟩
  · refine wp_bind_of (balloc_spec tracked.valid (fun _ => tracked.balanced.metadata) lenient) ?_
    intro number middle allocated
    obtain ⟨apart, same⟩ := allocated.owned_kept tracked.valid tracked.balanced holds
    rw [wp_bind, wp_get]
    refine wp_bind_of (logWrite_spec _ _ lenient) ?_
    rintro _ next ⟨kept, blocks⟩
    rw [wp_pure]
    refine .of_allocated tracked allocated kept inside (by rw [here, absent])
      rfl ?_ ?_ ?_ ?_ (fun absent => absurd absent present)
    · intro other _
      by_cases direct : other < 13
      · rw [reference, if_pos direct, if_neg (by omega), reference, if_pos direct]
      · rw [reference, if_neg direct, if_neg present, blocks,
          update_self, Block.word_setWord _ _ _ _ small, reference,
          if_neg direct, if_neg present, same]
        by_cases this : other = 13 + index
        · rw [if_pos (by omega), if_pos this]
        · rw [if_neg (by omega), if_neg this]
    · rw [blocks, update_of_ne apart.symm, allocated.zeroed]
    · intro other within
      have bitmap := tracked.valid.bitmap other within
      have data := (tracked.balanced.data holds).1
      unfold Store.bit
      rw [kept.sb, blocks, allocated.kept.sb, update_of_ne]
      unfold dataStart at data
      omega
    · intro other _ elsewhere
      rw [blocks, update_of_ne elsewhere]
  · rw [wp_pure, ← here]
    exact .refl tracked (by rwa [here])

end

variable {address : BitVec 32}

/-- Attaching the indirect block leaves the data as it is. -/
theorem Attached.contents_indirect
    (attached : Attached store next table inum dinode dinode' 12 address) :
    contents next.blocks dinode' = contents store.blocks dinode := by
  funext bn
  unfold contents
  by_cases inside : bn < maxfile
  · have within := dataPosition_lt inside
    have other := dataPosition_ne_indirect bn
    rw [attached.references _ within, if_neg other]
    split
    case isTrue mapped => rw [attached.data _ within other other mapped.2]
    case isFalse => rfl
  · simp [inside]

/-- Attaching a block of data adds a zero block where there was none. -/
theorem Attached.contents_data {bn : Nat} (inside : bn < maxfile)
    (attached : Attached store next table inum dinode dinode' (dataPosition bn) address) :
    contents next.blocks dinode' = update (contents store.blocks dinode) bn
        (some ((contents store.blocks dinode bn).getD 0)) := by
  funext other
  by_cases same : other = bn
  · subst same
    rw [update_self]
    unfold contents
    rw [attached.references _ (dataPosition_lt inside), if_pos rfl,
      if_pos ⟨inside, attached.mapped⟩]
    rcases attached.fresh with ⟨absent, zero⟩ | ⟨present, rfl, rfl⟩
    · rw [zero, if_neg (by simp [absent])]
      rfl
    · rw [present, if_pos ⟨inside, attached.mapped⟩]
      rfl
  · rw [update_of_ne same]
    unfold contents
    by_cases within : other < maxfile
    · have elsewhere : dataPosition other ≠ dataPosition bn := fun equal =>
        same (dataPosition_injective equal)
      have notIndirect := dataPosition_ne_indirect other
      have range := dataPosition_lt within
      rw [attached.references _ range, if_neg elsewhere]
      split
      case isTrue mapped => rw [attached.data _ range notIndirect elsewhere mapped.2]
      case isFalse => rfl
    · simp [within]

/-- A position that was mapped stays as it was. -/
theorem Attached.present (attached : Attached store next table inum dinode dinode' pos address)
    (mapped : reference store.blocks dinode pos ≠ 0) : next = store ∧ dinode' = dinode := by
  rcases attached.fresh with ⟨absent, _⟩ | ⟨_, same⟩
  · exact absurd absent mapped
  · exact same

theorem reference_ne_of_contents {bn : Nat} (present : contents blocks dinode bn ≠ none) :
    reference blocks dinode (dataPosition bn) ≠ 0 := by
  intro absent
  apply present
  rw [contents, if_neg fun both => both.2 absent]

/-- A block of a file's data is mapped. -/
structure Mapped (store next : Store) (table : Nat → Dinode) (inum : Nat)
    (dinode dinode' : Dinode) (bn : Nat) (address : BitVec 32) : Prop where
  others : OthersKept store next table inum
  tracked : Tracked next (update table inum dinode') inum dinode'
  fields : dinode' = { dinode with addrs := dinode'.addrs }
  mapped : address ≠ 0
  inside : bn < maxfile
  address : reference next.blocks dinode' (dataPosition bn) = address
  data : contents next.blocks dinode' = update (contents store.blocks dinode) bn
      (some ((contents store.blocks dinode bn).getD 0))
  /-- The indirect block is there only for blocks of data. -/
  indirect : dinode'.addr 12 ≠ 0 → dinode.addr 12 ≠ 0 ∨ 12 ≤ bn
  /-- A block that was there is found, and nothing changes. -/
  present : contents store.blocks dinode bn ≠ none → next = store ∧ dinode' = dinode

theorem bmap_spec (tracked : Tracked store table inum dinode) (bn : Nat) (lenient : Lenient stops)
    (range : ¬ bn < maxfile → stops (.panic "bmap: out of range")) :
    wp (bmap dinode bn) (fun result next => Mapped store next table inum dinode result.2 bn
        result.1)
      stops store := by
  unfold bmap
  rw [wp_ite]
  refine ⟨fun direct => ?_, fun far => ?_⟩
  · have inside : bn < maxfile := direct.trans (by decide)
    have place : dataPosition bn = bn := by rw [dataPosition, if_pos direct]
    refine wp_mono (mapDirect_spec tracked (direct.trans (by decide)) lenient) ?_ fun _ => id
    intro result next attached
    rw [← place] at attached
    refine ⟨attached.others, attached.tracked, attached.fields,
      attached.mapped, inside, ?_, attached.contents_data inside, ?_, ?_⟩
    · rw [attached.references _ (dataPosition_lt inside), if_pos rfl]
    · intro present
      have kept := attached.references 12 (by decide)
      rw [place, if_neg (by simp only [ndirect] at direct; omega)] at kept
      change result.2.addr 12 = dinode.addr 12 at kept
      exact .inl (by rwa [← kept])
    · exact fun present =>
        attached.present (reference_ne_of_contents present)
  · rw [wp_ite]
    refine ⟨fun near => ?_, fun beyond => range ?_⟩
    · have inside : bn < maxfile := by
        simp only [maxfile, ndirect, nindirect] at near ⊢
        omega
      have place : dataPosition bn = 13 + (bn - ndirect) := by
        rw [dataPosition, if_neg far]
        simp only [ndirect] at far ⊢
        omega
      refine wp_bind_of (mapDirect_spec tracked (by decide) lenient) ?_
      rintro ⟨indirect, grown⟩ middle first
      have address : indirect = grown.addr 12 := by
        have here := first.references 12 (by decide)
        rw [if_pos rfl] at here
        exact here.symm
      have present : grown.addr 12 ≠ 0 := by
        rw [← address]
        exact first.mapped
      simp only [address]
      refine wp_bind_of (mapIndirect_spec first.tracked present near lenient) ?_
      intro block next second
      rw [wp_pure]
      rw [← place] at second
      have others := first.others.trans second.others
      have tracked' := second.tracked
      rw [update_idem] at tracked'
      refine ⟨others, tracked', first.fields, second.mapped, inside, ?_, ?_,
        fun _ => .inr (not_lt.mp far), fun before => ?_⟩
      · rw [second.references _ (dataPosition_lt inside), if_pos rfl]
      · rw [second.contents_data inside, first.contents_indirect]
      · have mapped := reference_ne_of_contents before
        have held : reference store.blocks dinode 12 ≠ 0 := by
          intro absent
          apply mapped
          rw [place, reference, if_neg (by omega), if_pos (show dinode.addr 12 = 0 from absent)]
        obtain ⟨sameStore, sameInode⟩ := first.present held
        rw [sameStore, sameInode] at second
        obtain ⟨final, _⟩ := second.present mapped
        exact ⟨final, sameInode⟩
    · simp only [maxfile, ndirect, nindirect] at beyond far ⊢
      omega

end Map

end Xv6.Fs
