import Xv6.Fs.CachedInode
import Xv6.Log.Protocol
import Mathlib.Data.Finset.Card

/-!
# Writing when there is room

`log_write` panics when the transaction is full, and `balloc` when no block is
free.  When the blocks that `writei` logs fit into the log, each counted once, and
the blocks that it allocates are free, it returns.
-/

namespace Xv6.Fs

open Function Foundation.Program
open Log (logsize absorb absorb_eq)

/-- The length of the log once these blocks are in it too. -/
def Store.filled (store : Store) (blocks : Finset Nat) : Nat :=
  store.logged.length + (blocks.filter (· ∉ store.logged)).card

/-- These blocks and `count` more fit into the log, and do not fill it:
`log_write` tests for a full log before it looks for the block there. -/
structure Store.Room (store : Store) (blocks : Finset Nat) (count : Nat) : Prop where
  log : store.filled blocks + count < logsize
  disk : store.filled blocks + count < store.logSize - 1
  begun : 1 ≤ store.outstanding

/-- The blocks that the bitmap shows as free. -/
def Store.freeBlocks (store : Store) : Finset Nat :=
  (Finset.range store.sb.size).filter fun number => store.bit number = false

section Room

variable {store next : Store} {blocks : Finset Nat} {count : Nat}

theorem Store.filled_insert (store : Store) (number : Nat) :
    store.filled (insert number blocks) ≤ store.filled blocks + 1 := by
  unfold filled
  rw [Finset.filter_insert]
  split
  · have more := Finset.card_insert_le number (blocks.filter (· ∉ store.logged))
    omega
  · omega

/-- Logging a block that is counted does not lengthen the log. -/
theorem Store.filled_absorb {number : Nat} (member : number ∈ blocks)
    (logged : next.logged = absorb store.logged number) :
    next.filled blocks = store.filled blocks := by
  unfold filled
  rw [logged, absorb_eq]
  split
  case isTrue => rfl
  case isFalse absent =>
    have counted : number ∈ blocks.filter (· ∉ store.logged) :=
      Finset.mem_filter.mpr ⟨member, absent⟩
    have erased : blocks.filter (· ∉ store.logged ++ [number]) =
        (blocks.filter (· ∉ store.logged)).erase number := by
      ext other
      simp only [Finset.mem_filter, Finset.mem_erase, List.mem_append, List.mem_singleton]
      tauto
    rw [erased, List.length_append, List.length_singleton, ← Finset.card_erase_add_one counted]
    omega

theorem Store.Room.mono {fewer : Finset Nat} (room : store.Room blocks count)
    (subset : fewer ⊆ blocks) : store.Room fewer count := by
  have less : store.filled fewer ≤ store.filled blocks :=
    Nat.add_le_add_left (Finset.card_le_card (Finset.filter_subset_filter _ subset)) _
  have log := room.log
  have disk := room.disk
  exact ⟨by omega, by omega, room.begun⟩

/-- A new block that is known now. -/
theorem Store.Room.insert (room : store.Room blocks (count + 1)) (number : Nat) :
    store.Room (insert number blocks) count := by
  have more := @filled_insert blocks store number
  have log := room.log
  have disk := room.disk
  exact ⟨by omega, by omega, room.begun⟩

theorem logWrite_room (number : Nat) (contents : Block) (room : store.Room blocks count) :
    wp (logWrite number contents) (fun _ next => (number ∈ blocks → next.Room blocks count) ∧
        Kept store next ∧ next.blocks = update store.blocks number contents)
      Never store := by
  obtain ⟨log, disk, begun⟩ := room
  have length : store.logged.length ≤ store.filled blocks := Nat.le_add_right _ _
  unfold logWrite
  simp only [wp_bind, wp_get, wp_ite, wp_throw, wp_set]
  refine ⟨fun full => by omega, fun _ => ⟨fun outside => by omega, fun _ => ?_⟩⟩
  refine ⟨fun member => ?_, ⟨rfl, rfl, rfl⟩, trivial⟩
  refine ⟨?_, ?_, begun⟩
  · rwa [Store.filled_absorb member rfl]
  · rwa [Store.filled_absorb member rfl]

theorem freeBlocks_of_data {number : Nat} {contents : Block}
    (valid : store.sb.Valid) (data : store.sb.dataStart ≤ number) (kept : Kept store next)
    (written : next.blocks = update store.blocks number contents) :
    next.freeBlocks = store.freeBlocks := by
  unfold Store.freeBlocks
  rw [kept.sb]
  refine Finset.filter_congr fun other within => ?_
  have bitmap := valid.bitmap other (Finset.mem_range.mp within)
  unfold Store.bit
  rw [kept.sb, written, update_of_ne]
  exact (bitmap.trans_le data).ne

theorem Allocated.freeBlocks {number : Nat} (allocated : Allocated store next number) :
    next.freeBlocks.card + 1 = store.freeBlocks.card := by
  have member : number ∈ store.freeBlocks :=
    Finset.mem_filter.mpr ⟨Finset.mem_range.mpr allocated.inside, allocated.free⟩
  have erased : next.freeBlocks = store.freeBlocks.erase number := by
    ext other
    unfold Store.freeBlocks
    rw [Finset.mem_erase, Finset.mem_filter, Finset.mem_filter, allocated.kept.sb, Finset.mem_range]
    constructor
    · rintro ⟨within, clear⟩
      rw [allocated.bit other within] at clear
      split at clear
      · cases clear
      · exact ⟨‹_›, within, clear⟩
    · rintro ⟨apart, within, clear⟩
      refine ⟨within, ?_⟩
      rw [allocated.bit other within, if_neg apart, clear]
  rw [erased, Finset.card_erase_add_one member]

theorem lenient_true : Lenient fun _ => True :=
  ⟨trivial, trivial, trivial, trivial, trivial⟩

/-- `balloc` returns when a block is free and there is room for the block and for
the bitmap. -/
theorem balloc_room (valid : store.sb.Valid)
    (metadata : ∀ number < store.sb.dataStart, store.bit number = true)
    (bitmap : ∀ number < store.sb.size, store.sb.bblock number ∈ blocks)
    (room : store.Room blocks (count + 1)) (free : 0 < store.freeBlocks.card) :
    wp balloc (fun number next =>
        next.Room (insert number blocks) count ∧ Allocated store next number)
      Never store := by
  have returns : wp balloc (fun number next => next.Room (insert number blocks) count)
      Never store := by
    unfold balloc
    rw [wp_bind, wp_get]
    cases found : (List.range store.sb.size).find?
        fun number => !store.bit number with
    | none =>
      obtain ⟨number, member⟩ := Finset.card_pos.mp free
      obtain ⟨within, clear⟩ := Finset.mem_filter.mp member
      have used := List.find?_eq_none.mp found number
        (List.mem_range.mpr (Finset.mem_range.mp within))
      rw [clear] at used
      exact absurd rfl used
    | some number =>
      have small := List.mem_range.mp (List.mem_of_find?_eq_some found)
      unfold setBit
      rw [wp_bind, wp_bind, wp_get]
      refine wp_mono (logWrite_room _ _ (room.insert number)) ?_ fun _ => id
      rintro _ marked ⟨left, -⟩
      refine wp_bind_of (logWrite_room number 0
        (left (Finset.mem_insert_of_mem (bitmap number small)))) ?_
      rintro _ next ⟨left, -⟩
      exact left (Finset.mem_insert_self _ _)
  exact wp_and_returns returns (balloc_spec valid metadata lenient_true)

end Room

section Map

variable {store next : Store} {table : Nat → Dinode} {inum : Nat} {dinode dinode' : Dinode}
variable {places : Finset Nat}

/-- The positions at which a block is to be allocated. -/
def missing (blocks : Nat → Block) (dinode : Dinode) (places : Finset Nat) : Finset Nat :=
  places.filter fun place => reference blocks dinode place = 0

/-- The blocks that are logged when the blocks at the positions are written, apart
from new ones: those that are there and, for an allocation, the bitmap. -/
def Store.existing (store : Store) (dinode : Dinode) (places : Finset Nat) : Finset Nat :=
  (places.filter fun place => reference store.blocks dinode place ≠ 0).image
      (fun place => (reference store.blocks dinode place).toNat) ∪
    if missing store.blocks dinode places = ∅ then ∅
    else (Finset.range store.sb.size).image store.sb.bblock

/-- The blocks at the positions fit into the log, and those that are missing can
be allocated. -/
structure Ample (store : Store) (dinode : Dinode) (places : Finset Nat) : Prop where
  room : store.Room (store.existing dinode places) (missing store.blocks dinode places).card
  free : (missing store.blocks dinode places).card ≤ store.freeBlocks.card

/-- The positions include the indirect block if an address is to be entered
there. -/
structure Provided (store : Store) (dinode : Dinode) (places : Finset Nat) : Prop extends
    Ample store dinode places where
  within : ∀ place ∈ places, place < positions
  indirect : ∀ place ∈ places, 12 < place → reference store.blocks dinode place = 0 → 12 ∈ places

theorem mem_existing {place : Nat} (member : place ∈ places)
    (present : reference store.blocks dinode place ≠ 0) :
    (reference store.blocks dinode place).toNat ∈ store.existing dinode places :=
  Finset.mem_union_left _ (Finset.mem_image_of_mem _ (Finset.mem_filter.mpr ⟨member, present⟩))

theorem bblock_mem_existing {place : Nat}
    (absent : place ∈ missing store.blocks dinode places) {number : Nat}
    (small : number < store.sb.size) : store.sb.bblock number ∈ store.existing dinode places := by
  unfold Store.existing
  rw [if_neg (Finset.ne_empty_of_mem absent)]
  exact Finset.mem_union_right _ (Finset.mem_image_of_mem _ (Finset.mem_range.mpr small))

/-- A block has been allocated for a position. -/
theorem Provided.attached {place : Nat} {address : BitVec 32}
    (provided : Provided store dinode places)
    (attached : Attached store next table inum dinode dinode' place address)
    (absent : place ∈ missing store.blocks dinode places)
    (room : next.Room (insert address.toNat (store.existing dinode places))
      ((missing store.blocks dinode places).card - 1))
    (free : next.freeBlocks.card + 1 = store.freeBlocks.card) : Provided next dinode' places := by
  have references : ∀ other ∈ places, reference next.blocks dinode' other =
      if other = place then address else reference store.blocks dinode other :=
    fun other member => attached.references other (provided.within other member)
  have fewer : missing next.blocks dinode' places =
      (missing store.blocks dinode places).erase place := by
    ext other
    simp only [missing, Finset.mem_filter, Finset.mem_erase]
    constructor
    · rintro ⟨member, zero⟩
      rw [references other member] at zero
      split at zero
      · exact absurd zero attached.mapped
      · exact ⟨‹_›, member, zero⟩
    · rintro ⟨apart, member, zero⟩
      rw [references other member, if_neg apart]
      exact ⟨member, zero⟩
  have subset : next.existing dinode' places ⊆
      insert address.toNat (store.existing dinode places) := by
    intro number member
    rcases Finset.mem_union.mp member with there | bitmap
    · obtain ⟨other, held, rfl⟩ := Finset.mem_image.mp there
      obtain ⟨among, present⟩ := Finset.mem_filter.mp held
      rw [references other among] at present ⊢
      by_cases same : other = place
      · rw [if_pos same]
        exact Finset.mem_insert_self _ _
      · rw [if_neg same] at present ⊢
        exact Finset.mem_insert_of_mem (mem_existing among present)
    · split at bitmap
      · cases bitmap
      · obtain ⟨other, small, rfl⟩ := Finset.mem_image.mp bitmap
        rw [attached.others.kept.sb] at small ⊢
        exact Finset.mem_insert_of_mem (bblock_mem_existing absent (Finset.mem_range.mp small))
  have one : (missing next.blocks dinode' places).card =
      (missing store.blocks dinode places).card - 1 := by
    rw [fewer, Finset.card_erase_of_mem absent]
  refine ⟨⟨?_, ?_⟩, provided.within, fun other member far zero => ?_⟩
  · rw [one]
    exact room.mono subset
  · have enough := provided.free
    omega
  · rw [references other member] at zero
    split at zero
    · exact absurd zero attached.mapped
    · exact provided.indirect other member far zero

/-- A block of data that is there has been written. -/
theorem Provided.written {bn : Nat} {block : Block} (provided : Provided store dinode places)
    (tracked : Tracked store table inum dinode) (inside : bn < maxfile)
    (present : reference store.blocks dinode (dataPosition bn) ≠ 0) (kept : Kept store next)
    (stored : next.blocks = update store.blocks
      (reference store.blocks dinode (dataPosition bn)).toNat block)
    (room : next.Room (store.existing dinode places)
      (missing store.blocks dinode places).card) : Provided next dinode places := by
  have holds := tracked.owned (dataPosition_lt inside) present
  have same : reference next.blocks dinode = reference store.blocks dinode := by
    refine funext (reference_congr fun held => ?_)
    rw [stored, update_of_ne]
    intro equal
    have twice := (tracked.owned_indirect held).trans (congrArg some equal)
    exact dataPosition_ne_indirect bn
      (congrArg Prod.snd (tracked.balanced.injective twice holds)).symm
  have free := freeBlocks_of_data tracked.valid (tracked.balanced.data holds).1 kept stored
  have missing' : missing next.blocks dinode places = missing store.blocks dinode places := by
    unfold missing
    rw [same]
  have existing : next.existing dinode places = store.existing dinode places := by
    unfold Store.existing
    rw [missing', same, kept.sb]
  refine ⟨⟨?_, ?_⟩, provided.within, ?_⟩
  · rwa [existing, missing']
  · rw [missing', free]
    exact provided.free
  · rw [same]
    exact provided.indirect

section

variable (tracked : Tracked store table inum dinode) (provided : Provided store dinode places)
include tracked provided

theorem balloc_provided {place : Nat} (absent : place ∈ missing store.blocks dinode places) :
    wp balloc (fun number next =>
        next.Room (insert number (store.existing dinode places))
          ((missing store.blocks dinode places).card - 1) ∧ Allocated store next number)
      Never store := by
  have some := Finset.card_pos.mpr ⟨place, absent⟩
  have room := provided.room
  rw [← Nat.sub_add_cancel some] at room
  exact balloc_room tracked.valid (fun _ => tracked.balanced.metadata)
    (fun _ => bblock_mem_existing absent) room (some.trans_le provided.free)

theorem mapDirect_provided {index : Nat} (small : index < 13)
    (member : dinode.addr index = 0 → index ∈ places) :
    wp (mapDirect dinode index)
      (fun result next => Provided next result.2 places ∧
        Attached store next table inum dinode result.2 index result.1)
      Never store := by
  have here : reference store.blocks dinode index = dinode.addr index := if_pos small
  have returns : wp (mapDirect dinode index)
      (fun result next => dinode.addr index = 0 →
        next.Room (insert result.1.toNat (store.existing dinode places))
          ((missing store.blocks dinode places).card - 1) ∧
        next.freeBlocks.card + 1 = store.freeBlocks.card) Never store := by
    unfold mapDirect
    rw [wp_ite]
    refine ⟨fun absent => ?_, fun present absent => absurd absent present⟩
    refine wp_bind_of (balloc_provided tracked provided
      (Finset.mem_filter.mpr ⟨member absent, by rw [here, absent]⟩)) ?_
    rintro number next ⟨room, allocated⟩ -
    dsimp only
    rw [(allocated.address tracked.valid).1]
    exact ⟨room, allocated.freeBlocks⟩
  refine wp_mono (wp_and_returns returns (mapDirect_spec tracked small lenient_true)) ?_ fun _ => id
  rintro ⟨address, grown⟩ next ⟨grows, attached⟩
  refine ⟨?_, attached⟩
  rcases attached.fresh with ⟨absent, -⟩ | ⟨-, rfl, rfl⟩
  · rw [here] at absent
    obtain ⟨room, free⟩ := grows absent
    exact provided.attached attached
      (Finset.mem_filter.mpr ⟨member absent, by rw [here, absent]⟩) room free
  · exact provided

theorem mapIndirect_provided (present : dinode.addr 12 ≠ 0) {index : Nat}
    (small : index < nindirect) (member : 13 + index ∈ places) :
    wp (mapIndirect (dinode.addr 12).toNat index)
      (fun _ next => Provided next dinode places) Never store := by
  have here := reference_entry present store.blocks index
  have returns : wp (mapIndirect (dinode.addr 12).toNat index)
      (fun address next => reference store.blocks dinode (13 + index) = 0 →
        next.Room (insert address.toNat (store.existing dinode places))
          ((missing store.blocks dinode places).card - 1) ∧
        next.freeBlocks.card + 1 = store.freeBlocks.card) Never store := by
    unfold mapIndirect
    rw [wp_bind, wp_get, wp_ite]
    refine ⟨fun absent => ?_, fun mapped zero => absurd (here.symm.trans zero) mapped⟩
    have zero : reference store.blocks dinode (13 + index) = 0 := by rw [here, absent]
    refine wp_bind_of (balloc_provided tracked provided (Finset.mem_filter.mpr ⟨member, zero⟩)) ?_
    rintro number middle ⟨room, allocated⟩
    rw [wp_bind, wp_get]
    refine wp_bind_of (logWrite_room _ _ room) ?_
    rintro _ next ⟨left, kept, written⟩ -
    have entered : (dinode.addr 12).toNat ∈ store.existing dinode places :=
      mem_existing (provided.indirect _ member (by omega) zero) present
    have data := (tracked.balanced.data (tracked.owned_indirect present)).1
    have valid := tracked.valid
    rw [← allocated.kept.sb] at data valid
    rw [(allocated.address tracked.valid).1, freeBlocks_of_data valid data kept written]
    exact ⟨left (Finset.mem_insert_of_mem entered), allocated.freeBlocks⟩
  refine wp_mono (wp_and_returns returns
    (mapIndirect_spec tracked present small lenient_true)) ?_ fun _ => id
  rintro address next ⟨grows, attached⟩
  rcases attached.fresh with ⟨absent, -⟩ | ⟨-, rfl, -⟩
  · obtain ⟨room, free⟩ := grows absent
    exact provided.attached attached (Finset.mem_filter.mpr ⟨member, absent⟩) room free
  · exact provided

/-- `bmap` returns when its block is among those there is room for. -/
theorem bmap_provided {bn : Nat} (inside : bn < maxfile) (member : dataPosition bn ∈ places) :
    wp (bmap dinode bn) (fun result next => Provided next result.2 places) Never store := by
  unfold bmap
  rw [wp_ite]
  refine ⟨fun direct => ?_, fun far => ?_⟩
  · have place : dataPosition bn = bn := if_pos direct
    rw [place] at member
    exact wp_mono (mapDirect_provided tracked provided (direct.trans (by decide)) fun _ => member)
      (fun _ _ => And.left) fun _ => id
  · have place : dataPosition bn = 13 + (bn - ndirect) := by
      rw [dataPosition, if_neg far]
      simp only [ndirect] at far ⊢
      omega
    have near : bn - ndirect < nindirect := by
      simp only [maxfile, ndirect, nindirect] at *
      omega
    rw [place] at member
    rw [if_pos near]
    refine wp_bind_of (mapDirect_provided tracked provided (by decide) fun absent =>
      provided.indirect _ member (by omega) ?_) ?_
    · rw [reference, if_neg (by omega), if_pos absent]
    rintro ⟨indirect, grown⟩ middle ⟨left, attached⟩
    have address : indirect = grown.addr 12 := by
      have here := attached.references 12 (by decide)
      rw [if_pos rfl] at here
      exact here.symm
    have present : grown.addr 12 ≠ 0 := by
      rw [← address]
      exact attached.mapped
    rw [address]
    exact wp_bind_of (mapIndirect_provided attached.tracked left present near member)
      fun _ _ => id

end

/-- The loop of `writei` returns when its blocks are among those there is room
for. -/
theorem writeiLoop_provided {fuel off : Nat} {src : List Byte}
    (tracked : Tracked store table inum dinode) (fits : off + src.length ≤ maxfile * bsize)
    (provided : Provided store dinode places)
    (touched : ∀ bn, Touches off src.length bn → dataPosition bn ∈ places) :
    wp (writeiLoop fuel dinode off src) (fun final next => Provided next final places)
      Never store := by
  induction fuel generalizing store table dinode off src with
  | zero => exact provided
  | succ fuel ih =>
    rw [writeiLoop, wp_ite]
    refine ⟨fun empty => provided, fun some => ?_⟩
    have inside : off / bsize < maxfile := by
      rw [Nat.div_lt_iff_lt_mul (by decide)]
      omega
    have small : off % bsize < bsize := Nat.mod_lt _ (by decide)
    have length : (src.take (min src.length (bsize - off % bsize))).length =
        min src.length (bsize - off % bsize) := by
      rw [List.length_take]
      omega
    have rest : (src.drop (min src.length (bsize - off % bsize))).length =
        src.length - min src.length (bsize - off % bsize) :=
      List.length_drop
    have member := touched (off / bsize)
      ⟨Nat.pos_of_ne_zero some, le_refl _, by simp only [bsize]; omega⟩
    refine wp_bind_of (wp_and_returns (bmap_provided tracked provided inside member)
      (bmap_spec tracked _ lenient_true fun far => absurd inside far)) ?_
    rintro ⟨address, grown⟩ middle ⟨left, mapped⟩
    rw [wp_bind, wp_get]
    refine wp_bind_of (logWrite_room _ _ left.room) ?_
    rintro _ written ⟨room, kept, stored⟩
    have one := Written.of_block mapped (by rw [length]; omega) (by rw [length]; omega) kept stored
    refine ih one.tracked (by rw [rest]; omega) ?_ ?_
    · have there : reference middle.blocks grown (dataPosition (off / bsize)) = address :=
        mapped.address
      have present : reference middle.blocks grown (dataPosition (off / bsize)) ≠ 0 := by
        rw [there]
        exact mapped.mapped
      rw [← there] at stored room
      exact left.written mapped.tracked inside present kept stored
        (room (mem_existing member present))
    · rintro bn ⟨positive, low, high⟩
      rw [rest] at positive high
      refine touched bn ⟨by omega, ?_, by omega⟩
      exact le_trans (Nat.div_le_div_right (by omega)) low

/-- The positions of the blocks of data in a range of offsets. -/
def dataPositions (off n : Nat) : Finset Nat :=
  ((Finset.range maxfile).filter (Touches off n)).image dataPosition

/-- The positions of the blocks that `writei` logs: those of the data and, if it
enters an address there, that of the indirect block. -/
def writtenPositions (blocks : Nat → Block) (dinode : Dinode) (off n : Nat) : Finset Nat :=
  dataPositions off n ∪
    if ∃ place ∈ dataPositions off n, 12 < place ∧ reference blocks dinode place = 0 then {12}
    else ∅

theorem Ample.provided {off n : Nat}
    (ample : Ample store dinode (writtenPositions store.blocks dinode off n)) :
    Provided store dinode (writtenPositions store.blocks dinode off n) := by
  have last : ∀ place ∈ writtenPositions store.blocks dinode off n, place ≠ 12 →
      place ∈ dataPositions off n := by
    intro place member other
    refine (Finset.mem_union.mp member).resolve_right fun indirect => ?_
    split at indirect
    · exact other (Finset.mem_singleton.mp indirect)
    · cases indirect
  refine ⟨ample, fun place member => ?_, fun place member far zero => ?_⟩
  · by_cases indirect : place = 12
    · rw [indirect]
      decide
    · obtain ⟨bn, touched, rfl⟩ := Finset.mem_image.mp (last place member indirect)
      exact dataPosition_lt (Finset.mem_range.mp (Finset.mem_filter.mp touched).1)
  · refine Finset.mem_union_right _ ?_
    rw [if_pos ⟨place, last place member (by omega), far, zero⟩]
    exact Finset.mem_singleton_self _

end Map

end Xv6.Fs
