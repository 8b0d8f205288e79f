import Xv6.Fs.Content

/-!
# Truncating a file

`itrunc` frees every block the inode refers to, each once, so that it never
reaches `panic("freeing free block")`, and leaves the inode without blocks.
-/

namespace Xv6.Fs

open List Function Foundation.Program Foundation.Ownership

variable {store next : Store} {table : Nat → Dinode} {inum : Nat}
variable {dinode : Dinode} {stops : Stop → Prop}

/-- Only the bitmap changes. -/
structure BitmapOnly (store next : Store) : Prop where
  kept : Kept store next
  blocks : ∀ number, next.blocks number ≠ store.blocks number →
    store.sb.bmapstart ≤ number ∧ number < store.sb.dataStart

theorem BitmapOnly.refl (store : Store) : BitmapOnly store store :=
  ⟨.refl store, fun _ changed => absurd rfl changed⟩

theorem BitmapOnly.trans {middle : Store}
    (first : BitmapOnly store middle) (second : BitmapOnly middle next) :
    BitmapOnly store next := by
  refine ⟨first.kept.trans second.kept, fun number changed => ?_⟩
  by_cases early : middle.blocks number = store.blocks number
  · have late := second.blocks number (by rwa [early])
    rwa [first.kept.sb] at late
  · exact first.blocks number early

/-- Take the blocks at some positions of an inode out of the accounts. -/
def without (accounts : Nat × Nat → Option Nat) (inum : Nat)
    (freed : List Nat) (place : Nat × Nat) : Option Nat :=
  if place.1 = inum ∧ place.2 ∈ freed then none else accounts place

theorem without_nil (accounts : Nat × Nat → Option Nat) (inum : Nat) :
    without accounts inum [] = accounts := by
  funext place
  simp [without]

theorem without_cons (accounts : Nat × Nat → Option Nat) (inum : Nat)
    (pos : Nat) (freed : List Nat) :
    without accounts inum (pos :: freed) =
      without (update accounts (inum, pos) none) inum freed := by
  funext place
  obtain ⟨other, slot⟩ := place
  unfold without
  by_cases here : other = inum ∧ slot = pos
  · obtain ⟨rfl, rfl⟩ := here
    simp
  · have elsewhere : (other, slot) ≠ (inum, pos) := by
      simpa [Prod.ext_iff] using here
    rw [update_of_ne elsewhere]
    by_cases same : other = inum
    · have apart : slot ≠ pos := fun equal => here ⟨same, equal⟩
      simp [apart]
    · simp [same]

variable {pos : Nat}

/-- Taking a position that owns nothing changes nothing. -/
theorem without_cons_of_none
    {accounts : Nat × Nat → Option Nat} (empty : accounts (inum, pos) = none) (freed : List Nat) :
    without accounts inum (pos :: freed) = without accounts inum freed := by
  rw [without_cons, ← empty, update_eq_self]

theorem bfree_owned_spec {accounts : Nat × Nat → Option Nat} {place : Nat × Nat} {number : Nat}
    (valid : store.sb.Valid) (accounted : Accounted accounts store.Used store.sb.Reserved)
    (holds : accounts place = some number) (lenient : Lenient stops) :
    wp (bfree number) (fun _ next => BitmapOnly store next ∧
        Accounted (update accounts place none) next.Used next.sb.Reserved)
      stops store := by
  have area := accounted.unreserved holds
  unfold Superblock.Reserved at area
  have small : number < store.sb.size := by omega
  have marked : store.bit number = true := (accounted.used_of_owned holds).resolve_left (by omega)
  refine wp_mono (bfree_spec marked lenient) ?_ fun _ => id
  intro _ next written
  refine ⟨⟨written.kept, fun other changed => ?_⟩, ?_⟩
  · have here : other = store.sb.bblock number := by
      by_contra elsewhere
      exact changed (written.blocks other elsewhere)
    rw [here]
    exact ⟨store.sb.bblock_ge number, valid.bitmap number small⟩
  · rw [written.kept.sb]
    refine (accounted.release holds).congr (fun _ => rfl) fun other => ?_
    unfold Store.Used
    rw [written.kept.sb, written.bit]
    by_cases same : other = number
    · subst same
      simp
      omega
    · simp [same]

variable {indices : List Nat}

/-- The second loop of `itrunc` frees the blocks in the indirect block. -/
theorem truncIndirect_spec {accounts : Nat × Nat → Option Nat} {indirect : Block}
    (valid : store.sb.Valid) (accounted : Accounted accounts store.Used store.sb.Reserved)
    (distinct : indices.Nodup)
    (holds : ∀ index ∈ indices, accounts (inum, 13 + index) = if indirect.word index = 0 then none
      else some (indirect.word index).toNat)
    (lenient : Lenient stops) :
    wp (truncIndirect indirect indices) (fun _ next => BitmapOnly store next ∧
        Accounted (without accounts inum (indices.map (13 + ·))) next.Used next.sb.Reserved)
      stops store := by
  induction indices generalizing store accounts with
  | nil =>
    rw [truncIndirect, wp_pure, map_nil, without_nil]
    exact ⟨.refl store, accounted⟩
  | cons index indices ih =>
    obtain ⟨absent, distinct⟩ := nodup_cons.mp distinct
    have first := holds index mem_cons_self
    have rest := fun other member =>
      holds other (mem_cons_of_mem index member)
    rw [truncIndirect, wp_ite, map_cons]
    refine ⟨fun mapped => ?_, fun unmapped => ?_⟩
    · rw [if_neg mapped] at first
      refine wp_bind_of (bfree_owned_spec valid accounted first lenient) ?_
      rintro _ middle ⟨bitmap, balanced⟩
      refine wp_mono (ih (by rwa [bitmap.kept.sb]) balanced
        distinct fun other member => ?_) ?_ fun _ => id
      · rw [update_of_ne, rest other member]
        intro same
        obtain ⟨_, equal⟩ := Prod.mk.inj same
        exact absent ((by omega : other = index) ▸ member)
      · rintro _ next ⟨later, final⟩
        rw [without_cons]
        exact ⟨bitmap.trans later, final⟩
    · rw [if_pos (not_not.mp unmapped)] at first
      rw [without_cons_of_none first]
      exact ih valid accounted distinct rest

/-- Forget some direct addresses. -/
def clearAddrs (dinode : Dinode) : List Nat → Dinode
  | [] => dinode
  | index :: indices => clearAddrs (dinode.setAddr index 0) indices

theorem addr_clearAddrs (dinode : Dinode) (small : ∀ index ∈ indices, index < 13)
    {other : Nat} (inside : other < 13) :
    (clearAddrs dinode indices).addr other =
      if other ∈ indices then 0 else dinode.addr other := by
  induction indices generalizing dinode with
  | nil => rfl
  | cons index indices ih =>
    rw [clearAddrs, ih _ fun later member =>
        small later (mem_cons_of_mem index member),
      dinode.addr_setAddr 0 (small index mem_cons_self) inside]
    by_cases same : other = index
    · simp [same]
    · simp [same]

theorem clearAddrs_fields (dinode : Dinode) (indices : List Nat) : clearAddrs dinode indices =
      { dinode with addrs := (clearAddrs dinode indices).addrs } := by
  induction indices generalizing dinode with
  | nil => rfl
  | cons index indices ih =>
    rw [clearAddrs, ih]
    rfl

theorem setAddr_zero {index : Nat} (empty : dinode.addr index = 0) :
    dinode.setAddr index 0 = dinode := by
  unfold Dinode.setAddr
  unfold Dinode.addr at empty
  rw [← empty, update_eq_self]

/-- The first loop of `itrunc` frees the blocks at direct addresses. -/
theorem truncDirect_spec {accounts : Nat × Nat → Option Nat} (valid : store.sb.Valid)
    (accounted : Accounted accounts store.Used store.sb.Reserved)
    (distinct : indices.Nodup) (small : ∀ index ∈ indices, index < 13)
    (holds : ∀ index ∈ indices, accounts (inum, index) = if dinode.addr index = 0 then none
      else some (dinode.addr index).toNat)
    (lenient : Lenient stops) :
    wp (truncDirect indices dinode) (fun cleared next => cleared = clearAddrs dinode indices ∧
        BitmapOnly store next ∧
        Accounted (without accounts inum indices) next.Used next.sb.Reserved)
      stops store := by
  induction indices generalizing store accounts dinode with
  | nil =>
    rw [truncDirect, wp_pure, without_nil]
    exact ⟨rfl, .refl store, accounted⟩
  | cons index indices ih =>
    obtain ⟨absent, distinct⟩ := nodup_cons.mp distinct
    have first := holds index mem_cons_self
    have inside := small index mem_cons_self
    have smaller := fun other member =>
      small other (mem_cons_of_mem index member)
    have rest := fun other member =>
      holds other (mem_cons_of_mem index member)
    rw [truncDirect, wp_ite]
    refine ⟨fun mapped => ?_, fun unmapped => ?_⟩
    · rw [if_neg mapped] at first
      refine wp_bind_of (bfree_owned_spec valid accounted first lenient) ?_
      rintro _ middle ⟨bitmap, balanced⟩
      refine wp_mono (ih (by rwa [bitmap.kept.sb]) balanced
        distinct smaller fun other member => ?_) ?_ fun _ => id
      · have apart : other ≠ index := fun same => absent (same ▸ member)
        rw [update_of_ne (by simp [apart]), rest other member,
          dinode.addr_setAddr 0 inside (smaller other member),
          if_neg apart]
      · rintro cleared next ⟨result, later, final⟩
        rw [without_cons]
        exact ⟨result, bitmap.trans later, final⟩
    · have empty := not_not.mp unmapped
      rw [if_pos empty] at first
      rw [without_cons_of_none first, clearAddrs, setAddr_zero empty]
      exact ih valid accounted distinct smaller rest

/-- An inode without blocks. -/
def Dinode.truncated (dinode : Dinode) : Dinode :=
  { dinode with addrs := fun _ => 0, size := 0 }

theorem reference_truncated (blocks : Nat → Block) (dinode : Dinode)
    (pos : Nat) : reference blocks dinode.truncated pos = 0 := by
  unfold reference
  split
  · rfl
  · rfl

/-- A file has been truncated. -/
structure Truncated (store next : Store) (table : Nat → Dinode) (inum : Nat)
    (dinode : Dinode) : Prop where
  others : OthersKept store next table inum
  tracked : Tracked next (Function.update table inum dinode.truncated) inum dinode.truncated

/-- What the positions of the inode own. -/
theorem Tracked.accounts (tracked : Tracked store table inum dinode) (within : pos < positions) :
    Fs.owned store.sb store.blocks table (inum, pos) =
      if reference store.blocks dinode pos = 0 then none
      else some (reference store.blocks dinode pos).toNat := by
  split
  case isTrue absent => exact tracked.unowned absent
  case isFalse present => exact tracked.owned within present

theorem owned_beyond (beyond : positions ≤ pos) :
    owned store.sb store.blocks table (inum, pos) = none := by
  rw [owned, if_neg fun all => absurd all.2.2.1 (not_lt.mpr beyond)]

/-- All blocks of the inode have been taken out of the accounts. -/
theorem Truncated.of_accounts {accounts : Nat × Nat → Option Nat}
    (tracked : Tracked store table inum dinode) (bitmap : BitmapOnly store next)
    (accounted : Accounted accounts next.Used next.sb.Reserved)
    (own : ∀ pos, accounts (inum, pos) = none)
    (rest : ∀ other pos, other ≠ inum → accounts (other, pos) =
      owned store.sb store.blocks table (other, pos)) : Truncated store next table inum dinode := by
  have sb := bitmap.kept.sb
  have others : OthersKept store next table inum := by
    refine .of_blocks tracked.valid bitmap.kept fun number changed => ?_
    obtain ⟨low, high⟩ := bitmap.blocks number changed
    refine ⟨low, fun other pos _ holds => ?_⟩
    exact absurd (tracked.balanced.data holds).1 (not_le.mpr high)
  refine ⟨others, by rw [sb]; exact tracked.valid, ?_,
    by rw [sb]; exact tracked.inside, update_self ..,
    tracked.allocated⟩
  refine accounted.congr ?_ fun _ => Iff.rfl
  rintro ⟨other, pos⟩
  by_cases same : other = inum
  · subst same
    rw [own, owned, if_neg]
    rw [update_self, reference_truncated]
    exact fun all => all.2.2.2 rfl
  · rw [rest other pos same, sb]
    refine owned_congr ?_ fun inside allocated _ => ?_
    · rw [update_of_ne same]
    · rw [update_of_ne same]
      exact others.references other same inside allocated pos

/-- The fields of the inode once all its addresses are cleared. -/
theorem Dinode.truncated_eq {cleared : Dinode}
    (fields : cleared = { dinode with addrs := cleared.addrs })
    (empty : ∀ index < 13, cleared.addr index = 0) :
    { cleared with size := 0 } = dinode.truncated := by
  have addrs : cleared.addrs = fun _ => 0 := by
    funext index
    have same : Fin.ofNat 13 index.val = index := Fin.ext (Nat.mod_eq_of_lt index.isLt)
    rw [← same]
    exact empty index.val index.isLt
  rw [fields, addrs]
  rfl

theorem mem_entryPositions : pos ∈ (List.range nindirect).map (13 + ·) ↔
      13 ≤ pos ∧ pos < positions := by
  simp only [mem_map, mem_range, nindirect, positions]
  constructor
  · rintro ⟨index, small, rfl⟩
    omega
  · rintro ⟨low, high⟩
    exact ⟨pos - 13, by omega, by omega⟩

/-- `itrunc` frees all blocks of the inode. -/
theorem truncate_spec (tracked : Tracked store table inum dinode) (lenient : Lenient stops) :
    wp (truncate dinode) (fun result next => result = dinode.truncated ∧
        Truncated store next table inum dinode)
      stops store := by
  have direct : ∀ index ∈ List.range ndirect, index < 13 := fun index member =>
    (mem_range.mp member).trans (by decide)
  have holds : ∀ index ∈ List.range ndirect, owned store.sb store.blocks table (inum, index) =
        if dinode.addr index = 0 then none
        else some (dinode.addr index).toNat := by
    intro index member
    have inside := direct index member
    rw [tracked.accounts (inside.trans (by decide)), reference, if_pos inside]
  unfold truncate
  refine wp_bind_of (truncDirect_spec tracked.valid tracked.balanced
    nodup_range direct holds lenient) ?_
  rintro _ first ⟨rfl, bitmap, accounted⟩
  have kept : (clearAddrs dinode (List.range ndirect)).addr ndirect = dinode.addr 12 := by
    rw [addr_clearAddrs dinode direct (by decide), if_neg (by simp)]
  rw [kept, wp_ite]
  refine ⟨fun present => ?_, fun absent => ?_⟩
  · have indirect := tracked.owned_indirect present
    have same : first.blocks (dinode.addr 12).toNat = store.blocks (dinode.addr 12).toNat := by
      by_contra changed
      exact absurd (tracked.balanced.data indirect).1 (not_le.mpr (bitmap.blocks _ changed).2)
    have entries : ∀ index ∈ List.range nindirect,
        without (owned store.sb store.blocks table) inum (List.range ndirect) (inum, 13 + index) =
          if (first.blocks (dinode.addr 12).toNat).word index = 0 then none
          else some ((first.blocks (dinode.addr 12).toNat).word index).toNat := by
      intro index member
      have inside : 13 + index < positions := by
        simp only [mem_range, nindirect, positions] at member ⊢
        omega
      have beyond : ¬(inum = inum ∧ 13 + index ∈ List.range ndirect) := by
        simp only [mem_range, ndirect]
        omega
      rw [without, if_neg beyond, tracked.accounts inside, reference_entry present, same]
    have valid' : first.sb.Valid := by
      rw [bitmap.kept.sb]
      exact tracked.valid
    rw [wp_bind, wp_get]
    refine wp_bind_of (truncIndirect_spec valid' accounted nodup_range entries lenient) ?_
    rintro _ second ⟨bitmap', accounted'⟩
    have held : without (without (owned store.sb store.blocks table) inum
        (List.range ndirect)) inum ((List.range nindirect).map (13 + ·))
        (inum, 12) = some (dinode.addr 12).toNat := by
      rw [without, if_neg (by simp [mem_entryPositions]), without, if_neg (by simp), indirect]
    have valid : second.sb.Valid := by
      rw [bitmap'.kept.sb, bitmap.kept.sb]
      exact tracked.valid
    refine wp_bind_of (bfree_owned_spec valid accounted' held lenient) ?_
    rintro _ third ⟨bitmap'', accounted''⟩
    rw [wp_pure]
    refine ⟨Dinode.truncated_eq ?_ ?_, .of_accounts tracked
      (bitmap.trans (bitmap'.trans bitmap'')) accounted'' ?_ ?_⟩
    · rw [clearAddrs_fields]
      rfl
    · intro index inside
      rw [Dinode.addr_setAddr _ _ (by decide) inside]
      split
      case isTrue => rfl
      case isFalse early =>
        rw [addr_clearAddrs dinode direct inside, if_pos]
        simp only [mem_range, ndirect] at early ⊢
        omega
    · intro pos
      by_cases last : pos = 12
      · rw [last, update_self]
      · rw [update_of_ne (by simp [last]), without]
        split
        case isTrue => rfl
        case isFalse outside =>
          rw [without]
          split
          case isTrue => rfl
          case isFalse far =>
            refine owned_beyond ?_
            simp only [mem_entryPositions, mem_range, true_and, ndirect] at outside far
            omega
    · intro other pos apart
      rw [update_of_ne (by simp [apart]), without, if_neg fun both => apart both.1, without,
        if_neg fun both => apart both.1]
  · have absent := not_not.mp absent
    rw [wp_pure]
    refine ⟨Dinode.truncated_eq (clearAddrs_fields ..) ?_,
      .of_accounts tracked bitmap accounted ?_ ?_⟩
    · intro index inside
      rw [addr_clearAddrs dinode direct inside]
      split
      case isTrue => rfl
      case isFalse outside =>
        have last : index = 12 := by
          simp only [mem_range, ndirect] at outside
          omega
        rw [last, absent]
    · intro pos
      rw [without]
      split
      case isTrue => rfl
      case isFalse outside =>
        by_cases within : pos < positions
        · have far : ¬ pos < 12 := by simpa using outside
          rw [tracked.accounts within, if_pos]
          rw [reference, if_pos absent]
          split
          · rw [(by omega : pos = 12), absent]
          · rfl
        · exact owned_beyond (not_lt.mp within)
    · intro other pos apart
      rw [without, if_neg fun both => apart both.1]

end Xv6.Fs
