import Xv6.Fs.Mapping
import Mathlib.Data.List.GetD

/-!
# Reading and writing the contents of a file

The loops of `readi` and `writei` on the bytes of a file.  A read of blocks that
are there changes nothing.  A write stores its bytes, allocates the blocks it
needs, and leaves the other bytes and the other files alone.
-/

namespace Xv6.Fs

open List Function Foundation.BitField Foundation.Program Foundation.Ownership

/-- The byte at an offset of a file whose blocks are given. -/
def fileByte (blocks : Nat → Option Block) (offset : Nat) : Byte :=
  ((blocks (offset / bsize)).getD 0).byte (offset % bsize)

/-- The bytes of a file in a range of offsets. -/
def fileBytes (blocks : Nat → Option Block) (off n : Nat) : List Byte :=
  (List.range' off n).map (fileByte blocks)

variable {dinode : Dinode}

section Read

variable {store : Store} {bn : Nat}

theorem bmap_present (present : contents store.blocks dinode bn ≠ none) :
    bmap dinode bn store =
      .ok ((reference store.blocks dinode (dataPosition bn), dinode), store) := by
  have mapped := reference_ne_of_contents present
  have inside : bn < maxfile := by
    by_contra far
    exact present (by rw [contents, if_neg fun both => far both.1])
  unfold bmap
  by_cases direct : bn < ndirect
  · have here : reference store.blocks dinode (dataPosition bn) = dinode.addr bn := by
      rw [dataPosition, if_pos direct, reference, if_pos (Nat.lt_succ_of_lt direct)]
    rw [here] at mapped ⊢
    rw [if_pos direct, mapDirect, if_neg mapped]
    rfl
  · have near : bn - ndirect < nindirect := by
      simp only [maxfile] at inside
      omega
    have place : dataPosition bn = 13 + (bn - ndirect) := by
      rw [dataPosition, if_neg direct]
      simp only [ndirect] at direct ⊢
      omega
    have held : dinode.addr 12 ≠ 0 := by
      intro absent
      apply mapped
      rw [place, reference, if_neg (by omega), if_pos absent]
    have here : reference store.blocks dinode (dataPosition bn) =
        (store.blocks (dinode.addr 12).toNat).word (bn - ndirect) := by
      rw [place, reference_entry held]
    rw [here] at mapped ⊢
    rw [if_neg direct, if_pos near, mapDirect, if_neg held]
    change ((if (store.blocks (dinode.addr 12).toNat).word (bn - ndirect) = 0
      then _ else pure _) >>= fun address => pure (address, dinode) : StoreM _) store = _
    rw [if_neg mapped]
    rfl

theorem contents_present {blocks : Nat → Block} (present : contents blocks dinode bn ≠ none) :
    contents blocks dinode bn =
      some (blocks (reference blocks dinode (dataPosition bn)).toNat) := by
  by_cases mapped : bn < maxfile ∧ reference blocks dinode (dataPosition bn) ≠ 0
  · rw [contents, if_pos mapped]
  · exact absurd (by rw [contents, if_neg mapped]) present

variable {blocks : Nat → Option Block}

theorem fileByte_of_block {block : Block}
    (present : blocks bn = some block) {index : Nat} (within : index < bsize) :
    fileByte blocks (bsize * bn + index) = block.byte index := by
  have quotient : (bsize * bn + index) / bsize = bn := by
    rw [Nat.mul_add_div (by decide), Nat.div_eq_of_lt within, Nat.add_zero]
  have remainder : (bsize * bn + index) % bsize = index := by
    rw [Nat.mul_add_mod, Nat.mod_eq_of_lt within]
  rw [fileByte, quotient, remainder, present]
  rfl

theorem bytes_eq_fileBytes {block : Block}
    (present : blocks bn = some block) {offset count : Nat} (within : offset + count ≤ bsize) :
    block.bytes offset count = fileBytes blocks (bsize * bn + offset) count := by
  unfold Block.bytes fileBytes
  apply ext_getElem
  · simp
  · intro index inside _
    simp only [length_map, length_range'] at inside
    simp only [getElem_map, getElem_range', one_mul]
    rw [Nat.add_assoc, fileByte_of_block present (by omega)]

theorem fileBytes_append (blocks : Nat → Option Block) (off first second : Nat) :
    fileBytes blocks off first ++ fileBytes blocks (off + first) second =
      fileBytes blocks off (first + second) := by
  unfold fileBytes
  rw [← map_append]
  congr 1
  rw [← List.range'_append, one_mul]

theorem getElem_fileBytes (blocks : Nat → Option Block) (off n : Nat)
    {index : Nat} (inside : index < (fileBytes blocks off n).length) :
    (fileBytes blocks off n)[index] = fileByte blocks (off + index) := by
  simp only [fileBytes, getElem_map, getElem_range', one_mul]

@[simp] theorem length_fileBytes (blocks : Nat → Option Block) (off n : Nat) :
    (fileBytes blocks off n).length = n := by
  simp [fileBytes]

/-- A range of offsets has bytes in a block. -/
def Touches (off n bn : Nat) : Prop :=
  0 < n ∧ off / bsize ≤ bn ∧ bsize * bn < off + n

instance (off n bn : Nat) : Decidable (Touches off n bn) :=
  inferInstanceAs (Decidable (_ ∧ _))

/-- A range of offsets lies in blocks that are there. -/
def Covered (blocks : Nat → Option Block) (off n : Nat) : Prop :=
  ∀ bn, Touches off n bn → blocks bn ≠ none

theorem Covered.first {off n : Nat}
    (covered : Covered blocks off n) (positive : 0 < n) : blocks (off / bsize) ≠ none :=
  covered (off / bsize) ⟨positive, le_refl _, lt_of_le_of_lt (Nat.mul_div_le off bsize) (by omega)⟩

/-- The part of a range after its first bytes. -/
theorem Covered.drop {off n first : Nat} (covered : Covered blocks off n) (part : first ≤ n) :
    Covered blocks (off + first) (n - first) := by
  rintro bn ⟨positive, low, high⟩
  refine covered bn ⟨by omega, le_trans ?_ low, by omega⟩
  exact Nat.div_le_div_right (by omega)

/-- The loop of `readi` on blocks that are there returns their bytes and
changes nothing. -/
theorem readiLoop_eq {fuel off left : Nat} (enough : left ≤ fuel)
    (covered : Covered (contents store.blocks dinode) off left) :
    readiLoop fuel dinode off left store =
      .ok ((fileBytes (contents store.blocks dinode) off left, dinode), store) := by
  induction fuel generalizing off left with
  | zero =>
    obtain rfl : left = 0 := by omega
    rfl
  | succ fuel ih =>
    rw [readiLoop]
    by_cases done : left = 0
    · subst done
      rfl
    · rw [if_neg done]
      have remainder : off % bsize < bsize := Nat.mod_lt _ (by decide)
      have present := covered.first (by omega)
      have split : min left (bsize - off % bsize) ≤ left := min_le_left ..
      have within : off % bsize + min left (bsize - off % bsize) ≤ bsize := by
        omega
      have rest := ih (show left - min left (bsize - off % bsize) ≤ fuel by omega)
        (covered.drop split)
      have bytes := bytes_eq_fileBytes (contents_present present) within
      rw [Nat.div_add_mod] at bytes
      have whole := fileBytes_append (contents store.blocks dinode) off
        (min left (bsize - off % bsize))
        (left - min left (bsize - off % bsize))
      rw [Nat.add_sub_cancel' split, ← bytes] at whole
      rw [← whole, bind_of_ok (bmap_present present)]
      change (readiLoop fuel dinode _ _ >>= fun result =>
        pure (_ ++ result.1, result.2) : StoreM _) store = _
      rw [bind_of_ok rest]
      rfl

end Read

section Write

variable {store next : Store} {table : Nat → Dinode} {inum : Nat} {stops : Stop → Prop}

theorem Tracked.write_data (tracked : Tracked store table inum dinode) {bn : Nat} {block : Block}
    (present : contents store.blocks dinode bn ≠ none) (kept : Kept store next)
    (blocks : next.blocks = update store.blocks
      (reference store.blocks dinode (dataPosition bn)).toNat block) :
    OthersKept store next table inum ∧ Tracked next table inum dinode ∧
      contents next.blocks dinode = update (contents store.blocks dinode) bn (some block) := by
  have valid := tracked.valid
  have balanced := tracked.balanced
  have inside : bn < maxfile := by
    by_contra far
    exact present (by rw [contents, if_neg fun both => far both.1])
  have holds := tracked.owned (dataPosition_lt inside) (reference_ne_of_contents present)
  obtain ⟨data, small⟩ := balanced.data holds
  have beyond : store.sb.bmapstart < (reference store.blocks dinode (dataPosition bn)).toNat := by
    have bitmap := valid.bitmap _ small
    have low := store.sb.bblock_ge (reference store.blocks dinode (dataPosition bn)).toNat
    unfold Superblock.dataStart at data
    omega
  have others : OthersKept store next table inum := by
    refine .of_blocks valid kept fun number changed => ?_
    have here : number = (reference store.blocks dinode (dataPosition bn)).toNat := by
      by_contra elsewhere
      exact changed (by rw [blocks, update_of_ne elsewhere])
    subst here
    exact ⟨beyond.le, fun other pos apart owns =>
      apart (congrArg Prod.fst (balanced.injective owns holds))⟩
  have references : ∀ pos, reference next.blocks dinode pos =
      reference store.blocks dinode pos := by
    refine reference_congr fun held => ?_
    rw [blocks, update_of_ne]
    intro same
    have twice := (tracked.owned_indirect held).trans (congrArg some same)
    exact dataPosition_ne_indirect bn (congrArg Prod.snd (balanced.injective holds twice))
  refine ⟨others, ⟨by rwa [kept.sb], ?_, by rw [kept.sb]; exact tracked.inside,
    tracked.entry, tracked.allocated⟩, ?_⟩
  · refine Accounted.congr (by rw [kept.sb]; exact balanced) ?_ ?_
    · rintro ⟨other, pos⟩
      rw [kept.sb]
      refine owned_congr rfl fun live allocated _ => ?_
      by_cases same : other = inum
      · rw [same, tracked.entry, references]
      · exact others.references other same live allocated pos
    · intro number
      unfold Store.Used Store.bit
      rw [kept.sb, blocks]
      by_cases within : number < store.sb.size
      · have bitmap := valid.bitmap number within
        rw [update_of_ne]
        unfold Superblock.dataStart at data
        omega
      · simp [not_lt.mp within]
  · funext other
    unfold contents
    rw [references]
    by_cases same : other = bn
    · subst same
      rw [if_pos ⟨inside, reference_ne_of_contents present⟩, blocks, update_self, update_self]
    · rw [update_of_ne same]
      split
      case isTrue mapped =>
        rw [blocks, update_of_ne]
        intro equal
        have twice := (tracked.owned (dataPosition_lt mapped.1)
          mapped.2).trans (congrArg some equal)
        exact same (dataPosition_injective (congrArg Prod.snd (balanced.injective twice holds)))
      case isFalse => rfl

/-- Bytes have been written to a file. -/
structure Written (store next : Store) (table : Nat → Dinode) (inum : Nat)
    (dinode dinode' : Dinode) (off : Nat) (src : List Byte) : Prop where
  others : OthersKept store next table inum
  tracked : Tracked next (Function.update table inum dinode') inum dinode'
  fields : dinode' = { dinode with addrs := dinode'.addrs }
  bytes : ∀ offset, fileByte (contents next.blocks dinode') offset =
    if off ≤ offset ∧ offset < off + src.length then src.getD (offset - off) 0
    else fileByte (contents store.blocks dinode) offset
  blocks : ∀ bn, contents next.blocks dinode' bn ≠ none ↔
    contents store.blocks dinode bn ≠ none ∨ Touches off src.length bn
  /-- The indirect block is there only for blocks of data. -/
  indirect : dinode'.addr 12 ≠ 0 → dinode.addr 12 ≠ 0 ∨
    ∃ bn, 12 ≤ bn ∧ contents next.blocks dinode' bn ≠ none
  /-- Writing to blocks that are there does not change the inode. -/
  present : Covered (contents store.blocks dinode) off src.length → dinode' = dinode

/-- Bytes of a file after one of its blocks was replaced. -/
theorem fileByte_update (blocks : Nat → Option Block) (bn : Nat) (block : Block) (offset : Nat) :
    fileByte (update blocks bn (some block)) offset =
      if offset / bsize = bn then block.byte (offset % bsize)
      else fileByte blocks offset := by
  unfold fileByte
  by_cases here : offset / bsize = bn
  · rw [here, update_self, if_pos rfl]
    rfl
  · rw [update_of_ne here, if_neg here]

theorem fileByte_update_getD (blocks : Nat → Option Block) (bn offset : Nat) :
    fileByte (update blocks bn (some ((blocks bn).getD 0))) offset = fileByte blocks offset := by
  rw [fileByte_update]
  split
  case isTrue here => rw [fileByte, here]
  case isFalse => rfl

variable {off : Nat} {src : List Byte}

/-- Bytes of a file after bytes within one block were stored. -/
theorem fileByte_setBytes
    {blocks : Nat → Option Block} (within : off % bsize + src.length ≤ bsize) (offset : Nat) :
    fileByte (update blocks (off / bsize)
        (some (((blocks (off / bsize)).getD 0).setBytes (off % bsize) src)))
        offset =
      if off ≤ offset ∧ offset < off + src.length then
        src.getD (offset - off) 0
      else fileByte blocks offset := by
  have divide := Nat.div_add_mod off bsize
  have divideOffset := Nat.div_add_mod offset bsize
  have small : off % bsize < bsize := Nat.mod_lt _ (by decide)
  have smallOffset : offset % bsize < bsize := Nat.mod_lt _ (by decide)
  rw [fileByte_update]
  by_cases here : offset / bsize = off / bsize
  · rw [if_pos here, Block.byte_setBytes _ _ _ _ within]
    rw [here] at divideOffset
    by_cases range : off ≤ offset ∧ offset < off + src.length
    · rw [if_pos range, if_pos (by omega)]
      congr 1
      omega
    · rw [if_neg range, if_neg (by omega), fileByte, here]
  · rw [if_neg here, if_neg]
    rintro ⟨low, high⟩
    apply here
    have above : off / bsize ≤ offset / bsize := Nat.div_le_div_right low
    have below : offset / bsize < off / bsize + 1 := by
      rw [Nat.div_lt_iff_lt_mul (by decide)]
      simp only [bsize] at *
      omega
    omega

/-- Writing no bytes. -/
theorem Written.refl (tracked : Tracked store table inum dinode) (empty : src.length = 0) :
    Written store store table inum dinode dinode off src where
  others := .refl
  tracked := by
    rw [← tracked.entry, update_eq_self, tracked.entry]
    exact tracked
  fields := rfl
  bytes := by
    intro offset
    rw [if_neg (by omega)]
  blocks := by
    intro bn
    rw [or_iff_left]
    rintro ⟨positive, _⟩
    omega
  indirect := .inl
  present := fun _ => rfl

theorem Written.of_block {middle : Store} {grown : Dinode} {address : BitVec 32}
    (mapped : Mapped store middle table inum dinode grown (off / bsize) address)
    (positive : 0 < src.length) (within : off % bsize + src.length ≤ bsize)
    (kept : Kept middle next)
    (blocks : next.blocks = update middle.blocks address.toNat
      ((middle.blocks address.toNat).setBytes (off % bsize) src)) :
    Written store next table inum dinode grown off src := by
  have here : contents middle.blocks grown (off / bsize) =
      some ((contents store.blocks dinode (off / bsize)).getD 0) := by
    rw [mapped.data, update_self]
  have there : contents middle.blocks grown (off / bsize) ≠ none := by
    simp [here]
  have block := contents_present there
  rw [mapped.address] at block
  rw [← mapped.address] at blocks
  obtain ⟨others, tracked, after⟩ := mapped.tracked.write_data there kept blocks
  rw [mapped.address] at after
  have data : contents next.blocks grown = update (contents middle.blocks grown) (off / bsize)
        (some (((contents middle.blocks grown (off / bsize)).getD 0).setBytes
          (off % bsize) src)) := by
    rw [after, block]
    rfl
  have added : ∀ bn, contents next.blocks grown bn ≠ none ↔
      contents store.blocks dinode bn ≠ none ∨ bn = off / bsize := by
    intro bn
    rw [data, mapped.data]
    by_cases same : bn = off / bsize
    · rw [same, update_self]
      exact iff_of_true (Option.some_ne_none _) (.inr rfl)
    · rw [update_of_ne same, update_of_ne same]
      simp [same]
  have range : ∀ bn, Touches off src.length bn ↔ bn = off / bsize := by
    intro bn
    unfold Touches
    simp only [bsize] at within ⊢
    omega
  refine ⟨mapped.others.trans others, tracked, mapped.fields, ?_, ?_, ?_, ?_⟩
  · intro offset
    rw [data, fileByte_setBytes within, mapped.data, fileByte_update_getD]
  · intro bn
    rw [added, range]
  · intro held
    rcases mapped.indirect held with before | far
    · exact .inl before
    · exact .inr ⟨off / bsize, far, (added _).mpr (.inr rfl)⟩
  · exact fun covered => (mapped.present (covered.first positive)).2

/-- One write after another. -/
theorem Written.trans {middle : Store} {grown final : Dinode} {first second : List Byte}
    (one : Written store middle table inum dinode grown off first)
    (two : Written middle next (update table inum grown) inum grown
      final (off + first.length) second) :
    Written store next table inum dinode final off (first ++ second) where
  others := one.others.trans two.others
  tracked := by
    have tracked := two.tracked
    rwa [update_idem] at tracked
  fields := by rw [two.fields, one.fields]
  bytes := by
    intro offset
    rw [two.bytes, one.bytes, length_append]
    by_cases early : off ≤ offset ∧ offset < off + first.length
    · rw [if_neg (by omega), if_pos early, if_pos (by omega), getD_append _ _ _ _ (by omega)]
    · by_cases late : off + first.length ≤ offset ∧ offset < off + first.length + second.length
      · rw [if_pos late, if_pos (by omega), getD_append_right _ _ _ _ (by omega)]
        congr 1
        omega
      · rw [if_neg late, if_neg early, if_neg (by omega)]
  blocks := by
    intro bn
    rw [two.blocks, one.blocks, length_append, or_assoc]
    refine or_congr_right ?_
    unfold Touches
    simp only [bsize]
    omega
  indirect := by
    intro held
    rcases two.indirect held with before | found
    · rcases one.indirect before with initially | ⟨bn, far, present⟩
      · exact .inl initially
      · exact .inr ⟨bn, far, (two.blocks bn).mpr (.inl present)⟩
    · exact .inr found
  present := by
    intro covered
    have start : Covered (contents store.blocks dinode) off first.length := by
      rintro bn ⟨positive, low, high⟩
      exact covered bn ⟨by rw [length_append]; omega, low, by rw [length_append]; omega⟩
    have same := one.present start
    rw [two.present, same]
    rintro bn ⟨positive, low, high⟩
    rw [one.blocks]
    refine .inl (covered bn ⟨?_, ?_, ?_⟩)
    · rw [length_append]
      omega
    · exact le_trans (Nat.div_le_div_right (by omega)) low
    · rw [length_append]
      omega

theorem writeiLoop_spec {fuel : Nat} (tracked : Tracked store table inum dinode)
    (enough : src.length ≤ fuel) (fits : off + src.length ≤ maxfile * bsize)
    (lenient : Lenient stops) :
    wp (writeiLoop fuel dinode off src)
      (fun final next => Written store next table inum dinode final off src)
      stops store := by
  induction fuel generalizing store table dinode off src with
  | zero =>
    rw [writeiLoop, wp_pure]
    exact .refl tracked (by omega)
  | succ fuel ih =>
    rw [writeiLoop, wp_ite]
    refine ⟨fun empty => ?_, fun some => ?_⟩
    · rw [wp_pure]
      exact .refl tracked empty
    · have small : off % bsize < bsize := Nat.mod_lt _ (by decide)
      have inside : off / bsize < maxfile := by
        rw [Nat.div_lt_iff_lt_mul (by decide)]
        omega
      refine wp_bind_of (bmap_spec tracked (off / bsize) lenient (fun far => absurd inside far)) ?_
      rintro ⟨address, grown⟩ middle mapped
      rw [wp_bind, wp_get]
      refine wp_bind_of (logWrite_spec _ _ lenient) ?_
      rintro _ written ⟨kept, blocks⟩
      have length : (src.take (min src.length (bsize - off % bsize))).length =
          min src.length (bsize - off % bsize) := by
        rw [length_take]
        omega
      have one := Written.of_block mapped (by rw [length]; omega)
        (by rw [length]; omega) kept blocks
      refine wp_mono (ih one.tracked (by rw [length_drop]; omega)
        (by rw [length_drop]; omega)) ?_ fun _ => id
      intro final next two
      rw [← length] at two
      have both := one.trans two
      rwa [length, take_append_drop] at both

end Write

end Xv6.Fs
