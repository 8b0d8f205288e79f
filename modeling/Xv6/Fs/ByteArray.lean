import Xv6.Fs.Room
import Xv6.Fs.SharedFile

/-!
# Files as byte arrays

`readi` and `writei` on a file that is not a device, as operations on the list
of its bytes.
-/

namespace Xv6.Fs

open List Foundation.Program

/-! ## Lists of bytes -/

/-- A list with bytes placed at an offset, extended if necessary. -/
def overwrite (old : List Byte) (off : Nat) (src : List Byte) : List Byte :=
  old.take off ++ src ++ old.drop (off + src.length)

theorem getElem?_overwrite
    {old src : List Byte} {off : Nat} (start : off ≤ old.length) (index : Nat) :
    (overwrite old off src)[index]? =
      if off ≤ index ∧ index < off + src.length then src[index - off]?
      else old[index]? := by
  have front : (old.take off).length = off := by
    rw [length_take]
    omega
  unfold overwrite
  rw [append_assoc]
  by_cases early : index < off
  · rw [if_neg (by omega), getElem?_append_left (by omega), getElem?_take_of_lt early]
  · rw [getElem?_append_right (by omega), front]
    by_cases within : index < off + src.length
    · rw [if_pos ⟨by omega, within⟩, getElem?_append_left (by omega)]
    · rw [if_neg (by omega), getElem?_append_right (by omega), getElem?_drop]
      congr 1
      omega

/-- The bytes of a file. -/
def Store.bytes (store : Store) (inum : Nat) : List Byte :=
  fileBytes (contents store.blocks (store.dinode inum)) 0 (store.dinode inum).size.toNat

theorem getElem?_fileBytes (blocks : Nat → Option Block) (n index : Nat) :
    (fileBytes blocks 0 n)[index]? =
      if index < n then some (fileByte blocks index) else none := by
  split
  case isTrue within =>
    have inside : index < (fileBytes blocks 0 n).length := by
      rw [length_fileBytes]
      exact within
    rw [getElem?_eq_getElem inside, getElem_fileBytes, Nat.zero_add]
  case isFalse beyond =>
    rw [getElem?_eq_none]
    rw [length_fileBytes]
    omega

theorem fileBytes_eq_take_drop (blocks : Nat → Option Block) (off n size : Nat) :
    fileBytes blocks off (min n (size - off)) = ((fileBytes blocks 0 size).drop off).take n := by
  apply ext_getElem
  · simp only [length_fileBytes, length_take, length_drop]
  · intro index inside within
    rw [getElem_fileBytes, getElem_take, getElem_drop, getElem_fileBytes]
    congr 1
    omega

section Array

variable {os : Kernel} {ip : Slot} {off : Nat} {src : List Byte}

theorem Open.bytes (opened : Open os ip) (cached : Cached os) :
    os.store.bytes (os.inum ip) =
      fileBytes (contents os.store.blocks (os.icache ip).dinode) 0
        (os.icache ip).dinode.size.toNat := by
  unfold Store.bytes
  rw [opened.copy cached]

theorem Wrote.bytes_eq {store next : Store} {inum : Nat} {dinode : Dinode}
    (inside : inum < store.sb.ninodes) (start : off ≤ (store.dinode inum).size.toNat)
    (wrote : Wrote store next inum (store.dinode inum) dinode off src) :
    next.bytes inum = overwrite (store.bytes inum) off src := by
  have entry : next.dinode inum = dinode := by
    rw [wrote.rewritten.table inum inside, Function.update_self]
  have long : (store.bytes inum).length = (store.dinode inum).size.toNat := length_fileBytes ..
  apply ext_getElem?
  intro index
  rw [getElem?_overwrite (by rw [long]; exact start)]
  unfold Store.bytes
  rw [entry, getElem?_fileBytes, getElem?_fileBytes, wrote.size, wrote.bytes index]
  by_cases written : off ≤ index ∧ index < off + src.length
  · rw [if_pos (by omega), if_pos written, if_pos written,
      getD_eq_getElem?_getD, getElem?_eq_getElem (by omega)]
    rfl
  · rw [if_neg written, if_neg written]
    by_cases within : index < (store.dinode inum).size.toNat
    · rw [if_pos (by omega), if_pos within]
    · rw [if_neg (by omega), if_neg within]

theorem Wrote.bytes_of_ne {store next : Store} {inum other : Nat} {dinode dinode' : Dinode}
    (wrote : Wrote store next inum dinode dinode' off src)
    (apart : other ≠ inum) (inside : other < store.sb.ninodes)
    (allocated : (store.dinode other).type ≠ 0) : next.bytes other = store.bytes other := by
  have entry : next.dinode other = store.dinode other := by
    rw [wrote.rewritten.table other inside, Function.update_of_ne apart]
  unfold Store.bytes
  rw [entry, wrote.rewritten.files other apart inside allocated]

/-- `writei` returns when there is room for its blocks. -/
theorem writei_ample (sound : Sound os.store) (cached : Cached os)
    (opened : Open os ip) (notDevice : (os.icache ip).dinode.type ≠ tDev)
    (ample : Ample os.store (os.icache ip).dinode
      (writtenPositions os.store.blocks (os.icache ip).dinode off src.length)) :
    wp (writei ip src off) (fun _ _ => True) Never os := by
  have inside := opened.inside cached
  have copy := opened.copy cached
  have allocated := opened.allocated cached
  have tracked := sound.tracked inside (by rw [← copy]; exact allocated)
  rw [← copy] at tracked
  unfold writei
  rw [wp_bind, wp_getInode, if_neg notDevice]
  simp only [wp_ite, wp_pure]
  refine ⟨fun _ => trivial, fun bounded => ⟨fun _ => trivial, fun fits => ?_⟩⟩
  rw [not_lt] at fits
  rw [wp_bind, wp_onStore]
  refine wp_mono (writeiLoop_provided tracked fits ample.provided fun bn touched => ?_) ?_ fun _ => id
  · have below : bn < maxfile := by
      have high := touched.2.2
      simp only [bsize, maxfile, ndirect, nindirect] at fits high ⊢
      omega
    exact Finset.mem_union_left _ (Finset.mem_image_of_mem _
      (Finset.mem_filter.mpr ⟨Finset.mem_range.mpr below, touched⟩))
  intro dinode store left
  rw [wp_bind, wp_modifyDinode]
  dsimp only
  rw [wp_ite]
  refine ⟨fun _ => ?_, fun _ => trivial⟩
  unfold iupdate writeDinode
  simp only [wp_bind, wp_modifyDinode, wp_getInode, wp_onStore, wp_pure, wp_get]
  exact wp_mono (logWrite_room _ _ left.room) (fun _ _ _ => trivial)
    fun _ => id

/-- A file that is not a device is the list of its bytes.  `readi` returns the
bytes of the range that are there, or -1 if the range starts behind the end or
its end overflows, and changes nothing.  `writei` does nothing and returns -1 in
those cases and if the range does not fit into a file; otherwise, with room for
the blocks in the log and on the disk, it returns the number of its bytes and
places them in the list, and the lists of the other files stay as they are. -/
theorem readi_writei_bytes (sound : Sound os.store) (cached : Cached os)
    (opened : Open os ip) (notDevice : (os.icache ip).dinode.type ≠ tDev) :
    (∀ off n, off < 2 ^ 32 → n < 2 ^ 32 → readi ip off n os =
        if (os.store.bytes (os.inum ip)).length < off ∨
            2 ^ 32 ≤ off + n then .ok (none, os)
        else .ok (some (((os.store.bytes (os.inum ip)).drop off).take n), os)) ∧
      ∀ off src, off < 2 ^ 32 → src.length < 2 ^ 32 →
        ((os.store.bytes (os.inum ip)).length < off ∨ 2 ^ 32 ≤ off + src.length ∨
            maxfile * bsize < off + src.length →
          writei ip src off os = .ok (-1, os)) ∧
        (¬ ((os.store.bytes (os.inum ip)).length < off ∨ 2 ^ 32 ≤ off + src.length ∨
            maxfile * bsize < off + src.length) →
          Ample os.store (os.icache ip).dinode
              (writtenPositions os.store.blocks (os.icache ip).dinode off src.length) →
            ∃ next, writei ip src off os = .ok (src.length, next) ∧
              next.store.bytes (os.inum ip) =
                overwrite (os.store.bytes (os.inum ip)) off src ∧
              ∀ other, other ≠ os.inum ip → other < os.store.sb.ninodes →
                (os.store.dinode other).type ≠ 0 →
                next.store.bytes other = os.store.bytes other) := by
  have long : (os.store.bytes (os.inum ip)).length =
      (os.icache ip).dinode.size.toNat := by
    rw [opened.bytes cached, length_fileBytes]
  rw [long]
  constructor
  · intro off n small few
    split
    case isTrue out =>
      have outside : (os.icache ip).dinode.size.toNat < off ∨
          (off + n) % 2 ^ 32 < off := by omega
      have fails : wp (readi ip off n)
          (fun result next => result = none ∧ next = os) Never os := by
        unfold readi
        rw [wp_bind, wp_getInode, if_neg notDevice, wp_ite]
        exact ⟨fun _ => ⟨rfl, rfl⟩, fun inside => absurd outside inside⟩
      obtain ⟨result, next, returned, failed, same⟩ := ok_of_wp fails fun _ => id
      rw [returned, failed, same]
    case isFalse within =>
      have start : off ≤ (os.icache ip).dinode.size.toNat := by omega
      have shaped := opened.shaped cached sound notDevice
      rw [readi_eq notDevice start (by omega) (shaped.covered (by omega)), opened.bytes cached,
        fileBytes_eq_take_drop]
  · intro off src small few
    refine ⟨fun out => ?_, fun within ample => ?_⟩
    · have fails : wp (writei ip src off)
          (fun result next => result = -1 ∧ next = os) Never os := by
        unfold writei
        rw [wp_bind, wp_getInode, if_neg notDevice]
        simp only [wp_ite, wp_pure]
        refine ⟨fun _ => ⟨trivial, trivial⟩, fun inside =>
          ⟨fun _ => ⟨trivial, trivial⟩, fun fits => ?_⟩⟩
        omega
      obtain ⟨result, next, returned, failed, same⟩ := ok_of_wp fails fun _ => id
      rw [returned, failed, same]
    · obtain ⟨result, next, returned, -, outcome⟩ := ok_of_wp
        (wp_and_returns (writei_ample sound cached opened notDevice ample)
          (writei_spec sound cached opened notDevice lenient_true))
        fun _ => id
      rcases outcome with ⟨out, -⟩ | ⟨start, -, rfl, store, dinode, wrote, rfl⟩
      · omega
      · rw [opened.copy cached] at wrote start
        refine ⟨_, returned, wrote.bytes_eq (opened.inside cached) start, ?_⟩
        intro other apart inside allocated
        exact wrote.bytes_of_ne apart inside allocated

end Array

/-! ## A disk with room for a large file -/

/-- A disk with an empty file and 49 free blocks, in a transaction that has
logged nothing yet. -/
def largeStore : Store :=
  { smallStore [.zero, smallDinode tDir 48 34, smallDinode tFile 0 0]
      [direntBlock [linkEntry dot rootino, linkEntry dotdot rootino, linkEntry [0x61] 2]] with
    sb := { smallSuperblock with size := 84, nblocks := 50 }
    outstanding := 1 }

/-- The empty file is in the cache. -/
def largeKernel : Kernel :=
  (boot largeStore fun _ => none).setInode 1
    { Inode.unused with
      dev := rootdev
      inum := 2
      ref := 1
      valid := true
      dinode := largeStore.dinode 2 }

theorem checked_largeStore : Checked largeStore ∧ WholeEntries largeStore := by
  decide +kernel

theorem sound_largeStore : Sound largeStore :=
  sound_iff.mpr ⟨checked_largeStore.1.wellFormed, checked_largeStore.2⟩

theorem cached_largeKernel : Cached largeKernel := by
  refine (boot_cached sound_largeStore.valid).setInode (by decide) (fun _ => ?_)
    fun _ _ => ⟨rfl, by decide +kernel⟩
  refine ⟨rfl, by decide, fun jp _ held => ?_⟩
  rw [boot_held held]
  decide

theorem open_largeKernel : Open largeKernel 1 :=
  ⟨by decide, rfl⟩

/-- 26 new blocks, the indirect block and the bitmap leave one place in the log,
which the inode takes. -/
theorem readi_writei_bytes_large :
    ∃ next, writei 1 (replicate 13312 0x61) 0 largeKernel = .ok (13312, next) ∧
      next.store.bytes 2 = replicate 13312 0x61 := by
  have file : (largeKernel.icache 1).dinode.type ≠ tDev := by
    decide +kernel
  have sound : Sound largeKernel.store := sound_largeStore
  obtain ⟨-, writes⟩ := @readi_writei_bytes largeKernel 1 sound
    cached_largeKernel open_largeKernel file
  have empty : largeKernel.store.bytes (largeKernel.inum 1) = [] := by
    decide +kernel
  have ample : Ample largeKernel.store (largeKernel.icache 1).dinode
      (writtenPositions largeKernel.store.blocks (largeKernel.icache 1).dinode 0 13312) :=
    ⟨⟨by decide +kernel, by decide +kernel, by decide⟩, by decide +kernel⟩
  have bytes := writes 0 (replicate 13312 0x61)
  rw [empty, length_replicate] at bytes
  obtain ⟨next, returned, list, -⟩ := (bytes (by decide) (by decide)).2 (by decide) ample
  refine ⟨next, returned, ?_⟩
  rw [show largeKernel.inum 1 = 2 from rfl] at list
  rw [list, overwrite, take_nil, drop_nil, nil_append, append_nil]

/-- A write of 27 blocks to the same file, with enough free blocks, panics: with
the bitmap and the indirect block they fill the log, and the inode's block is
still to be logged. -/
theorem writei_tooBig : Sound largeKernel.store ∧ Cached largeKernel ∧ Open largeKernel 1 ∧
      (largeKernel.icache 1).dinode.type = tFile ∧
      largeKernel.store.logged = [] ∧ largeKernel.store.outstanding = 1 ∧
      28 ≤ largeKernel.store.freeBlocks.card ∧ 0 + 13824 ≤ maxfile * bsize ∧
      writei 1 (replicate 13824 0) 0 largeKernel =
        .error (.panic "too big a transaction") := by
  refine ⟨sound_largeStore, cached_largeKernel, open_largeKernel,
    by decide +kernel, rfl, rfl, by decide +kernel, by decide, ?_⟩
  have seen : (match writei 1 (replicate 13824 0) 0 largeKernel with
      | .ok _ => none
      | .error stop => some stop) = some (.panic "too big a transaction") := by
    decide +kernel
  split at seen
  case h_1 => cases seen
  case h_2 stop stopped => rw [stopped, Option.some.inj seen]

end Xv6.Fs
