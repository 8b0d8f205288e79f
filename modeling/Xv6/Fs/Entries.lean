import Xv6.Fs.CachedInode

/-!
# Directory entries

The entries of a directory as a list: looking a name up, finding an empty
entry, and storing entries.  Specifications of `dirlookup` and `dirlink` in
these terms.
-/

namespace Xv6.Fs

open List Foundation.Program
open Dirent (toBytes)

/-! ## Entries as bytes -/

theorem Dirent.ofBytes_toBytes (dirent : Dirent) : Dirent.ofBytes dirent.toBytes = dirent := by
  obtain ⟨inum, name⟩ := dirent
  have halves : inum.extractLsb' 8 8 ++ inum.extractLsb' 0 8 = inum := by
    ext pos inside
    rw [BitVec.getElem_append]
    split
    · rw [BitVec.getElem_extractLsb', Nat.zero_add, BitVec.getLsbD_eq_getElem inside]
    · rw [BitVec.getElem_extractLsb', show 8 + (pos - 8) = pos by omega,
        BitVec.getLsbD_eq_getElem inside]
  exact congrArg (Dirent.mk · name) halves

/-- The names of entries fill their field. -/
def Dirent.Padded (dirent : Dirent) : Prop :=
  dirent.name.length = dirsiz

theorem Dirent.Padded.length_toBytes {dirent : Dirent} (padded : dirent.Padded) :
    dirent.toBytes.length = direntSize := by
  unfold Dirent.Padded at padded
  simp only [toBytes, length_cons, padded, dirsiz, direntSize]

theorem length_flatMap_toBytes {new : List Dirent} (padded : ∀ dirent ∈ new, dirent.Padded) :
    (new.flatMap toBytes).length = direntSize * new.length := by
  induction new with
  | nil => rfl
  | cons dirent rest ih =>
    rw [flatMap_cons, length_append, (padded dirent (.head _)).length_toBytes,
      ih fun other member => padded other (.tail _ member),
      length_cons]
    ring

theorem getD_flatMap_toBytes {new : List Dirent} (padded : ∀ dirent ∈ new, dirent.Padded)
    {index byte : Nat} (inside : index < new.length) (small : byte < direntSize) :
    (new.flatMap toBytes).getD (direntSize * index + byte) 0 =
      new[index].toBytes.getD byte 0 := by
  induction new generalizing index with
  | nil => cases inside
  | cons dirent rest ih =>
    have length := (padded dirent (.head _)).length_toBytes
    rw [flatMap_cons]
    cases index with
    | zero =>
      rw [getD_append _ _ _ _ (by rw [length]; omega)]
      simp
    | succ index =>
      rw [getD_append_right _ _ _ _ (by
        rw [length]
        simp only [direntSize]
        omega), length]
      rw [show direntSize * (index + 1) + byte - direntSize =
        direntSize * index + byte by
          simp only [direntSize]
          omega]
      exact ih (fun other member => padded other (.tail _ member))
        (Nat.lt_of_succ_lt_succ inside)

/-- Entries stored from an index on, over the old ones and beyond the end. -/
def splice (entries : List Dirent) (index : Nat) (new : List Dirent) : List Dirent :=
  entries.take index ++ new ++ entries.drop (index + new.length)

section Stored

variable {before after : Nat → Option Block} {index : Nat} {new : List Dirent}

/-- An entry of a directory after entries were stored. -/
theorem direntAt_write (padded : ∀ dirent ∈ new, dirent.Padded)
    (bytes : ∀ offset, fileByte after offset =
      if direntSize * index ≤ offset ∧ offset < direntSize * index +
          (new.flatMap toBytes).length then
        (new.flatMap toBytes).getD (offset - direntSize * index) 0
      else fileByte before offset)
    (pos : Nat) :
    direntAt after pos =
      if index ≤ pos ∧ pos < index + new.length then
        new.getD (pos - index) ⟨0, []⟩
      else direntAt before pos := by
  rw [length_flatMap_toBytes padded] at bytes
  unfold direntAt
  split
  case isTrue within =>
    obtain ⟨low, high⟩ := within
    have small : pos - index < new.length := by omega
    rw [getD_eq_getElem _ _ small]
    have length := (padded _ (getElem_mem small)).length_toBytes
    have same : fileBytes after (direntSize * pos) direntSize =
        new[pos - index].toBytes := by
      refine ext_getElem (by rw [length_fileBytes, length]) ?_
      intro byte inside insideNew
      rw [getElem_fileBytes]
      rw [length_fileBytes] at inside
      rw [bytes, if_pos (by
        simp only [direntSize] at inside ⊢
        constructor
        · omega
        · omega),
        show direntSize * pos + byte - direntSize * index =
          direntSize * (pos - index) + byte by
            simp only [direntSize]
            omega,
        getD_flatMap_toBytes padded small inside,
        getD_eq_getElem _ _ insideNew]
    rw [same, Dirent.ofBytes_toBytes]
  case isFalse outside =>
    congr 1
    unfold fileBytes
    refine map_congr_left fun offset member => ?_
    rw [mem_range'_1] at member
    rw [bytes, if_neg]
    simp only [direntSize] at member ⊢
    omega

/-- The entries of a directory after entries were stored. -/
theorem dirents_write {size size' : Nat} (padded : ∀ dirent ∈ new, dirent.Padded)
    (bytes : ∀ offset, fileByte after offset =
      if direntSize * index ≤ offset ∧ offset < direntSize * index +
          (new.flatMap toBytes).length then
        (new.flatMap toBytes).getD (offset - direntSize * index) 0
      else fileByte before offset)
    (start : direntSize * index ≤ size)
    (grown : size' = max size (direntSize * index + (new.flatMap toBytes).length)) :
    dirents after size' = splice (dirents before size) index new := by
  have at_index := direntAt_write padded bytes
  rw [length_flatMap_toBytes padded] at grown
  have first : index ≤ size / direntSize := by
    simp only [direntSize] at start ⊢
    omega
  refine ext_getElem ?_ fun pos inside insideSplice => ?_
  · simp only [dirents, splice, length_map, length_range,
      length_append, length_take, length_drop, grown, direntSize]
      at first ⊢
    omega
  · simp only [dirents, length_map, length_range] at inside
    simp only [dirents, getElem_map, getElem_range, at_index pos]
    unfold splice
    by_cases early : pos < index
    · rw [if_neg (by omega), getElem_append_left (by
        simp only [length_append, length_take, length_map, length_range]
        omega), getElem_append_left (by
        simp only [length_take, length_map, length_range]
        omega), getElem_take, getElem_map, getElem_range]
    · by_cases late : pos < index + new.length
      · rw [if_pos ⟨not_lt.mp early, late⟩, getElem_append_left (by
          simp only [length_append, length_take, length_map, length_range]
          omega), getElem_append_right (by
          simp only [length_take, length_map, length_range]
          omega)]
        simp only [length_take, length_map, length_range, min_eq_left first]
        rw [getD_eq_getElem _ _ (by omega)]
      · rw [if_neg (by omega), getElem_append_right (by
          simp only [length_append, length_take, length_map, length_range]
          omega)]
        simp only [getElem_drop, getElem_map, getElem_range, length_append, length_take, length_map,
          length_range, min_eq_left first]
        congr 1
        omega

end Stored

/-! ## Looking a name up -/

/-- The entry is in use and has the name. -/
def Dirent.Named (dirent : Dirent) (name : List Byte) : Prop :=
  dirent.inum ≠ 0 ∧ namecmp name dirent.name = 0

instance (dirent : Dirent) (name : List Byte) : Decidable (dirent.Named name) :=
  inferInstanceAs (Decidable (_ ∧ _))

/-- The inode number and index of the first entry with a name, where the first
entry of the list has the given index. -/
def lookupFrom (name : List Byte) : Nat → List Dirent → Option (Nat × Nat)
  | _, [] => none
  | index, dirent :: rest =>
    if dirent.Named name then some (dirent.inum.toNat, index)
    else lookupFrom name (index + 1) rest

/-- The inode number and index of the first entry with a name. -/
def lookup (entries : List Dirent) (name : List Byte) : Option (Nat × Nat) :=
  lookupFrom name 0 entries

variable {name : List Byte}

section Lookup

variable {entries : List Dirent}

theorem lookupFrom_eq_some {start inum index : Nat}
    (found : lookupFrom name start entries = some (inum, index)) :
    start ≤ index ∧ ∃ dirent, entries[index - start]? = some dirent ∧
      dirent.Named name ∧ dirent.inum.toNat = inum := by
  induction entries generalizing start with
  | nil => cases found
  | cons dirent rest ih =>
    unfold lookupFrom at found
    split at found
    case isTrue named =>
      cases found
      exact ⟨le_refl _, dirent, by simp, named, rfl⟩
    case isFalse =>
      obtain ⟨late, other, there, named, same⟩ := ih found
      refine ⟨by omega, other, ?_, named, same⟩
      rw [show index - start = (index - (start + 1)) + 1 by omega, getElem?_cons_succ, there]

theorem lookup_eq_some {inum index : Nat} (found : lookup entries name = some (inum, index)) :
    ∃ dirent, entries[index]? = some dirent ∧ dirent.Named name ∧ dirent.inum.toNat = inum :=
  (lookupFrom_eq_some found).2

theorem lookupFrom_eq_none {start : Nat} : lookupFrom name start entries = none ↔
      ∀ dirent ∈ entries, ¬ dirent.Named name := by
  induction entries generalizing start with
  | nil => simp [lookupFrom]
  | cons dirent rest ih =>
    unfold lookupFrom
    split
    case isTrue named => simp [named]
    case isFalse apart => simp [ih, apart]

theorem lookup_eq_none : lookup entries name = none ↔ ∀ dirent ∈ entries, ¬ dirent.Named name :=
  lookupFrom_eq_none

/-- The index of the first empty entry, or the number of entries. -/
def emptyIndex (entries : List Dirent) : Nat :=
  entries.findIdx fun dirent => decide (dirent.inum = 0)

end Lookup

section Loops

variable {os : Kernel} {dp : Slot}

theorem readDirent_eq {index : Nat} {message : String}
    (notDevice : (os.icache dp).dinode.type ≠ tDev)
    (inside : direntSize * index + direntSize ≤ (os.icache dp).dinode.size.toNat)
    (covered : Covered (contents os.store.blocks (os.icache dp).dinode)
      (direntSize * index) direntSize) :
    readDirent dp (direntSize * index) message os =
      .ok (direntAt (contents os.store.blocks (os.icache dp).dinode) index, os) := by
  have small := (os.icache dp).dinode.size.isLt
  have amount : min direntSize ((os.icache dp).dinode.size.toNat - direntSize * index) =
      direntSize := by
    omega
  unfold readDirent
  have read := readi_eq notDevice
    (by omega : direntSize * index ≤ (os.icache dp).dinode.size.toNat)
    (by omega : direntSize * index + direntSize < 2 ^ 32)
    (by rw [amount]; exact covered)
  rw [bind_of_ok read, amount]
  simp only [length_fileBytes, ne_eq, not_true_eq_false, if_false]
  rfl

/-- The entries of a file after the first ones. -/
theorem dirents_drop {blocks : Nat → Option Block} {size index : Nat}
    (inside : index < size / direntSize) :
    (dirents blocks size).drop index =
      direntAt blocks index :: (dirents blocks size).drop (index + 1) := by
  have length : (dirents blocks size).length = size / direntSize := by
    simp [dirents]
  rw [drop_eq_getElem_cons (by rw [length]; exact inside)]
  simp [dirents]

theorem dirent_within {size index : Nat} (inside : index < size / direntSize) :
    direntSize * index < size ∧ direntSize * index + direntSize ≤ size := by
  simp only [direntSize] at inside ⊢
  omega

section

variable (notDevice : (os.icache dp).dinode.type ≠ tDev)
  (whole : (os.icache dp).dinode.size.toNat % direntSize = 0)
include notDevice whole

/-- The loop of `dirlookup` looks the name up, provided that the entries it
reaches are in blocks that are there. -/
theorem dirlookupLoop_eq {fuel index : Nat}
    (covered : ∀ later, index ≤ later → later < (os.icache dp).dinode.size.toNat / direntSize →
      (∀ earlier, index ≤ earlier → earlier < later →
        ¬ (direntAt (contents os.store.blocks (os.icache dp).dinode) earlier).Named name) →
      Covered (contents os.store.blocks (os.icache dp).dinode)
        (direntSize * later) direntSize)
    (start : index ≤ (os.icache dp).dinode.size.toNat / direntSize)
    (enough : (os.icache dp).dinode.size.toNat / direntSize < fuel + index) :
    dirlookupLoop dp name fuel (direntSize * index) os =
      .ok ((lookupFrom name index ((dirents (contents os.store.blocks (os.icache dp).dinode)
        (os.icache dp).dinode.size.toNat).drop index)).map
          fun found => (found.1, direntSize * found.2), os) := by
  induction fuel generalizing index with
  | zero => omega
  | succ fuel ih =>
    unfold dirlookupLoop
    rw [bind_of_ok (getInode_eq os dp)]
    by_cases inside : index < (os.icache dp).dinode.size.toNat / direntSize
    · obtain ⟨within, before⟩ := dirent_within inside
      rw [if_pos within, bind_of_ok (readDirent_eq notDevice before
        (covered index (le_refl _) inside fun _ low high => by omega)),
        dirents_drop inside]
      have next : direntSize * index + direntSize = direntSize * (index + 1) := by
        ring
      unfold lookupFrom
      by_cases named : (direntAt (contents os.store.blocks (os.icache dp).dinode) index).Named name
      · rw [if_neg named.1, if_pos named.2, if_pos named]
        rfl
      · have rest := @ih (index + 1)
          (fun later low high others => covered later (by omega) high
            fun earlier from_index before => by
              by_cases same : earlier = index
              · rw [same]
                exact named
              · exact others earlier (by omega) before)
          (by omega) (by omega)
        rw [if_neg named, ← rest, next]
        by_cases empty : (direntAt (contents os.store.blocks (os.icache dp).dinode) index).inum = 0
        · rw [if_pos empty]
        · rw [if_neg empty, if_neg fun same => named ⟨empty, same⟩]
    · have finished : index = (os.icache dp).dinode.size.toNat / direntSize := by
        omega
      rw [if_neg (by
        simp only [direntSize] at finished whole ⊢
        omega), drop_eq_nil_of_le (by simp [dirents, finished])]
      rfl

/-- The loop of `dirlink` finds the first empty entry. -/
theorem dirlinkLoop_eq {fuel index : Nat}
    (covered : ∀ later, index ≤ later → later < (os.icache dp).dinode.size.toNat / direntSize →
      Covered (contents os.store.blocks (os.icache dp).dinode)
        (direntSize * later) direntSize)
    (start : index ≤ (os.icache dp).dinode.size.toNat / direntSize)
    (enough : (os.icache dp).dinode.size.toNat / direntSize < fuel + index) :
    dirlinkLoop dp fuel (direntSize * index) os =
      .ok (direntSize * (index + emptyIndex ((dirents
        (contents os.store.blocks (os.icache dp).dinode)
        (os.icache dp).dinode.size.toNat).drop index)), os) := by
  induction fuel generalizing index with
  | zero => omega
  | succ fuel ih =>
    unfold dirlinkLoop
    rw [bind_of_ok (getInode_eq os dp)]
    by_cases inside : index < (os.icache dp).dinode.size.toNat / direntSize
    · obtain ⟨within, before⟩ := dirent_within inside
      rw [if_pos within, bind_of_ok (readDirent_eq notDevice before
        (covered index (le_refl _) inside)), dirents_drop inside]
      unfold emptyIndex
      rw [findIdx_cons]
      by_cases empty : (direntAt (contents os.store.blocks (os.icache dp).dinode) index).inum = 0
      · rw [if_pos empty]
        simp only [empty, decide_true, cond_true]
        rfl
      · have rest := @ih (index + 1)
          (fun later low => covered later (by omega)) (by omega) (by omega)
        rw [if_neg empty, show direntSize * index + direntSize =
          direntSize * (index + 1) by ring, rest]
        simp only [empty, decide_false, cond_false, emptyIndex]
        congr 3
        ring
    · have finished : index = (os.icache dp).dinode.size.toNat / direntSize := by
        omega
      rw [if_neg (by
        simp only [direntSize] at finished whole ⊢
        omega), drop_eq_nil_of_le (by simp [dirents, finished])]
      rfl

end

end Loops

end Xv6.Fs
