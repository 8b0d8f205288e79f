import Xv6.Fs.Entries
import Xv6.Fs.Sysfile

/-!
# Looking up and linking in an open directory

Specifications of `dirlookup`, `dirlink` and `isdirempty` for an entry of the
cache that is a valid directory.
-/

namespace Xv6.Fs

open List Function Foundation.Program

/-- The entries of a cached directory. -/
def Kernel.entries (os : Kernel) (dp : Slot) : List Dirent :=
  dirents (contents os.store.blocks (os.icache dp).dinode)
    (os.icache dp).dinode.size.toNat

/-- The entry of the cache is a valid directory. -/
structure OpenDirectory (os : Kernel) (dp : Slot) : Prop
    extends Open os dp where
  type : (os.icache dp).dinode.type = tDir

variable {os : Kernel}

section Open

variable {ip : Slot} {node : Node}

/-- An open inode agrees with the volume. -/
theorem Open.node_eq (opened : Open os ip) (cached : Cached os)
    (present : os.store.volume (os.inum ip) = some node) :
    (os.icache ip).dinode.node os.store.blocks = node := by
  rw [opened.volume cached] at present
  exact Option.some.inj present

theorem OpenDirectory.entries (opened : OpenDirectory os ip) (cached : Cached os)
    (present : os.store.volume (os.inum ip) = some node) : os.entries ip = node.entries := by
  rw [← opened.node_eq cached present]
  unfold Dinode.node
  rw [if_pos opened.type]
  rfl

theorem Open.directory (opened : Open os ip) (cached : Cached os)
    (present : os.store.volume (os.inum ip) = some node) (type : node.type = tDir) :
    OpenDirectory os ip := by
  refine ⟨opened, ?_⟩
  rw [← opened.node_eq cached present] at type
  exact type

theorem OpenDirectory.notDevice (opened : OpenDirectory os ip) :
    (os.icache ip).dinode.type ≠ tDev := by
  rw [opened.type]
  decide

/-- The volume has the entries of an open directory. -/
theorem OpenDirectory.volume (opened : OpenDirectory os ip) (cached : Cached os) :
    os.store.volume (os.inum ip) =
      some ⟨tDir, (os.icache ip).dinode.nlink, os.entries ip⟩ := by
  rw [opened.toOpen.volume cached]
  unfold Dinode.node
  rw [if_pos opened.type, opened.type]
  rfl

end Open

variable {stops : Stop → Prop}

section Lookup

variable {dp : Slot} {name : List Byte}

/-- All entries of a directory are in blocks that are there. -/
theorem Shaped.covered_dirent {blocks : Nat → Block} {dinode : Dinode} {index : Nat}
    (shaped : Shaped blocks dinode) (inside : index < dinode.size.toNat / direntSize) :
    Covered (contents blocks dinode) (direntSize * index) direntSize :=
  shaped.covered (by
    simp only [direntSize] at inside ⊢
    omega)

/-- `dirlookup` looks the name up and refers to the inode it finds. -/
theorem dirlookup_spec {post : Option (Slot × Nat) → Kernel → Prop}
    (sound : Sound os.store) (cached : Cached os) (opened : OpenDirectory os dp)
    (full : ∀ inum index, lookup (os.entries dp) name = some (inum, index) →
      os.Full inum → stops (.panic "iget: no inodes"))
    (missing : lookup (os.entries dp) name = none → post none os)
    (found : ∀ ip inum index next, lookup (os.entries dp) name = some (inum, index) →
      Shift os.refs os next (os.refs + Pi.single ip 1) os.locks →
      next.inum ip = inum →
      (os.refs ip = 0 → (next.icache ip).valid = false) →
      ¬ os.Full inum →
      post (some (ip, direntSize * index)) next) : wp (dirlookup dp name) post stops os := by
  have shaped := opened.shaped cached sound opened.notDevice
  have loop : dirlookupLoop dp name
      ((os.icache dp).dinode.size.toNat / direntSize + 1) 0 os =
      .ok ((lookup (os.entries dp) name).map fun found => (found.1, direntSize * found.2), os) :=
    dirlookupLoop_eq opened.notDevice (shaped.whole opened.type)
      (fun later _ inside _ => shaped.covered_dirent inside)
      (Nat.zero_le _) (Nat.lt_succ_self _)
  unfold dirlookup
  rw [wp_bind, wp_getInode]
  simp only [opened.type, ne_eq, not_true_eq_false, if_false]
  rw [wp_bind, wp_of_ok loop]
  cases result : lookup (os.entries dp) name with
  | none => exact missing result
  | some pair =>
    obtain ⟨inum, index⟩ := pair
    obtain ⟨dirent, there, -, rfl⟩ := lookup_eq_some result
    have inside : dirent.inum.toNat < os.store.sb.ninodes :=
      sound.within _ _ (opened.volume cached) dirent (mem_of_getElem? there)
    simp only [Option.map_some]
    rw [wp_bind, cached.device dp opened.held]
    refine wp_mono (iget_spec cached inside (full _ _ result)) ?_ fun _ => id
    rintro ip next ⟨shift, same, fresh, room⟩
    exact found ip _ index next result shift same fresh room

end Lookup

/-! ## Empty directories -/

section Empty

variable {dp : Slot}

/-- No entries but `.` and `..`. -/
def Vacant (entries : List Dirent) : Prop :=
  ∀ dirent ∈ entries.drop 2, dirent.inum = 0

instance (entries : List Dirent) : Decidable (Vacant entries) :=
  inferInstanceAs (Decidable (∀ dirent ∈ entries.drop 2, dirent.inum = 0))

theorem isdiremptyLoop_eq {fuel index : Nat} (notDevice : (os.icache dp).dinode.type ≠ tDev)
    (whole : (os.icache dp).dinode.size.toNat % direntSize = 0)
    (shaped : Shaped os.store.blocks (os.icache dp).dinode)
    (enough : (os.icache dp).dinode.size.toNat / direntSize < fuel + index) :
    isdiremptyLoop dp fuel (direntSize * index) os =
      .ok (decide (∀ dirent ∈ (os.entries dp).drop index, dirent.inum = 0), os) := by
  unfold Kernel.entries
  induction fuel generalizing index with
  | zero =>
    rw [drop_eq_nil_of_le (by
      simp only [dirents, length_map, length_range]
      omega)]
    rfl
  | succ fuel ih =>
    unfold isdiremptyLoop
    rw [bind_of_ok (getInode_eq os dp)]
    by_cases inside : index < (os.icache dp).dinode.size.toNat / direntSize
    · obtain ⟨within, before⟩ := dirent_within inside
      rw [if_pos within, bind_of_ok (readDirent_eq notDevice before
        (shaped.covered_dirent inside)), dirents_drop inside]
      simp only [forall_mem_cons]
      by_cases empty : (direntAt (contents os.store.blocks (os.icache dp).dinode) index).inum = 0
      · rw [if_neg (not_not.mpr empty), show direntSize * index +
          direntSize = direntSize * (index + 1) by ring,
          @ih (index + 1) (by omega)]
        simp only [empty, true_and]
      · rw [if_pos empty]
        simp only [empty, false_and, decide_false]
        rfl
    · rw [if_neg (by
        simp only [direntSize] at inside whole ⊢
        omega), drop_eq_nil_of_le (by
          simp only [dirents, length_map, length_range]
          omega)]
      rfl

/-- `isdirempty` sees whether the directory is empty. -/
theorem isdirempty_eq (sound : Sound os.store) (cached : Cached os) (opened : OpenDirectory os dp) :
    isdirempty dp os = .ok (decide (Vacant (os.entries dp)), os) := by
  have shaped := opened.shaped cached sound opened.notDevice
  unfold isdirempty
  rw [bind_of_ok (getInode_eq os dp), show 2 * direntSize = direntSize * 2 from rfl,
    isdiremptyLoop_eq opened.notDevice (shaped.whole opened.type) shaped (by omega)]
  rfl

end Empty

/-! ## Writing -/

section Write

variable {ip dp : Slot}

section

variable (sound : Sound os.store) (cached : Cached os)
include sound cached

/-- The outcome of `writei`, given that the directory entries it leaves
exist. -/
theorem Wrote.outcome {store : Store} {dinode : Dinode} {off : Nat} {src : List Byte}
    (opened : Open os ip)
    (wrote : Wrote os.store store (os.inum ip) (os.icache ip).dinode dinode off src)
    (whole : dinode.type = tDir → dinode.size.toNat % direntSize = 0)
    (entries : dinode.type = tDir → ∀ dirent ∈ (dinode.node store.blocks).entries,
        dirent.inum.toNat < os.store.sb.ninodes) :
    Outcome os.refs os
      ((os.setStore store).setInode ip { os.icache ip with dinode := dinode })
      (update os.store.volume (os.inum ip) (some (dinode.node store.blocks)))
      os.refs os.locks := by
  have inside := opened.inside cached
  have allocated := opened.allocated cached
  have type : dinode.type = (os.icache ip).dinode.type := by
    rw [wrote.fields]
  have sound' : Sound store :=
    wrote.rewritten.sound sound inside (fun _ _ => ⟨wrote.blocks, wrote.indirect, whole⟩) entries
  have outcome := Outcome.of_rewritten os.refs
    { os.icache ip with dinode := dinode } 0 sound' cached opened.held
    wrote.rewritten (add_zero _).symm (cached.counted ip) rfl rfl (fun _ => id)
    fun _ => ⟨rfl, by rw [type]; exact allocated⟩
  rw [Pi.single_zero, add_zero, show update os.locks ip
    (os.icache ip).lock = os.locks from update_eq_self ..]
    at outcome
  unfold Dinode.node? at outcome
  rwa [type, if_neg allocated] at outcome

theorem writei_file_spec {off : Nat} {src : List Byte} (opened : Open os ip)
    (notDevice : (os.icache ip).dinode.type ≠ tDev)
    (notDirectory : (os.icache ip).dinode.type ≠ tDir) (lenient : Lenient stops) :
    wp (writei ip src off) (fun _ next => Outcome os.refs os next os.store.volume
        os.refs os.locks)
      stops os := by
  refine wp_mono (writei_spec sound cached opened notDevice lenient) ?_
    fun _ => id
  rintro result next (⟨-, -, rfl⟩ | ⟨-, -, -, store, dinode, wrote, rfl⟩)
  · exact ⟨sound, cached, .refl _ _, rfl, rfl, rfl⟩
  · have type : dinode.type = (os.icache ip).dinode.type := by
      rw [wrote.fields]
    have apart : dinode.type ≠ tDir := by
      rw [type]
      exact notDirectory
    have outcome := wrote.outcome sound cached opened (fun dir => absurd dir apart)
      fun dir => absurd dir apart
    have node : dinode.node store.blocks = (os.icache ip).dinode.node os.store.blocks := by
      have nlink : dinode.nlink = (os.icache ip).dinode.nlink := by
        rw [wrote.fields]
      unfold Dinode.node
      rw [if_neg apart, if_neg notDirectory, type, nlink]
    rwa [node, ← opened.volume cached, update_eq_self] at outcome

theorem writei_dirents_spec {index : Nat} {new : List Dirent}
    (opened : OpenDirectory os dp) (padded : ∀ dirent ∈ new, dirent.Padded)
    (within : ∀ dirent ∈ new, dirent.inum.toNat < os.store.sb.ninodes) (lenient : Lenient stops) :
    wp (writei dp (new.flatMap Dirent.toBytes) (direntSize * index))
      (fun result next =>
        result = -1 ∧ next = os ∨
        result = (direntSize * new.length : Nat) ∧ index ≤ (os.entries dp).length ∧
          Outcome os.refs os next (update os.store.volume (os.inum dp)
              (some ⟨tDir, (os.icache dp).dinode.nlink, splice (os.entries dp) index new⟩))
            os.refs os.locks)
      stops os := by
  have shaped := opened.shaped cached sound opened.notDevice
  have whole := shaped.whole opened.type
  refine wp_mono (writei_spec sound cached opened.toOpen opened.notDevice lenient) ?_ fun _ => id
  rintro result next (⟨-, rfl, rfl⟩ | ⟨start, -, rfl, store, dinode, wrote, rfl⟩)
  · exact .inl ⟨rfl, rfl⟩
  refine .inr ⟨?_, ?_, ?_⟩
  · rw [length_flatMap_toBytes padded]
  · simp only [Kernel.entries, dirents, length_map, length_range, direntSize] at start ⊢
    omega
  have type : dinode.type = tDir := by
    rw [wrote.fields]
    exact opened.type
  have nlink : dinode.nlink = (os.icache dp).dinode.nlink := by
    rw [wrote.fields]
  have node : dinode.node store.blocks =
      ⟨tDir, (os.icache dp).dinode.nlink, splice (os.entries dp) index new⟩ := by
    unfold Dinode.node
    rw [if_pos type, type, nlink, dirents_write padded wrote.bytes start wrote.size]
    rfl
  have outcome := wrote.outcome sound cached opened.toOpen
    (fun _ => by
      rw [wrote.size, length_flatMap_toBytes padded]
      simp only [direntSize] at whole ⊢
      omega)
    (fun _ dirent member => by
      rw [node] at member
      simp only [splice, mem_append] at member
      have old : ∀ dirent ∈ os.entries dp, dirent.inum.toNat < os.store.sb.ninodes :=
        sound.within _ _ (opened.volume cached)
      rcases member with (early | stored) | late
      · exact old dirent (mem_of_mem_take early)
      · exact within dirent stored
      · exact old dirent (mem_of_mem_drop late))
  rwa [node] at outcome

end

theorem length_strncpy (name : List Byte) (n : Nat) : (strncpy name n).length = n := by
  have short : ((name.take n).takeWhile (· ≠ 0)).length ≤ n :=
    (takeWhile_sublist _).length_le.trans (length_take_le ..)
  simp only [strncpy, length_append, length_replicate]
  omega

/-- An entry stored over the first empty one or at the end. -/
def insertEntry (entries : List Dirent) (dirent : Dirent) : List Dirent :=
  splice entries (emptyIndex entries) [dirent]

/-- The entry that `dirlink` stores. -/
def linkEntry (name : List Byte) (inum : Nat) : Dirent :=
  ⟨BitVec.ofNat 16 inum, strncpy name dirsiz⟩

theorem Waits.congr {next : Kernel} (waits : Waits stops os ip)
    (locks : next.locks ip = os.locks ip) (pid : next.pid = os.pid) : Waits stops next ip := by
  unfold Waits
  rw [locks, pid]
  exact waits

/-- A reference that was just taken is given up again. -/
theorem iput_spec_got {next : Kernel}
    (shift : Shift os.refs os next (os.refs + Pi.single ip 1) os.locks)
    (counted : 0 ≤ os.refs ip) (fresh : os.refs ip = 0 → (next.icache ip).valid = false)
    (waits : Waits stops os ip) :
    wp (iput ip) (fun _ final => Shift os.refs os final os.refs os.locks ∧
        os.locks ip = none)
      stops next := by
  have refs : next.refs ip = os.refs ip + 1 := by
    rw [shift.refs, Pi.add_apply, Pi.single_eq_same]
  have kept : ¬ next.Frees ip := by
    rintro ⟨valid, -, last⟩
    rw [fresh (by omega)] at valid
    cases valid
  refine wp_mono (iput_spec_kept shift.cached (by omega)
    (waits.congr (by rw [shift.locks]) shift.frame.pid) kept) ?_ fun _ => id
  rintro _ final ⟨put, free⟩
  rw [shift.refs, add_sub_cancel_right] at put
  rw [shift.locks] at put free
  exact ⟨⟨put.cached, shift.frame.trans put.frame,
    put.store.trans shift.store, put.refs, put.locks⟩, free⟩

/-- `dirlink` adds an entry, unless the name is there. -/
theorem dirlink_spec {name : List Byte} {inum : Nat} {node : Node} {post : Int → Kernel → Prop}
    (sound : Sound os.store) (cached : Cached os) (opened : Open os dp)
    (present : os.store.volume (os.inum dp) = some node)
    (dir : node.type = tDir) (inside : inum < os.store.sb.ninodes)
    (lenient : Lenient stops) (large : stops (.panic "dirlink"))
    (waits : ∀ jp other index, lookup node.entries name = some (other, index) →
      (0 < os.refs jp → os.inum jp = other) → Waits stops os jp)
    (found : ∀ other index next, lookup node.entries name = some (other, index) →
      Shift os.refs os next os.refs os.locks →
      (∀ jp, 0 < os.refs jp → os.inum jp = other → os.locks jp = none) →
      post (-1) next)
    (added : ∀ next, lookup node.entries name = none → Outcome os.refs os next
        (update os.store.volume (os.inum dp) (some { node with
            entries := insertEntry node.entries (linkEntry name inum) }))
        os.refs os.locks →
      post 0 next) : wp (dirlink dp name inum) post stops os := by
  have isDirectory := opened.directory cached present dir
  have entries := isDirectory.entries cached present
  have nlink : (os.icache dp).dinode.nlink = node.nlink := by
    rw [← opened.node_eq cached present]
    rfl
  unfold dirlink
  rw [wp_bind]
  refine dirlookup_spec sound cached isDirectory (fun _ _ _ _ => lenient.entries) (fun absent => ?_)
    fun ip other index next hit shift same fresh _ => ?_
  · have shaped := opened.shaped cached sound isDirectory.notDevice
    have loop : dirlinkLoop dp ((os.icache dp).dinode.size.toNat / direntSize + 1) 0 os =
        .ok (direntSize * emptyIndex (os.entries dp), os) := by
      have run := dirlinkLoop_eq isDirectory.notDevice (shaped.whole isDirectory.type)
        (fun later _ inside => shaped.covered_dirent inside)
        (Nat.zero_le _) (Nat.lt_succ_self _)
      rw [Nat.zero_add, drop_zero] at run
      exact run
    simp only [wp_bind, wp_getInode, wp_of_ok loop]
    have stored : wp (writei dp ([linkEntry name inum].flatMap Dirent.toBytes)
        (direntSize * emptyIndex (os.entries dp))) _ stops os :=
      writei_dirents_spec sound cached isDirectory
        (fun dirent member => by
          rw [mem_singleton.mp member]
          exact length_strncpy ..)
        (fun dirent member => by
          rw [mem_singleton.mp member]
          exact (Nat.mod_le _ _).trans_lt inside)
        lenient
    rw [flatMap_singleton] at stored
    refine wp_mono stored ?_ fun _ => id
    rw [entries, nlink, ← dir]
    rintro result next (⟨rfl, rfl⟩ | ⟨rfl, -, outcome⟩)
    · rw [if_pos (by decide)]
      exact large
    · rw [if_neg (by simp)]
      rw [entries] at absent
      exact added next absent outcome
  · simp only [wp_bind, wp_pure]
    rw [entries] at hit
    refine wp_mono (iput_spec_got shift (cached.counted ip) fresh
      (waits ip other index hit fun held =>
        (shift.frame.inum ip held).symm.trans same)) ?_ fun _ => id
    rintro _ final ⟨put, free⟩
    refine found other index final hit put fun jp held sameInum => ?_
    have here : jp = ip := by
      have heldNext : 0 < next.refs jp := by
        rw [shift.refs]
        exact pos_add_single held
      have heldIp := pos_of_taken shift.refs (cached.counted ip)
      refine shift.cached.unique jp ip heldNext heldIp ?_
      rw [shift.frame.inum jp held, sameInum, same]
    rw [here]
    exact free

end Write

end Xv6.Fs
