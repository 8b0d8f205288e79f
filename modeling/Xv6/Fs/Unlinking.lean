import Xv6.Fs.Linking

/-!
# Unlinking

`sys_unlink` in a state in which nothing else runs: what it does to the volume,
and when it waits for a lock that it holds.
-/

namespace Xv6.Fs

open Function Foundation.Program
open Pi (single)

section Unlink

variable {base : Slot → Int} {os : Kernel} {dp ip : Slot} {d i : Nat}
variable {dir node : Node} {stops : Stop → Prop} {index : Nat}

/-- The entry that `sys_unlink` leaves. -/
def Dirent.empty : Dirent :=
  ⟨0, List.replicate dirsiz 0⟩

/-- The links of a directory from which an inode of a type is removed. -/
def unlinksFor (type nlink : BitVec 16) : BitVec 16 :=
  if type = tDir then nlink - 1 else nlink

/-- The node of a directory from which an entry is removed. -/
def unlinkedNode (dir : Node) (type : BitVec 16) (index : Nat) : Node where
  type := dir.type
  nlink := unlinksFor type dir.nlink
  entries := splice dir.entries index [.empty]

/-- The volume after an entry is removed. -/
def Volume.unlinked (vol : Volume) (d i index : Nat) (dir node : Node) : Volume :=
  update (update vol d (some (unlinkedNode dir node.type index)))
    i (some { node with nlink := node.nlink - 1 })

/-- Releasing one inode and changing another can be exchanged. -/
theorem Volume.update_release {vol : Volume} {used : Finset Nat} {other : Option Node}
    (different : d ≠ i) :
    update (vol.release used d) i other = Volume.release (update vol i other) used d := by
  unfold Volume.release
  rw [update_of_ne different]
  cases vol d with
  | none => rfl
  | some node =>
    dsimp only
    split
    · rw [update_comm different]
    · rfl

/-- An inode that is released is not another one that is in use. -/
theorem Volume.release_insert {vol : Volume} {used : Finset Nat} (different : d ≠ i) :
    vol.release (insert i used) d = vol.release used d := by
  unfold Volume.release
  simp only [Finset.mem_insert, different, false_or]

section

variable (sound : Sound os.store) (cached : Cached os)
include sound cached

theorem unlinkEnd_spec (counted : ∀ jp, 0 ≤ base jp)
    (refs : os.refs = base + single ip 1 + single dp 1)
    (parent : At os dp d dir) (child : At os ip i node)
    (different : d ≠ i) (parentLocked : os.locks dp = some os.pid)
    (childLocked : os.locks ip = some os.pid)
    (kept : Retained os os.refs) (lenient : Lenient stops) :
    wp (unlinkEnd dp ip) (fun result next => result = 0 ∧ Outcome base os next
          ((Volume.release (update os.store.volume i (some { node with nlink := node.nlink - 1 }))
            (os.used base) d).release (os.used base) i)
          base
          (update (update os.locks dp none) ip none) ∧
        Retained next base)
      stops os := by
  have counted' : ∀ jp, 0 ≤ (base + single ip 1 : Slot → Int) jp :=
    fun jp => nonneg_add_single (counted jp)
  have more : ∀ jp, 0 < base jp → 0 < (base + single ip 1 : Slot → Int) jp :=
    fun _ => pos_add_single
  have ipHeld : 0 < (base + single ip 1 : Slot → Int) ip := pos_add_single_self (counted ip)
  have apart : ip ≠ dp := (parent.ne child different).symm
  unfold unlinkEnd
  refine wp_bind_of (iunlockput_release sound cached counted' refs parent parentLocked lenient) ?_
  rintro _ released ⟨first, after, -⟩
  rw [used_add_single counted, child.number, Volume.release_insert different] at first
  have there : At released ip i node := child.after first ipHeld ipHeld (by
    rw [Volume.release_of_ne different.symm]
    exact child.node)
  rw [wp_bind, wp_modifyDinode]
  refine wp_bind_of (iupdate_nlink_spec first.sound first.cached there rfl rfl rfl lenient) ?_
  intro _ written second
  rw [there.nlink first.cached] at second
  have held : 0 < released.refs ip := by
    rw [first.refs]
    exact ipHeld
  have now := there.after second held held (update_self ..)
  have stays := Retained.update (by rw [first.refs]; exact after kept) now held second
  rw [first.volume, first.refs, first.locks, Volume.update_release different] at second
  have total := first.trans second fun _ => id
  refine wp_bind_of (iunlockput_release total.sound total.cached counted total.refs now
    (by rw [total.locks, update_of_ne apart, childLocked, total.frame.pid]) lenient) ?_
  rintro _ dropped ⟨third, ended, -⟩
  rw [total.volume, (total.frame.mono more).used, total.locks] at third
  exact endOp_return ((total.mono more).trans third fun _ => id)
    (ended (by rw [total.refs]; rw [first.refs] at stays; exact stays))
    fun next outcome last _ => ⟨rfl, outcome, last⟩

theorem unlinkEntry_spec (counted : ∀ jp, 0 ≤ base jp)
    (refs : os.refs = base + single ip 1 + single dp 1)
    (parent : At os dp d dir) (child : At os ip i node)
    (isDirectory : dir.type = tDir) (different : d ≠ i)
    (parentLocked : os.locks dp = some os.pid) (childLocked : os.locks ip = some os.pid)
    (kept : Retained os os.refs) (lenient : Lenient stops)
    (large : stops (.panic "unlink: writei")) :
    wp (unlinkEntry dp ip (direntSize * index)) (fun result next => result = 0 ∧
        Outcome base os next (((os.store.volume.unlinked d i index dir node).release
            (os.used base) d).release (os.used base) i)
          base
          (update (update os.locks dp none) ip none) ∧
        Retained next base)
      stops os := by
  have weaken : ∀ jp, 0 < base jp → 0 < os.refs jp := fun jp positive => by
    rw [refs]
    exact pos_add_single (pos_add_single positive)
  have opened := parent.opened.directory cached parent.present isDirectory
  have zeros : List.replicate direntSize (0 : Byte) =
      [Dirent.empty].flatMap Dirent.toBytes := by decide
  have padded : ∀ dirent ∈ [Dirent.empty], dirent.Padded := by
    intro dirent member
    rw [List.mem_singleton.mp member]
    rfl
  have within : ∀ dirent ∈ [Dirent.empty], dirent.inum.toNat < os.store.sb.ninodes := by
    intro dirent member
    rw [List.mem_singleton.mp member]
    exact Nat.lt_of_le_of_lt (Nat.zero_le _) sound.valid.root
  -- Whether or not the link of `..` is counted down, what is left is the same.
  have rest : ∀ middle, Outcome os.refs os middle
        (update os.store.volume d (some (unlinkedNode dir node.type index)))
        os.refs os.locks →
      wp (unlinkEnd dp ip) (fun result next => result = 0 ∧ Outcome base os next
            (((os.store.volume.unlinked d i index dir node).release
              (os.used base) d).release (os.used base) i)
            base
            (update (update os.locks dp none) ip none) ∧
          Retained next base)
        stops middle := by
    intro middle first
    have now := parent.after first parent.opened.held parent.opened.held (update_self ..)
    have there : At middle ip i node :=
      child.after first child.opened.held child.opened.held (by
        rw [update_of_ne different.symm]
        exact child.node)
    have stays := kept.update now parent.opened.held first
    refine wp_mono (unlinkEnd_spec first.sound first.cached counted
      (first.refs.trans refs) now there different
      (by rw [first.locks, parentLocked, first.frame.pid])
      (by rw [first.locks, childLocked, first.frame.pid])
      (by rw [first.refs]; exact stays) lenient) ?_ fun _ => id
    rintro _ next ⟨rfl, second, ended⟩
    rw [first.volume, first.locks, (first.frame.mono weaken).used] at second
    exact ⟨rfl, (first.mono weaken).trans second fun _ => id, ended⟩
  unfold unlinkEntry
  rw [zeros]
  refine wp_bind_of (writei_dirents_spec sound cached opened padded within lenient) ?_
  rintro _ middle (⟨rfl, rfl⟩ | ⟨rfl, -, first⟩)
  · rw [if_pos (by decide), wp_bind, wp_throw]
    exact large
  · rw [parent.number, parent.nlink cached, opened.entries cached parent.present] at first
    have there : At middle ip i node :=
      child.after first child.opened.held child.opened.held (by
        rw [update_of_ne different.symm]
        exact child.node)
    have now := parent.after first parent.opened.held parent.opened.held (update_self ..)
    rw [if_neg (by decide)]
    simp only [wp_bind, wp_getInode]
    rw [there.type first.cached, wp_ite]
    refine ⟨fun subdirectory => ?_, fun file => ?_⟩
    · simp only [wp_bind, wp_modifyDinode]
      refine wp_mono (iupdate_nlink_spec first.sound first.cached now rfl rfl
        rfl lenient) ?_ fun _ => id
      intro _ written second
      rw [now.nlink first.cached, first.volume, first.refs, first.locks, update_idem] at second
      refine rest written ?_
      rw [unlinkedNode, unlinksFor, if_pos subdirectory, isDirectory]
      exact first.trans second fun _ => id
    · refine rest middle ?_
      rw [unlinkedNode, unlinksFor, if_neg file, isDirectory]
      exact first

variable {post : Int → Kernel → Prop}

theorem unlinkBad_spec (counted : ∀ jp, 0 ≤ base jp)
    (refs : os.refs = base + single dp 1) (parent : At os dp d dir)
    (locked : os.locks dp = some os.pid) (retained : dir.nlink = 0 → d ∈ os.used base)
    (kept : Retained os os.refs) (lenient : Lenient stops)
    (failed : ∀ next, Undone base os next base (update os.locks dp none) → Retained next base →
      post (-1) next) : wp (unlinkBad dp) post stops os := by
  unfold unlinkBad
  refine wp_bind_of (iunlockput_kept sound cached counted refs parent locked retained lenient) ?_
  rintro _ released ⟨undone, after⟩
  exact endOp_undone undone (after kept) failed

/-- `occupied` sees whether the inode is a directory with entries. -/
theorem occupied_eq (here : At os ip i node) :
    occupied ip os = .ok (decide (node.type = tDir ∧ ¬ Vacant node.entries), os) := by
  have type := here.type cached
  by_cases dir : node.type = tDir
  · have opened := here.opened.directory cached here.present dir
    have empty := isdirempty_eq sound cached opened
    rw [opened.entries cached here.present] at empty
    unfold occupied
    have first : getInode ip os = .ok (os.icache ip, os) := rfl
    rw [bind_of_ok first, if_pos (type.trans dir), bind_of_ok empty]
    have value : (!decide (Vacant node.entries)) =
        decide (node.type = tDir ∧ ¬ Vacant node.entries) := by
      simp [dir]
    rw [← value]
    rfl
  · unfold occupied
    have first : getInode ip os = .ok (os.icache ip, os) := rfl
    rw [bind_of_ok first, if_neg (by rw [type]; exact dir),
      decide_eq_false fun both => dir both.1]
    rfl

theorem unlinkFound_spec {locks : Slot → Option Nat} (counted : ∀ jp, 0 ≤ base jp)
    (refs : os.refs = base + single dp 1 + single ip 1)
    (parent : At os dp d dir) (isDirectory : dir.type = tDir)
    (number : os.inum ip = i) (locked : os.locks = update locks dp (some os.pid))
    (unlocked : ∀ jp, locks jp = none) (retained : Retained os base)
    (lenient : Lenient stops) (large : stops (.panic "unlink: writei"))
    (itself : d = i → stops .deadlock)
    (untyped : os.store.volume i = none → stops (.panic "ilock: no type"))
    (unlinked : ∀ node, os.store.volume i = some node →
      node.nlink.toInt < 1 → stops (.panic "unlink: nlink < 1"))
    (failed : ∀ next, Undone base os next base locks → Retained next base → post (-1) next)
    (removed : ∀ node next, d ≠ i → os.store.volume i = some node →
      ¬ node.nlink.toInt < 1 → (node.type = tDir → Vacant node.entries) →
      Outcome base os next (((os.store.volume.unlinked d i index dir node).release
          (os.used base) d).release (os.used base) i)
        base locks → Retained next base → post 0 next) :
    wp (unlinkFound dp ip (direntSize * index)) post stops os := by
  have counted' : ∀ jp, 0 ≤ (base + single dp 1 : Slot → Int) jp :=
    fun jp => nonneg_add_single (counted jp)
  have held := pos_of_taken refs (counted' ip)
  have dpHeld := parent.opened.held
  have weaken : ∀ jp, 0 < base jp → 0 < os.refs jp := fun jp positive => by
    rw [refs]
    exact pos_add_single (pos_add_single positive)
  have more : ∀ jp, 0 < base jp → 0 < (base + single dp 1 : Slot → Int) jp :=
    fun _ => pos_add_single
  have dpBased : 0 < (base + single dp 1 : Slot → Int) dp := pos_add_single_self (counted dp)
  have toRefs := pos_of_taken_base refs
  have byUs : os.locks dp = some os.pid := by
    rw [locked, update_self]
  have busy : dir.nlink = 0 → d ∈ os.used base := retained.mem_used parent.node
  unfold unlinkFound
  by_cases different : d = i
  · -- the entry refers to the directory itself, which is locked
    have same : ip = dp := cached.unique ip dp held dpHeld
      (number.trans (different.symm.trans parent.number.symm))
    subst same
    refine wp_bind_of (ilock_spec cached held (fun holder holds => ?_)
      fun none => absurd none (parent.number ▸ type_ne_zero parent.node)) ?_
    · rw [byUs] at holds
      cases holds
      rw [if_pos rfl]
      exact itself different
    · rintro _ next ⟨-, -, free⟩
      rw [byUs] at free
      cases free
  have apart : ip ≠ dp := fun same =>
    different (by rw [← parent.number, ← same, number])
  have free : os.locks ip = none := by
    rw [locked, update_of_ne apart]
    exact unlocked ip
  refine wp_bind_of (ilock_found sound cached held number free untyped) ?_
  rintro _ middle ⟨node, present, here, first⟩
  have there : At middle dp d dir := parent.after first.toOutcome dpHeld dpHeld parent.node
  have pid : middle.pid = os.pid := first.frame.pid
  have dpLocked : middle.locks dp = some middle.pid := by
    rw [first.locks, update_of_ne apart.symm, byUs, pid]
  have ipLocked : middle.locks ip = some middle.pid := by
    rw [first.locks, update_self, pid]
  have stays : Retained middle os.refs := first.toOutcome.retained (retained.mono weaken)
  simp only [wp_bind, wp_getInode]
  rw [here.nlink first.cached, wp_ite]
  refine ⟨fun few => unlinked node present few, fun linked => ?_⟩
  rw [wp_bind, wp_of_ok (occupied_eq first.sound first.cached here), wp_ite]
  refine ⟨fun entries => ?_, fun vacant => ?_⟩
  · have links : node.nlink = 0 → i ∈ middle.used (base + single dp 1) := by
      intro none
      rw [none] at linked
      exact absurd (by decide) linked
    refine wp_bind_of (iunlockput_kept first.sound first.cached counted'
      (first.refs.trans refs) here ipLocked links lenient) ?_
    rintro _ released ⟨second, after⟩
    have total := (first.mono toRefs).trans second fun _ => id
    have back : At released dp d dir := parent.after total.toOutcome dpBased dpBased parent.node
    have restored : update released.locks dp none = locks := by
      rw [total.locks, first.locks, unlock_eq free, locked, unlock_eq (unlocked dp)]
    refine unlinkBad_spec total.sound total.cached counted total.refs back ?_ ?_ ?_ lenient ?_
    · rw [total.locks, update_of_ne apart.symm, first.locks,
        update_of_ne apart.symm, byUs, total.frame.pid]
    · rw [(total.frame.mono more).used]
      exact busy
    · rw [total.refs]
      refine after ?_
      rw [first.refs]
      exact stays
    · intro next third ended
      rw [restored] at third
      exact failed next ((total.mono more).trans third fun _ => id) ended
  · have empty : node.type = tDir → Vacant node.entries := by
      intro type
      by_contra entries
      exact vacant (decide_eq_true ⟨type, entries⟩)
    have back : update (update middle.locks dp none) ip none = locks := by
      rw [update_comm apart.symm, first.locks, unlock_eq free, locked, unlock_eq (unlocked dp)]
    refine wp_mono (unlinkEntry_spec first.sound first.cached counted
      (by rw [first.refs, refs, add_right_comm]) there here isDirectory
      different dpLocked ipLocked (by rw [first.refs]; exact stays) lenient
      large) ?_ fun _ => id
    rintro _ next ⟨rfl, second, ended⟩
    rw [first.volume, (first.frame.mono weaken).used, back] at second
    exact removed node next different present linked empty
      ((first.mono weaken).toOutcome.trans second fun _ => id) ended

theorem unlinkIn_spec {name : List Byte}
    (counted : ∀ jp, 0 ≤ base jp) (refs : os.refs = base + single dp 1)
    (number : os.inum dp = d) (present : os.store.volume d = some dir)
    (isDirectory : dir.type = tDir)
    (unlocked : ∀ jp, os.locks jp = none) (retained : Retained os base)
    (lenient : Lenient stops) (large : stops (.panic "unlink: writei"))
    (itself : ∀ index, namecmp name dot ≠ 0 → namecmp name dotdot ≠ 0 →
      lookup dir.entries name = some (d, index) → stops .deadlock)
    (untyped : ∀ i index, namecmp name dot ≠ 0 → namecmp name dotdot ≠ 0 →
      lookup dir.entries name = some (i, index) →
      os.store.volume i = none → stops (.panic "ilock: no type"))
    (unlinked : ∀ i index node, namecmp name dot ≠ 0 → namecmp name dotdot ≠ 0 →
      lookup dir.entries name = some (i, index) →
      os.store.volume i = some node →
      node.nlink.toInt < 1 → stops (.panic "unlink: nlink < 1"))
    (failed : ∀ next, Undone base os next base os.locks → Retained next base → post (-1) next)
    (removed : ∀ i index node next, namecmp name dot ≠ 0 → namecmp name dotdot ≠ 0 →
      lookup dir.entries name = some (i, index) → d ≠ i →
      os.store.volume i = some node → ¬ node.nlink.toInt < 1 →
      (node.type = tDir → Vacant node.entries) →
      Outcome base os next (((os.store.volume.unlinked d i index dir node).release
          (os.used base) d).release (os.used base) i)
        base os.locks → Retained next base → post 0 next) :
    wp (unlinkIn dp name) post stops os := by
  have held := pos_of_taken refs (counted dp)
  have weaken := pos_of_taken_base refs
  unfold unlinkIn
  refine wp_bind_of (ilock_found sound cached held number (unlocked dp)
    fun none => by rw [present] at none; cases none) ?_
  rintro _ middle ⟨_, again, parent, first⟩
  cases present.symm.trans again
  have begun := first.mono weaken
  have pid : middle.pid = os.pid := first.frame.pid
  have byUs : middle.locks dp = some middle.pid := by
    rw [first.locks, update_self, pid]
  have stays : Retained middle base := begun.toOutcome.retained retained
  have counts : middle.refs = base + single dp 1 := first.refs.trans refs
  have locks : update middle.locks dp none = os.locks := by
    rw [first.locks]
    exact unlock_eq (unlocked dp)
  have bad : wp (unlinkBad dp) post stops middle := by
    refine unlinkBad_spec first.sound first.cached counted counts parent byUs
      (stays.mem_used parent.node) (stays.mono fun jp positive => by
        rw [first.refs]
        exact weaken jp positive) lenient ?_
    intro next second ended
    rw [locks] at second
    exact failed next (begun.trans second fun _ => id) ended
  rw [wp_ite]
  refine ⟨fun _ => bad, fun proper => ?_⟩
  obtain ⟨notDot, notDotdot⟩ := not_or.mp proper
  have opened := parent.opened.directory first.cached parent.present isDirectory
  have entries := opened.entries first.cached parent.present
  rw [wp_bind]
  refine dirlookup_spec first.sound first.cached opened
    (fun _ _ _ _ => lenient.entries) (fun _ => bad) ?_
  intro ip i index next found shift same _ _
  rw [entries] at found
  have second := shift.undone first.sound
  have total := begun.trans (second.mono (pos_of_taken_base counts)) fun _ => id
  have there : At next dp d dir :=
    parent.after second.toOutcome parent.opened.held (pos_add_single parent.opened.held) parent.node
  refine unlinkFound_spec total.sound total.cached counted
    (shift.refs.trans (by rw [counts])) there isDirectory same
    (by rw [shift.locks, first.locks, total.frame.pid])
    unlocked (total.toOutcome.retained retained) lenient large ?_ ?_ ?_ ?_ ?_
  · rintro rfl
    exact itself index notDot notDotdot found
  · rw [total.volume]
    exact untyped i index notDot notDotdot found
  · rw [total.volume]
    exact fun node => unlinked i index node notDot notDotdot found
  · intro final third ended
    exact failed final (total.trans third fun _ => id) ended
  · intro node final different inside linked empty third ended
    rw [total.volume] at inside third
    rw [total.frame.used] at third
    exact removed i index node final notDot notDotdot found different inside
      linked empty (total.toOutcome.trans third fun _ => id) ended

end

/-- The path leads to an entry that `sys_unlink` finds. -/
structure Unlinkable (os : Kernel) (path : List Byte) (d : Nat)
    (dir : Node) (i index : Nat) : Prop where
  found : ∃ name, os.walk os.refs path true = .ok (some (d, name)) ∧
    namecmp name dot ≠ 0 ∧ namecmp name dotdot ≠ 0 ∧
    lookup dir.entries name = some (i, index)
  present : os.store.volume d = some dir
  isDirectory : dir.type = tDir

theorem sysUnlink_spec {post : Int → Kernel → Prop} {argument : StringArgument}
    {path : List Byte} (quiet : Quiet os) (current : 0 < os.refs os.cwd)
    (string : argstr argument = some path) (lenient : Lenient stops)
    (large : stops (.panic "unlink: writei")) (asleep : stops .asleep)
    (stopped : ∀ reason, WalkStop reason → os.walk os.refs path true = .error reason → stops reason)
    (itself : ∀ d dir index, Unlinkable os path d dir d index → stops .deadlock)
    (untyped : ∀ d dir i index, Unlinkable os path d dir i index →
      os.store.volume i = none → stops (.panic "ilock: no type"))
    (unlinked : ∀ d dir i index node, Unlinkable os path d dir i index →
      os.store.volume i = some node →
      node.nlink.toInt < 1 → stops (.panic "unlink: nlink < 1"))
    (failed : ∀ next, Undone os.refs os next os.refs os.locks →
      Retained next os.refs → post (-1) next)
    (removed : ∀ d dir i index node next, Unlinkable os path d dir i index → d ≠ i →
      os.store.volume i = some node → ¬ node.nlink.toInt < 1 →
      (node.type = tDir → Vacant node.entries) →
      Outcome os.refs os next
        (((os.store.volume.unlinked d i index dir node).release
          (os.used os.refs) d).release (os.used os.refs) i)
        os.refs os.locks → Retained next os.refs → post 0 next) :
    wp (sysUnlink argument) post stops os := by
  have counted := quiet.cached.counted
  unfold sysUnlink
  rw [string]
  refine wp_bind_of (beginOp_spec quiet.sound quiet.cached fun _ => asleep) ?_
  intro _ begun begins
  have first := begins os.refs
  have walked := first.toOutcome.walk_eq current path true
  have retained := first.toOutcome.retained quiet.retained
  unfold nameiparent
  rw [wp_bind]
  refine namex_quiet first.sound first.cached first.refs
    (fun _ => by rw [Kernel.cwd_frame first.frame]; exact current)
    (fun jp => by rw [first.locks]; exact quiet.unlocked jp) retained
    (fun reason kind result => stopped reason kind (walked ▸ result)) ?_ ?_
  · intro next shift _
    exact endOp_undone (first.shift shift) (retained.frame shift.frame shift.store) failed
  · intro dp name next shift result
    rw [walked] at result
    obtain ⟨dir, present, isDirectory⟩ := walk_parent result
    have total := first.shift shift
    have unlinkable : ∀ i index, namecmp name dot ≠ 0 → namecmp name dotdot ≠ 0 →
        lookup dir.entries name = some (i, index) →
        Unlinkable os path (next.inum dp) dir i index :=
      fun i index notDot notDotdot found =>
        ⟨⟨name, result, notDot, notDotdot, found⟩, present, isDirectory⟩
    refine unlinkIn_spec total.sound total.cached counted shift.refs rfl
      (by rw [total.volume]; exact present) isDirectory
      (fun jp => by rw [total.locks]; exact quiet.unlocked jp)
      (total.toOutcome.retained quiet.retained) lenient large ?_ ?_ ?_ ?_ ?_
    · intro index notDot notDotdot found
      exact itself _ dir index (unlinkable _ _ notDot notDotdot found)
    · intro i index notDot notDotdot found none
      rw [total.volume] at none
      exact untyped _ dir i index (unlinkable _ _ notDot notDotdot found) none
    · intro i index node notDot notDotdot found inside
      rw [total.volume] at inside
      exact unlinked _ dir i index node (unlinkable _ _ notDot notDotdot found) inside
    · intro final third ended
      rw [total.locks] at third
      exact failed final (total.trans third fun _ => id) ended
    · intro i index node final notDot notDotdot found different inside linked empty third ended
      rw [total.volume] at inside third
      rw [total.frame.used, total.locks] at third
      exact removed _ dir i index node final
        (unlinkable _ _ notDot notDotdot found) different inside linked empty
        (total.toOutcome.trans third fun _ => id) ended

end Unlink

end Xv6.Fs
