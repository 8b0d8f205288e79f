import Xv6.Fs.Quiet

/-!
# Linking

`sys_link` in a state in which nothing else runs: what it does to the volume,
and when it waits for a lock that it holds.
-/

namespace Xv6.Fs

open Function Foundation.Program

variable {post : Int → Kernel → Prop} {stops : Stop → Prop} {os : Kernel}

section Parts

variable {base : Slot → Int} {ip dp : Slot} {i d : Nat} {node dir : Node} {name : List Byte}

/-- `ilock` of an inode that a reference is held to. -/
theorem ilock_found (sound : Sound os.store) (cached : Cached os)
    (held : 0 < os.refs ip) (number : os.inum ip = i) (free : os.locks ip = none)
    (untyped : os.store.volume i = none → stops (.panic "ilock: no type")) :
    wp (ilock ip) (fun _ next => ∃ node, os.store.volume i = some node ∧ At next ip i node ∧
        Undone os.refs os next os.refs (update os.locks ip (some os.pid)))
      stops os := by
  subst number
  refine wp_mono (ilock_spec cached held (.of_free free) fun none =>
    untyped (volume_eq_none none)) ?_ fun _ => id
  rintro _ next ⟨shift, valid, -⟩
  have opened : Open next ip := ⟨by rw [shift.refs]; exact held, valid⟩
  have same := shift.frame.inum ip held
  have present := opened.volume shift.cached
  rw [same] at present
  exact ⟨_, by rw [← shift.store]; exact present, ⟨opened, same, present⟩, shift.undone sound⟩

variable {locks : Slot → Option Nat}

/-- A lock that was taken is given back. -/
theorem unlock_eq {holder : Option Nat}
    (free : locks ip = none) : update (update locks ip holder) ip none = locks := by
  rw [update_idem, ← free, update_eq_self]

/-- Inodes without links are in use after an inode that is in use changed. -/
theorem Retained.update {next : Kernel} {node' : Node}
    (retained : Retained os os.refs) (here : At next ip i node') (held : 0 < os.refs ip)
    (outcome : Outcome os.refs os next
      (update os.store.volume i (some node')) os.refs locks) : Retained next os.refs := by
  intro inum other present unlinked
  by_cases same : inum = i
  · exact ⟨ip, held, here.number.trans same.symm, here.opened.valid⟩
  · rw [outcome.volume, update_of_ne same] at present
    obtain ⟨jp, jpHeld, number, valid⟩ := retained inum other present unlinked
    exact ⟨jp, jpHeld, (outcome.frame.inum jp jpHeld).trans number,
      outcome.frame.valid jp jpHeld valid⟩

/-- A changed link count is written back. -/
theorem iupdate_relinked (cached : Cached os) (here : At os ip i node)
    (nlink : BitVec 16) (lenient : Lenient stops) :
    wp (iupdate ip) (fun _ next => Relinked os.store next.store) stops
      (os.setInode ip { os.icache ip with
        dinode := { (os.icache ip).dinode with nlink := nlink } }) := by
  unfold iupdate
  simp only [wp_bind, wp_getInode, setInode_self, wp_onStore, setInode_store]
  refine wp_mono (writeDinode_spec _ _ lenient) ?_ fun _ => id
  rintro _ store written
  refine written.relinked (here.opened.inside cached) nlink ?_
  rw [here.opened.copy cached]
  rfl

theorem linkBad_spec (sound : Sound os.store) (cached : Cached os)
    (counted : ∀ jp, 0 ≤ base jp) (refs : os.refs = base + Pi.single ip 1)
    (here : At os ip i node) (free : os.locks ip = none)
    (retained : Retained os os.refs) (lenient : Lenient stops) :
    wp (linkBad ip) (fun result next => result = -1 ∧ Outcome base os next
          (Volume.release (update os.store.volume i (some { node with nlink := node.nlink - 1 }))
            (os.used base) i)
          base os.locks ∧
        Retained next base ∧
        ((node.nlink - 1 = 0 → i ∈ os.used base) → Relinked os.store next.store))
      stops os := by
  have held := here.opened.held
  have weaken := pos_of_taken_base refs
  unfold linkBad
  refine wp_bind_of (ilock_found sound cached held here.number free
    fun none => by rw [here.node] at none; cases none) ?_
  rintro _ locked ⟨_, present, there, first⟩
  cases here.node.symm.trans present
  rw [wp_bind, wp_modifyDinode]
  refine wp_bind_of (wp_and (iupdate_nlink_spec first.sound first.cached there
    rfl rfl rfl lenient) (iupdate_relinked first.cached there _ lenient)) ?_
  rintro _ counted' ⟨second, relinked⟩
  rw [there.nlink first.cached, first.volume, first.refs, first.locks] at second
  have total := first.toOutcome.trans second fun _ => id
  have now := there.after second held held (update_self ..)
  have kept := retained.update now held total
  refine wp_bind_of (iunlockput_release total.sound total.cached counted (total.refs.trans refs) now
    (by rw [total.locks, update_self, total.frame.pid]) lenient) ?_
  rintro _ released ⟨third, stays, store⟩
  rw [total.volume, (total.frame.mono weaken).used, total.locks, unlock_eq free] at third
  rw [total.volume, (total.frame.mono weaken).used] at store
  refine endOp_return ((total.mono weaken).trans third fun _ => id)
    (stays (by rw [total.refs]; exact kept)) fun next outcome last ended =>
      ⟨rfl, outcome, last, fun still => ?_⟩
  have same := store (Volume.release_eq (update_self ..) still)
  rw [same] at ended
  exact (first.relinked.trans relinked).trans ended

theorem linkIn_spec (sound : Sound os.store) (cached : Cached os) (counted : ∀ jp, 0 ≤ base jp)
    (refs : os.refs = base + Pi.single ip 1 + Pi.single dp 1)
    (here : At os ip i node) (number : os.inum dp = d) (present : os.store.volume d = some dir)
    (isDirectory : dir.type = tDir) (apart : i ≠ d) (unlocked : ∀ jp, os.locks jp = none)
    (retained : dir.nlink = 0 → d ∈ os.used base)
    (kept : Retained os os.refs) (lenient : Lenient stops) (large : stops (.panic "dirlink"))
    (itself : ∀ index, lookup dir.entries name = some (d, index) → stops .deadlock)
    (failed : ∀ next, Outcome base os next (Volume.release (update os.store.volume i
            (some { node with nlink := node.nlink - 1 }))
          (os.used base) i)
        base os.locks → Retained next base →
        ((node.nlink - 1 = 0 → i ∈ os.used base) → Relinked os.store next.store) → post (-1) next)
    (added : ∀ next, lookup dir.entries name = none → Outcome base os next
        (Volume.release (update os.store.volume d (some { dir with
              entries := insertEntry dir.entries (linkEntry name i) }))
          (os.used base) i)
        base os.locks → Retained next base → post 0 next) :
    wp (linkIn ip dp name) post stops os := by
  have counted' : ∀ jp, 0 ≤ (base + Pi.single ip 1 : Slot → Int) jp :=
    fun jp => nonneg_add_single (counted jp)
  have held := pos_of_taken refs (counted' dp)
  have weaken := pos_of_taken_base refs
  have more : ∀ jp, 0 < base jp → 0 < (base + Pi.single ip 1 : Slot → Int) jp :=
    fun _ => pos_add_single
  have ipHeld : 0 < (base + Pi.single ip 1 : Slot → Int) ip := pos_add_single_self (counted ip)
  have busy : os.used base ⊆ os.used (base + Pi.single ip 1) := by
    rw [used_add_single counted]
    exact Finset.subset_insert ..
  unfold linkIn
  refine wp_bind_of (ilock_found sound cached held number (unlocked dp)
    fun none => by rw [present] at none; cases none) ?_
  rintro _ locked ⟨_, again, parent, first⟩
  cases present.symm.trans again
  have there : At locked ip i node :=
    here.after first.toOutcome (weaken ip ipHeld) (weaken ip ipHeld) here.node
  have devices : (locked.icache dp).dev = (locked.icache ip).dev :=
    (first.cached.device dp parent.opened.held).trans
      (first.cached.device ip there.opened.held).symm
  have pid : locked.pid = os.pid := first.frame.pid
  have byUs : locked.locks dp = some locked.pid := by
    rw [first.locks, update_self, pid]
  simp only [wp_bind, wp_getInode]
  rw [if_neg (not_not_intro devices), wp_bind]
  have inum : (locked.icache ip).inum = i := there.number
  rw [inum]
  refine dirlink_spec first.sound first.cached parent.opened parent.present
    isDirectory (there.inside first.cached) lenient large ?_ ?_ ?_
  · intro jp other index found entry holder holds
    rw [first.locks, update_apply] at holds
    split at holds
    case isTrue same =>
      subst same
      cases holds
      rw [if_pos pid.symm]
      rw [← entry parent.opened.held, parent.number] at found
      exact itself index found
    case isFalse => rw [unlocked jp] at holds; cases holds
  · intro other index next found shift _
    have second := shift.undone first.sound
    rw [first.refs, first.locks] at second
    have total := first.trans second fun _ => id
    have stays := parent.after second.toOutcome held held (first.volume ▸ present)
    have now := total.retained kept
    rw [if_pos (by decide), wp_bind]
    refine wp_mono (iunlockput_kept total.sound total.cached counted' (total.refs.trans refs) stays
      (by rw [total.locks, update_self, total.frame.pid])
      (by rw [(total.frame.mono weaken).used]; exact fun unlinked =>
        busy (retained unlinked)) lenient) ?_ fun _ => id
    rintro _ released ⟨third, after⟩
    rw [total.locks, unlock_eq (unlocked dp)] at third
    have all := (total.mono weaken).trans third fun _ => id
    have back : At released ip i node := here.after all.toOutcome ipHeld ipHeld here.node
    refine wp_mono (linkBad_spec all.sound all.cached counted all.refs back
      (by rw [all.locks]; exact unlocked ip)
      (by rw [all.refs]; exact after (by rw [total.refs]; exact now)) lenient) ?_
      fun _ => id
    rintro _ final ⟨rfl, last, ended, relinked⟩
    rw [all.volume, ((all.frame).mono more).used, all.locks] at last
    rw [((all.frame).mono more).used] at relinked
    exact failed final ((all.mono more).toOutcome.trans last fun _ => id) ended
      fun still => all.relinked.trans (relinked still)
  · intro next absent second
    rw [first.volume, first.refs, first.locks, parent.number] at second
    have total := first.toOutcome.trans second fun _ => id
    have grown := parent.after second held held (update_self ..)
    have now := kept.update grown held total
    rw [if_neg (by decide), wp_bind]
    refine wp_mono (iunlockput_kept total.sound total.cached counted' (total.refs.trans refs) grown
      (by rw [total.locks, update_self, total.frame.pid])
      (by rw [(total.frame.mono weaken).used]; exact fun unlinked =>
        busy (retained unlinked)) lenient) ?_ fun _ => id
    rintro _ released ⟨undone, after⟩
    have third := undone.toOutcome
    rw [total.volume, total.locks, unlock_eq (unlocked dp)] at third
    have all := (total.mono weaken).trans third fun _ => id
    have back : At released ip i node :=
      here.after all ipHeld ipHeld (by
        rw [update_of_ne apart]
        exact here.node)
    rw [wp_bind]
    refine wp_mono (iput_release all.sound all.cached counted all.refs
      back.number (fun _ _ _ => back.opened.valid)
      (by rw [all.locks]; exact unlocked ip) lenient) ?_ fun _ => id
    rintro _ dropped ⟨fourth, ended, -⟩
    rw [all.volume, (all.frame.mono more).used, all.locks] at fourth
    exact endOp_return ((all.mono more).trans fourth fun _ => id)
      (ended (by rw [all.refs]; exact after (by rw [total.refs]; exact now)))
      fun final outcome last _ => added final absent outcome last

/-- The volume after an entry for an inode is made. -/
def Volume.linked (volume : Volume) (d i : Nat) (dir node : Node) (name : List Byte) : Volume :=
  update (update volume i (some { node with nlink := node.nlink + 1 }))
    d (some { dir with
      entries := insertEntry dir.entries (linkEntry name i) })

/-- A change of a link count does not matter for walking. -/
theorem walk_nlink {volume : Volume} {used : Finset Nat} {cwd : Nat} {path : List Byte}
    {parent : Bool} {nlink : BitVec 16} (present : volume i = some node) :
    walk (update volume i (some { node with nlink := nlink })) used cwd
      path parent = walk volume used cwd path parent := by
  refine walk_congr fun inum => ?_
  rw [update_apply]
  split
  case isTrue same =>
    rw [same, present]
    rfl
  case isFalse => rfl

/-- A link is counted and taken back. -/
theorem Volume.release_restored {volume : Volume} {used : Finset Nat}
    (present : volume i = some node) (retained : node.nlink = 0 → i ∈ used) :
    Volume.release (update (update volume i (some { node with nlink := node.nlink + 1 }))
        i (some { node with nlink := node.nlink + 1 - 1 })) used i = volume := by
  have restored : { node with nlink := node.nlink + 1 - 1 } = node := by
    rw [BitVec.add_sub_cancel]
  rw [restored, update_idem, ← present, update_eq_self]
  exact Volume.release_eq present retained

/-- `sys_link` of an inode that is found and locked. -/
theorem linkInode_spec {new : List Byte} (sound : Sound os.store) (cached : Cached os)
    (counted : ∀ jp, 0 ≤ base jp) (refs : os.refs = base + Pi.single ip 1)
    (current : 0 < base os.cwd) (here : At os ip i node)
    (notDirectory : node.type ≠ tDir) (locked : os.locks ip = some os.pid)
    (unlocked : ∀ jp, update os.locks ip none jp = none)
    (retained : Retained os base) (lenient : Lenient stops) (large : stops (.panic "dirlink"))
    (stopped : ∀ reason, WalkStop reason → walk os.store.volume (insert i (os.used base))
        (os.inum os.cwd) new true = .error reason → stops reason)
    (itself : ∀ d name dir index, walk os.store.volume (insert i (os.used base))
        (os.inum os.cwd) new true = .ok (some (d, name)) →
      os.store.volume d = some dir →
      lookup dir.entries name = some (d, index) → stops .deadlock)
    (failed : ∀ next, Undone base os next base (update os.locks ip none) → Retained next base →
      post (-1) next)
    (linked : ∀ d name dir next, walk os.store.volume (insert i (os.used base))
        (os.inum os.cwd) new true = .ok (some (d, name)) →
      os.store.volume d = some dir → dir.type = tDir →
      lookup dir.entries name = none →
      Outcome base os next
        ((os.store.volume.linked d i dir node name).release (os.used base) i)
        base (update os.locks ip none) → Retained next base →
      post 0 next) : wp (linkInode ip new) post stops os := by
  have held := here.opened.held
  have weaken := pos_of_taken_base refs
  have more : ∀ jp, 0 < base jp → 0 < (base + Pi.single ip 1 : Slot → Int) jp :=
    fun _ => pos_add_single
  have ipHeld : 0 < (base + Pi.single ip 1 : Slot → Int) ip := pos_add_single_self (counted ip)
  unfold linkInode
  rw [wp_bind, wp_modifyDinode]
  refine wp_bind_of (wp_and (iupdate_nlink_spec sound cached here rfl rfl rfl
    lenient) (iupdate_relinked cached here _ lenient)) ?_
  rintro _ written ⟨first, relinked⟩
  rw [here.nlink cached] at first
  have now := here.after first held held (update_self ..)
  refine wp_bind_of (iunlock_spec first.cached now.opened.held
    (by rw [first.locks, locked, first.frame.pid])) ?_
  intro _ middle shift
  have second := shift.outcome first.sound
  rw [first.volume, first.refs, first.locks] at second
  have total := first.trans second fun _ => id
  have there := now.after second held held (update_self ..)
  have frame := total.frame.mono weaken
  have kept := (retained.mono weaken).update there held total
  rw [refs] at kept
  rw [← shift.store] at relinked
  have cwd := Kernel.cwd_frame frame
  have used : middle.used (base + Pi.single ip 1) = insert i (os.used base) := by
    rw [used_add_single counted, there.number, frame.used]
  have walked : middle.walk (base + Pi.single ip 1) new true =
      walk os.store.volume (insert i (os.used base)) (os.inum os.cwd) new true := by
    unfold Kernel.walk
    rw [total.volume, walk_nlink here.node, used, cwd, frame.inum _ current]
  have stillUsed : node.nlink + 1 - 1 = 0 → i ∈ os.used base := by
    rw [BitVec.add_sub_cancel]
    exact retained.mem_used here.node
  unfold nameiparent
  rw [wp_bind]
  refine namex_quiet total.sound total.cached (total.refs.trans refs)
    (fun _ => by rw [cwd]; exact more _ current)
    (fun jp => by rw [total.locks]; exact unlocked jp) kept ?_ ?_ ?_
  · intro reason kind result
    exact stopped reason kind (walked ▸ result)
  · intro next third _
    have visited := third.outcome total.sound
    rw [total.volume, total.locks] at visited
    have all := (total.mono weaken).trans visited more
    refine wp_mono (linkBad_spec visited.sound visited.cached counted
      visited.refs (there.after visited ipHeld ipHeld (update_self ..))
      (by rw [visited.locks]; exact unlocked ip)
      (by rw [visited.refs]; exact kept.frame third.frame third.store) lenient)
      ?_ fun _ => id
    rintro _ final ⟨rfl, last, ended, back⟩
    rw [visited.volume, all.frame.used, visited.locks,
      Volume.release_restored here.node (retained.mem_used here.node)] at last
    rw [all.frame.used, third.store] at back
    exact failed final ⟨all.trans last fun _ => id, relinked.trans (back stillUsed)⟩ ended
  · intro dp last next third result
    rw [walked] at result
    obtain ⟨dir, present, isDirectory⟩ := walk_parent result
    have apart : i ≠ next.inum dp := by
      intro same
      rw [← same, here.node] at present
      cases present
      exact notDirectory isDirectory
    have visited := third.outcome total.sound
    rw [total.volume, total.locks] at visited
    have all := (total.mono weaken).trans visited more
    have parent : next.store.volume (next.inum dp) = some dir := by
      rw [visited.volume, update_of_ne apart.symm]
      exact present
    refine linkIn_spec visited.sound visited.cached counted visited.refs
      (there.after visited ipHeld (pos_add_single ipHeld)
        (update_self ..)) rfl parent isDirectory apart
      (fun jp => by rw [visited.locks]; exact unlocked jp) ?_
      (by
        rw [visited.refs]
        exact (kept.frame third.frame third.store).mono
          fun _ => pos_add_single)
      lenient large ?_ ?_ ?_
    · rw [all.frame.used]
      exact retained.mem_used present
    · intro index found
      exact itself _ last dir index result present found
    · intro final fourth ended back
      rw [visited.volume, all.frame.used, visited.locks,
        Volume.release_restored here.node (retained.mem_used here.node)] at fourth
      rw [all.frame.used, third.store] at back
      exact failed final ⟨all.trans fourth fun _ => id, relinked.trans (back stillUsed)⟩ ended
    · intro final absent fourth ended
      rw [visited.volume, all.frame.used, visited.locks] at fourth
      exact linked _ last dir final result present isDirectory absent
        (all.trans fourth fun _ => id) ended

end Parts

section Link

variable {old new : StringArgument} {oldPath newPath : List Byte}

/-- The path leads to an inode that can be linked. -/
structure Linkable (os : Kernel) (path : List Byte) (i : Nat) (node : Node) : Prop where
  found : ∃ last, os.walk os.refs path false = .ok (some (i, last))
  present : os.store.volume i = some node
  notDirectory : node.type ≠ tDir

/-- The walk to a parent directory while one more inode is in use. -/
def Kernel.walkBeside (os : Kernel) (i : Nat) (path : List Byte) :
    Except Stop (Option (Nat × List Byte)) :=
  Fs.walk os.store.volume (insert i (os.used os.refs))
    (os.inum os.cwd) path true

/-- Walking does not depend on the log or the state of the cache. -/
theorem Outcome.walk_eq {next : Kernel} {refs : Slot → Int} {locks : Slot → Option Nat}
    (outcome : Outcome os.refs os next os.store.volume refs locks)
    (current : 0 < os.refs os.cwd) (path : List Byte) (parent : Bool) :
    next.walk os.refs path parent = os.walk os.refs path parent := by
  unfold Kernel.walk
  rw [outcome.volume, outcome.frame.used, Kernel.cwd_frame outcome.frame,
    outcome.frame.inum _ current]

theorem sysLink_spec (quiet : Quiet os) (current : 0 < os.refs os.cwd)
    (oldString : argstr old = some oldPath)
    (newString : argstr new = some newPath) (lenient : Lenient stops)
    (large : stops (.panic "dirlink")) (asleep : stops .asleep)
    (stopped : ∀ reason, WalkStop reason →
      os.walk os.refs oldPath false = .error reason → stops reason)
    (untyped : ∀ i last, os.walk os.refs oldPath false = .ok (some (i, last)) →
      os.store.volume i = none → stops (.panic "ilock: no type"))
    (stoppedAfter : ∀ i node reason, Linkable os oldPath i node →
      WalkStop reason → os.walkBeside i newPath = .error reason →
      stops reason)
    (itself : ∀ i node d name dir index, Linkable os oldPath i node →
      os.walkBeside i newPath = .ok (some (d, name)) →
      os.store.volume d = some dir →
      lookup dir.entries name = some (d, index) → stops .deadlock)
    (failed : ∀ next, Undone os.refs os next os.refs os.locks →
      Retained next os.refs → post (-1) next)
    (linked : ∀ i node d name dir next, Linkable os oldPath i node →
      os.walkBeside i newPath = .ok (some (d, name)) →
      os.store.volume d = some dir → dir.type = tDir →
      lookup dir.entries name = none →
      Outcome os.refs os next
        ((os.store.volume.linked d i dir node name).release (os.used os.refs) i)
        os.refs os.locks → Retained next os.refs → post 0 next) :
    wp (sysLink old new) post stops os := by
  have counted := quiet.cached.counted
  unfold sysLink
  rw [oldString, newString]
  refine wp_bind_of (beginOp_spec quiet.sound quiet.cached fun _ => asleep) ?_
  intro _ begun begins
  have first := begins os.refs
  have walked := first.toOutcome.walk_eq current
  have retained := first.retained quiet.retained
  unfold namei
  simp only [wp_bind, wp_pure]
  refine namex_quiet first.sound first.cached first.refs
    (fun _ => by rw [Kernel.cwd_frame first.frame]; exact current)
    (fun jp => by rw [first.locks]; exact quiet.unlocked jp) retained
    (fun reason kind result => stopped reason kind (walked .. ▸ result)) ?_ ?_
  · intro next shift _
    exact endOp_undone (first.shift shift) (retained.frame shift.frame shift.store) failed
  · intro ip last next shift result
    rw [walked] at result
    have total := first.shift shift
    have held := pos_of_taken shift.refs (counted ip)
    have weaken := pos_of_taken_base shift.refs
    have free : next.locks ip = none := by
      rw [total.locks]
      exact quiet.unlocked ip
    simp only [Option.map_some, wp_bind, wp_getInode]
    refine wp_mono (ilock_found total.sound total.cached held rfl free
      fun none => untyped _ last result (total.volume ▸ none)) ?_ fun _ => id
    rintro _ locked ⟨node, present, here, third⟩
    rw [total.volume] at present
    rw [total.locks, total.frame.pid] at third
    have all := total.trans third weaken
    have byUs : locked.locks ip = some locked.pid := by
      rw [all.locks, update_self, all.frame.pid]
    have counts : locked.refs = os.refs + Pi.single ip 1 := third.refs.trans shift.refs
    have stays := all.retained quiet.retained
    have back : update locked.locks ip none = os.locks := by
      rw [all.locks]
      exact unlock_eq (quiet.unlocked ip)
    rw [here.type third.cached, wp_ite]
    refine ⟨fun dir => ?_, fun notDirectory => ?_⟩
    · rw [wp_bind]
      refine wp_mono (iunlockput_kept third.sound third.cached counted counts
        here byUs (stays.mem_used here.node) lenient) ?_ fun _ => id
      rintro _ released ⟨fourth, ended⟩
      rw [back] at fourth
      exact endOp_undone (all.trans fourth fun _ => id) (ended (by
        rw [counts]
        exact stays.mono fun _ => pos_add_single)) failed
    · have linkable : Linkable os oldPath (next.inum ip) node :=
        ⟨⟨last, result⟩, present, notDirectory⟩
      have beside : walk locked.store.volume (insert (next.inum ip) (locked.used os.refs))
          (locked.inum locked.cwd) newPath true =
          os.walkBeside (next.inum ip) newPath := by
        unfold Kernel.walkBeside
        rw [all.volume, all.frame.used, Kernel.cwd_frame all.frame, all.frame.inum _ current]
      refine linkInode_spec third.sound third.cached counted counts
        (by rw [Kernel.cwd_frame all.frame]; exact current) here notDirectory
        byUs (fun jp => by rw [back]; exact quiet.unlocked jp) stays lenient
        large ?_ ?_ ?_ ?_
      · rw [beside]
        exact fun reason kind => stoppedAfter _ node reason linkable kind
      · rw [beside, all.volume]
        exact fun d name dir index =>
          itself _ node d name dir index linkable
      · intro final fourth ended
        rw [back] at fourth
        exact failed final (all.trans fourth fun _ => id) ended
      · intro d name dir final
        rw [beside, all.volume, all.frame.used, back]
        intro parent there isDirectory absent fourth ended
        exact linked _ node d name dir final linkable parent there
          isDirectory absent (all.toOutcome.trans fourth fun _ => id) ended

end Link

end Xv6.Fs
