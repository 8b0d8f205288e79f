import Xv6.Fs.Creation

/-!
# Calls while nothing else runs

Between calls no inode is locked, and every inode without links is in use.
This module has the parts of calls in such a state: `begin_op` and `end_op`,
walking a path, and giving references up.
-/

namespace Xv6.Fs

open Function Foundation.Program

/-- No inode is locked, and inodes without links are in use. -/
structure Quiet (os : Kernel) : Prop where
  sound : Sound os.store
  cached : Cached os
  unlocked : ∀ ip, os.locks ip = none
  retained : Retained os os.refs

/-! ## Changes of link counts only -/

/-- Nothing but link counts changed on the disk. -/
structure Relinked (store next : Store) : Prop where
  sb : next.sb = store.sb
  dinode : ∀ inum, ∃ nlink, next.dinode inum = { store.dinode inum with nlink := nlink }
  blocks : ∀ number, (∀ inum < store.sb.ninodes, number ≠ store.sb.iblock inum) →
      next.blocks number = store.blocks number

variable {inum : Nat}

section Relinked

variable {store middle next : Store} {dinode : Dinode}

theorem Relinked.of_blocks (sb : next.sb = store.sb) (blocks : next.blocks = store.blocks) :
    Relinked store next where
  sb := sb
  dinode := fun inum => by
    unfold Store.dinode
    rw [sb, blocks]
    exact ⟨_, rfl⟩
  blocks := fun number _ => congrFun blocks number

theorem Relinked.trans (first : Relinked store middle) (second : Relinked middle next) :
    Relinked store next where
  sb := second.sb.trans first.sb
  dinode := fun inum => by
    obtain ⟨_, before⟩ := first.dinode inum
    obtain ⟨nlink, after⟩ := second.dinode inum
    exact ⟨nlink, by rw [after, before]⟩
  blocks := fun number apart => by
    rw [second.blocks number (by rw [first.sb]; exact apart), first.blocks number apart]

/-- The link count of an inode is written. -/
theorem DinodeWritten.relinked (written : DinodeWritten store next inum dinode)
    (inside : inum < store.sb.ninodes) (nlink : BitVec 16)
    (same : dinode = { store.dinode inum with nlink := nlink }) : Relinked store next where
  sb := written.kept.sb
  dinode := fun other => by
    rw [written.dinode]
    split
    case isTrue here => exact ⟨nlink, by rw [here]; exact same⟩
    case isFalse => exact ⟨_, rfl⟩
  blocks := fun number apart => written.blocks number (apart inum inside)

/-- The fields and the contents of an inode. -/
def Store.file (store : Store) (inum : Nat) : Option (Dinode × (Nat → Option Block)) :=
  if inum < store.sb.ninodes ∧ (store.dinode inum).type ≠ 0 then
    some (store.dinode inum, contents store.blocks (store.dinode inum))
  else none

/-- If the volume is the same as well, all files are. -/
theorem Relinked.file_eq (relinked : Relinked store next) (sound : Sound store)
    (volume : next.volume = store.volume) : next.file = store.file := by
  funext inum
  unfold Store.file
  rw [relinked.sb]
  obtain ⟨nlink, dinode⟩ := relinked.dinode inum
  have type : (next.dinode inum).type = (store.dinode inum).type := by
    rw [dinode]
  rw [type]
  refine if_ctx_congr Iff.rfl (fun ⟨inside, allocated⟩ => ?_) fun _ => rfl
  have here : store.volume inum = some ((store.dinode inum).node store.blocks) :=
    volume_eq_some.mpr ⟨inside, allocated, rfl⟩
  have same := volume ▸ here
  rw [volume_eq_some] at same
  have links : nlink = (store.dinode inum).nlink := by
    have equal := congrArg Node.nlink same.2.2
    rw [dinode] at equal
    exact equal
  rw [dinode, links]
  have kept : contents next.blocks (store.dinode inum) =
      contents store.blocks (store.dinode inum) := by
    refine (contents_congr fun pos small mapped => ?_).2
    refine relinked.blocks _ fun other otherInside => ?_
    exact sound.balanced.ne_iblock sound.valid otherInside
      (owned_eq_some.mpr ⟨inside, allocated, small, mapped, rfl⟩)
  rw [kept]

end Relinked

variable {stops : Stop → Prop} {volume : Volume}

section Outcome

variable {base base' refs : Slot → Int} {os next : Kernel} {locks : Slot → Option Nat}

theorem Outcome.refl (base : Slot → Int) (sound : Sound os.store) (cached : Cached os) :
    Outcome base os os os.store.volume os.refs os.locks :=
  ⟨sound, cached, .refl base os, rfl, rfl, rfl⟩

theorem Outcome.mono (outcome : Outcome base' os next volume refs locks)
    (fewer : ∀ ip, 0 < base ip → 0 < base' ip) : Outcome base os next volume refs locks :=
  { outcome with frame := outcome.frame.mono fewer }

theorem Visit.shift (visit : Visit base os next refs locks)
    (retained : Retained os base) : Shift base os next refs locks :=
  ⟨visit.cached, visit.frame, visit.store retained, visit.refs, visit.locks⟩

/-- Inodes without links stay in use. -/
theorem Outcome.retained (outcome : Outcome base os next os.store.volume refs locks)
    (retained : Retained os base) : Retained next base := by
  intro inum node present unlinked
  rw [outcome.volume] at present
  obtain ⟨ip, held, same, valid⟩ := retained inum node present unlinked
  exact ⟨ip, held, (outcome.frame.inum ip held).trans same, outcome.frame.valid ip held valid⟩

/-- The counts and the locks changed, and the volume is the same again. -/
structure Undone (base : Slot → Int) (os next : Kernel)
    (refs : Slot → Int) (locks : Slot → Option Nat) : Prop
    extends Outcome base os next os.store.volume refs locks where
  relinked : Relinked os.store next.store

theorem Shift.undone (shift : Shift base os next refs locks)
    (sound : Sound os.store) : Undone base os next refs locks where
  toOutcome := shift.outcome sound
  relinked := by
    rw [shift.store]
    exact .of_blocks rfl rfl

variable {middle : Kernel}

theorem Undone.trans {refs' : Slot → Int} {locks' : Slot → Option Nat}
    (first : Undone base os middle refs locks) (second : Undone base' middle next refs' locks')
    (fewer : ∀ ip, 0 < base ip → 0 < base' ip) : Undone base os next refs' locks' where
  toOutcome := by
    have rest := second.toOutcome
    rw [first.volume] at rest
    exact first.toOutcome.trans rest fewer
  relinked := first.relinked.trans second.relinked

theorem Undone.shift {refs' : Slot → Int} (first : Undone base os middle refs locks)
    (shift : Shift base middle next refs' middle.locks) : Undone base os next refs' locks := by
  have second := shift.undone first.sound
  rw [first.locks] at second
  exact first.trans second fun _ => id

theorem Undone.mono (undone : Undone base' os next refs locks)
    (fewer : ∀ ip, 0 < base ip → 0 < base' ip) : Undone base os next refs locks :=
  { undone with toOutcome := undone.toOutcome.mono fewer }

/-! ## Transactions -/

/-- The disk does not change with the log. -/
theorem Sound.logged {store : Store} (sound : Sound store) (outstanding : Nat) (logged : List Nat) :
    Sound { store with outstanding := outstanding, logged := logged } :=
  ⟨sound.valid, sound.balanced, sound.formed, sound.within⟩

theorem Outcome.logged (sound : Sound os.store) (cached : Cached os)
    (outstanding : Nat) (logged : List Nat) :
    Outcome base os
      (os.setStore { os.store with
        outstanding := outstanding, logged := logged })
      os.store.volume os.refs os.locks where
  sound := sound.logged outstanding logged
  cached := ⟨cached.counted, cached.device, cached.inside, cached.unique, cached.agrees⟩
  frame := ⟨rfl, rfl, fun _ _ => rfl, fun _ _ valid => valid⟩
  volume := rfl
  refs := rfl
  locks := rfl

/-- `begin_op` has to wait for room in the log. -/
def Store.Full (store : Store) : Prop :=
  Log.logsize < store.logged.length + (store.outstanding + 1) * Log.maxopblocks

theorem beginOp_spec (sound : Sound os.store) (cached : Cached os)
    (asleep : os.store.Full → stops .asleep) :
    wp (onStore beginOp) (fun _ next => ∀ base, Undone base os next os.refs os.locks)
      stops os := by
  simp only [wp_onStore, beginOp, wp_bind, wp_get, wp_ite, wp_throw, wp_set]
  exact ⟨asleep, fun _ _ =>
    ⟨.logged sound cached _ _, .of_blocks rfl rfl⟩⟩

theorem endOp_spec (sound : Sound os.store) (cached : Cached os) : wp (onStore endOp)
      (fun _ next => ∀ base, Undone base os next os.refs os.locks)
      stops os := by
  simp only [wp_onStore, endOp, wp_modify]
  exact fun _ => ⟨.logged sound cached _ _, .of_blocks rfl rfl⟩

variable {post : Int → Kernel → Prop}

/-- The end of a call. -/
theorem endOp_return {result : Int}
    (outcome : Outcome base os middle volume refs locks) (retained : Retained middle refs)
    (returns : ∀ next, Outcome base os next volume refs locks →
      Retained next refs → Relinked middle.store next.store →
      post result next) : wp (do onStore endOp; return result) post stops middle := by
  refine wp_bind_of (endOp_spec outcome.sound outcome.cached) ?_
  intro _ next last
  refine returns next ?_ ((last refs).retained retained) (last refs).relinked
  have ended := (last base).toOutcome
  rw [outcome.volume, outcome.refs, outcome.locks] at ended
  exact outcome.trans ended fun _ => id

/-- The end of a call that fails. -/
theorem endOp_undone {result : Int}
    (undone : Undone base os middle refs locks) (retained : Retained middle refs)
    (returns : ∀ next, Undone base os next refs locks → Retained next refs → post result next) :
    wp (do onStore endOp; return result) post stops middle :=
  endOp_return undone.toOutcome retained fun next outcome kept relinked =>
    returns next ⟨outcome, undone.relinked.trans relinked⟩ kept

end Outcome

/-! ## Walking -/

variable {base : Slot → Int} {os : Kernel}

section Walk

variable {path : List Byte} {parent : Bool}

/-- The walk of a path for the process that runs. -/
def Kernel.walk (os : Kernel) (base : Slot → Int) (path : List Byte)
    (parent : Bool) : Except Stop (Option (Nat × List Byte)) :=
  Fs.walk os.store.volume (os.used base) (os.inum os.cwd) path parent

theorem Kernel.cwd_frame {next : Kernel} (frame : Frame base os next) : next.cwd = os.cwd := by
  unfold Kernel.cwd
  rw [frame.procs, frame.cur]

theorem namex_quiet {post : Option (Slot × List Byte) → Kernel → Prop}
    (sound : Sound os.store) (cached : Cached os) (refs : os.refs = base)
    (current : path.head? ≠ some slash → 0 < base os.cwd)
    (unlocked : ∀ ip, os.locks ip = none) (retained : Retained os base)
    (stopped : ∀ reason, WalkStop reason → os.walk base path parent = .error reason → stops reason)
    (missing : ∀ next, Shift base os next base os.locks →
      os.walk base path parent = .ok none → post none next)
    (found : ∀ ip last next, Shift base os next (base + Pi.single ip 1) os.locks →
      os.walk base path parent = .ok (some (next.inum ip, last)) →
      post (some (ip, last)) next) : wp (namex path parent) post stops os := by
  refine wp_mono (namex_spec sound cached refs (refs ▸ current)
    (fun jp => .of_free (unlocked jp)) (fun loose => absurd retained loose)
    fun reason kind walked => stopped reason kind (walked retained)) ?_
    fun _ => id
  rintro (_ | ⟨ip, last⟩) next resolved
  · exact missing next (resolved.1.shift retained) (resolved.2 retained)
  · exact found ip last next (resolved.1.shift retained) (resolved.2.1 retained)

variable {volume volume' : Volume}

/-- Whether a path can be resolved does not depend on link counts. -/
theorem walkFrom_congr {used : Finset Nat}
    (same : ∀ inum, (volume' inum).map (fun node => (node.type, node.entries)) =
      (volume inum).map fun node => (node.type, node.entries))
    {fuel inum : Nat} {name : List Byte} :
    walkFrom volume' used parent fuel path inum name =
      walkFrom volume used parent fuel path inum name := by
  induction fuel generalizing path inum name with
  | zero => rfl
  | succ fuel ih =>
    unfold walkFrom
    have here := same inum
    cases before : volume inum with
    | none =>
      rw [before, Option.map_none, Option.map_eq_none_iff] at here
      rw [here]
    | some node =>
      rw [before, Option.map_some, Option.map_eq_some_iff] at here
      obtain ⟨node', after, equal⟩ := here
      rw [after]
      obtain ⟨type, entries⟩ := Prod.mk.inj equal
      simp only [type, entries, ih]

theorem walk_congr {used : Finset Nat} {cwd : Nat}
    (same : ∀ inum, (volume' inum).map (fun node => (node.type, node.entries)) =
      (volume inum).map fun node => (node.type, node.entries)) :
    walk volume' used cwd path parent = walk volume used cwd path parent := by
  unfold walk
  rw [walkFrom_congr same, walkFrom_congr same]

end Walk

/-! ## Giving references up -/

section Release

variable {ip : Slot} {used : Finset Nat}

/-- The volume when a reference to an inode is given up and the inodes `used`
stay in use. -/
def Volume.release (volume : Volume) (used : Finset Nat) (inum : Nat) : Volume :=
  match volume inum with
  | none => volume
  | some node =>
    if node.nlink = 0 ∧ inum ∉ used then Function.update volume inum none
    else volume

theorem Volume.release_of_used (present : inum ∈ used) : volume.release used inum = volume := by
  unfold Volume.release
  split
  · rfl
  · exact if_neg fun both => both.2 present

variable {node : Node}

theorem Volume.release_of_linked (present : volume inum = some node) (linked : node.nlink ≠ 0) :
    volume.release used inum = volume := by
  unfold Volume.release
  rw [present]
  exact if_neg fun both => linked both.1

theorem Volume.release_of_ne {other : Nat} (apart : other ≠ inum) :
    volume.release used inum other = volume other := by
  unfold Volume.release
  cases volume inum with
  | none => rfl
  | some node =>
    dsimp only
    split
    · exact update_of_ne apart ..
    · rfl

/-- An inode that is not freed has links or is in use. -/
theorem Volume.release_self (present : volume.release used inum inum = some node) :
    volume inum = some node ∧ (node.nlink = 0 → inum ∈ used) := by
  unfold Volume.release at present
  cases before : volume inum with
  | none =>
    simp only [before] at present
    cases present
  | some node' =>
    simp only [before] at present
    split at present
    case isTrue =>
      rw [update_self] at present
      cases present
    case isFalse stays =>
      rw [before] at present
      cases present
      exact ⟨rfl, by tauto⟩

/-- Giving up a reference to an inode that stays in use if it has no links. -/
theorem Volume.release_eq (present : volume inum = some node)
    (retained : node.nlink = 0 → inum ∈ used) : volume.release used inum = volume := by
  by_cases unlinked : node.nlink = 0
  · exact Volume.release_of_used (retained unlinked)
  · exact Volume.release_of_linked present unlinked

theorem mem_used : inum ∈ os.used base ↔ ∃ jp, 0 < base jp ∧ os.inum jp = inum := by
  unfold Kernel.used
  rw [Finset.mem_image]
  constructor
  · rintro ⟨jp, held, same⟩
    exact ⟨jp, (Finset.mem_filter.mp held).2, same⟩
  · rintro ⟨jp, held, same⟩
    exact ⟨jp, Finset.mem_filter.mpr ⟨Finset.mem_univ jp, held⟩, same⟩

/-- Inodes without links are in use. -/
theorem Retained.mem_used (retained : Retained os base)
    (present : os.store.volume inum = some node) (unlinked : node.nlink = 0) :
    inum ∈ os.used base := by
  obtain ⟨jp, held, same, -⟩ := retained inum node present unlinked
  exact Fs.mem_used.mpr ⟨jp, held, same⟩

/-- An inode is in use by other references exactly if its entry has some. -/
theorem Cached.mem_used_iff (cached : Cached os)
    (counted : ∀ jp, 0 ≤ base jp) (refs : os.refs = base + Pi.single ip 1) :
    os.inum ip ∈ os.used base ↔ 0 < base ip := by
  rw [mem_used]
  constructor
  · rintro ⟨jp, held, same⟩
    have here : jp = ip := cached.unique jp ip (by rw [refs]; exact pos_add_single held)
      (pos_of_taken refs (counted ip)) same
    rw [← here]
    exact held
  · exact fun held => ⟨ip, held, rfl⟩

/-- Inodes without links are in use after an inode is released. -/
theorem Retained.release {next : Kernel} {locks : Slot → Option Nat}
    (retained : Retained os os.refs) (cached : Cached os)
    (counted : ∀ jp, 0 ≤ base jp) (refs : os.refs = base + Pi.single ip 1)
    (number : os.inum ip = inum)
    (outcome : Outcome base os next
      (os.store.volume.release (os.used base) inum) base locks) : Retained next base := by
  have weaken := pos_of_taken_base refs
  have ipHeld := pos_of_taken refs (counted ip)
  intro other node present unlinked
  rw [outcome.volume] at present
  suffices kept : ∃ jp, 0 < base jp ∧ os.inum jp = other ∧ (os.icache jp).valid = true by
    obtain ⟨jp, held, same, valid⟩ := kept
    exact ⟨jp, held, (outcome.frame.inum jp held).trans same, outcome.frame.valid jp held valid⟩
  by_cases here : other = inum
  · subst here
    have before := Volume.release_self present
    obtain ⟨jp, held, same⟩ := Fs.mem_used.mp (before.2 unlinked)
    obtain ⟨kp, kpHeld, kpSame, valid⟩ := retained other node before.1 unlinked
    have equal : kp = jp := cached.unique kp jp kpHeld (weaken jp held) (kpSame.trans same.symm)
    exact ⟨jp, held, same, equal ▸ valid⟩
  · rw [Volume.release_of_ne here] at present
    obtain ⟨jp, held, same, valid⟩ := retained other node present unlinked
    have apart : jp ≠ ip := by
      rintro rfl
      exact here (same.symm.trans number)
    rw [refs, Pi.add_apply, Pi.single_eq_of_ne apart, add_zero] at held
    exact ⟨jp, held, same, valid⟩

section

variable (sound : Sound os.store) (cached : Cached os) (counted : ∀ jp, 0 ≤ base jp)
  (refs : os.refs = base + Pi.single ip 1)
include sound cached counted refs

/-- `iput` releases the inode, provided that inodes without links are valid in
the cache. -/
theorem iput_release (number : os.inum ip = inum)
    (valid : ∀ node, os.store.volume inum = some node → node.nlink = 0 →
      (os.icache ip).valid = true)
    (free : os.locks ip = none)
    (lenient : Lenient stops) :
    wp (iput ip)
      (fun _ next =>
        Outcome base os next (os.store.volume.release (os.used base) inum) base
          os.locks ∧
        (Retained os os.refs → Retained next base) ∧
        (os.store.volume.release (os.used base) inum = os.store.volume → next.store = os.store))
      stops os := by
  have held := pos_of_taken refs (counted ip)
  have left : (os.refs - Pi.single ip 1 : Slot → Int) = base := by
    rw [refs, add_sub_cancel_right]
  have used := cached.mem_used_iff counted refs
  have last : os.refs ip = 1 ↔ os.inum ip ∉ os.used base := by
    rw [used, refs, Pi.add_apply, Pi.single_eq_same]
    have := counted ip
    omega
  have same : os.dropped ip = os.store.volume.release (os.used base) inum := by
    subst number
    unfold Kernel.dropped Volume.release Kernel.Frees
    cases present : os.store.volume (os.inum ip) with
    | none =>
      refine if_neg fun frees => ?_
      rw [(Open.mk held frees.1).volume cached] at present
      cases present
    | some node =>
      have iff : ((os.icache ip).valid = true ∧ (os.icache ip).dinode.nlink = 0 ∧ os.refs ip = 1) ↔
          node.nlink = 0 ∧ os.inum ip ∉ os.used base := by
        rw [last]
        constructor
        · rintro ⟨ready, unlinked, rest⟩
          have copy := (Open.mk held ready).node_eq cached present
          exact ⟨by rw [← copy]; exact unlinked, rest⟩
        · rintro ⟨unlinked, rest⟩
          have ready := valid node present unlinked
          have copy := (Open.mk held ready).node_eq cached present
          exact ⟨ready, by rw [← copy] at unlinked; exact unlinked, rest⟩
      simp only [iff]
  have spec := iput_spec sound cached held (.of_free free) fun _ => lenient
  have kept : wp (iput ip) (fun _ next => os.store.volume.release (os.used base) inum =
        os.store.volume → next.store = os.store) stops os := by
    by_cases frees : os.Frees ip
    · -- the inode would be gone from the volume
      refine wp_mono spec (fun _ next _ unchanged => ?_) fun _ => id
      rw [← same, Kernel.dropped, if_pos frees] at unchanged
      have gone := congrFun unchanged (os.inum ip)
      rw [update_self, (Open.mk held frees.1).volume cached] at gone
      cases gone
    · exact wp_mono (iput_spec_kept cached held (.of_free free) frees)
        (fun _ next got _ => got.1.store) fun _ => id
  refine wp_mono (wp_and spec kept) ?_ fun _ => id
  rintro _ next ⟨⟨outcome, -⟩, store⟩
  rw [left, same] at outcome
  exact ⟨outcome, fun retained =>
    retained.release cached counted refs number outcome, store⟩

theorem iunlockput_release (here : At os ip inum node)
    (locked : os.locks ip = some os.pid) (lenient : Lenient stops) :
    wp (iunlockput ip)
      (fun _ next =>
        Outcome base os next (os.store.volume.release (os.used base) inum) base
          (update os.locks ip none) ∧
        (Retained os os.refs → Retained next base) ∧
        (os.store.volume.release (os.used base) inum = os.store.volume → next.store = os.store))
      stops os := by
  have weaken := pos_of_taken_base refs
  unfold iunlockput
  refine wp_bind_of (iunlock_spec cached here.opened.held locked) ?_
  intro _ middle unlocked
  have first := unlocked.outcome sound
  have there : At middle ip inum node :=
    here.after first here.opened.held here.opened.held here.node
  refine wp_mono (iput_release first.sound first.cached counted
    (first.refs.trans refs) there.number (fun _ _ _ => there.opened.valid)
    (by rw [first.locks, update_self]) lenient) ?_ fun _ => id
  rintro _ next ⟨second, -, store⟩
  rw [first.volume, first.locks, (first.frame.mono weaken).used] at second
  rw [first.volume, (first.frame.mono weaken).used, unlocked.store] at store
  have outcome : Outcome base os next _ base _ :=
    { second with frame := (first.frame.mono weaken).trans second.frame }
  exact ⟨outcome, fun retained =>
    retained.release cached counted refs here.number outcome, store⟩

/-- `iunlockput` of an inode that stays in use if it has no links. -/
theorem iunlockput_kept (here : At os ip inum node) (locked : os.locks ip = some os.pid)
    (retained : node.nlink = 0 → inum ∈ os.used base) (lenient : Lenient stops) :
    wp (iunlockput ip)
      (fun _ next =>
        Undone base os next base (update os.locks ip none) ∧
        (Retained os os.refs → Retained next base))
      stops os := by
  refine wp_mono (iunlockput_release sound cached counted refs here locked lenient) ?_ fun _ => id
  rintro _ next ⟨outcome, stays, store⟩
  have same := Volume.release_eq here.node retained
  rw [same] at outcome
  refine ⟨⟨outcome, ?_⟩, stays⟩
  rw [store same]
  exact .of_blocks rfl rfl

end

end Release

end Xv6.Fs
