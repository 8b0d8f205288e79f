import Xv6.Fs.Volume
import Mathlib.Algebra.Group.Pi.Lemmas
import Mathlib.Algebra.Order.Group.Int

/-!
# What the inode cache does

The entries of `icache` that are in use stand for different inodes and agree
with the disk once they are valid.  Specifications of `iget`, `idup`, `ilock`,
`iunlock` and `iput` in terms of reference counts and locks.
-/

namespace Xv6.Fs

open Function Foundation.Program
open Pi (single)

/-- The reference counts of the cache. -/
def Kernel.refs (os : Kernel) : Slot → Int := fun ip =>
  (os.icache ip).ref

/-- The holders of the sleep locks of the cache. -/
def Kernel.locks (os : Kernel) : Slot → Option Nat := fun ip =>
  (os.icache ip).lock

/-- The inode number of an entry of the cache. -/
def Kernel.inum (os : Kernel) (ip : Slot) : Nat :=
  (os.icache ip).inum

/-- The entries of the cache that are in use are right. -/
structure Cached (os : Kernel) : Prop where
  counted : ∀ ip, 0 ≤ os.refs ip
  device : ∀ ip, 0 < os.refs ip → (os.icache ip).dev = rootdev
  inside : ∀ ip, 0 < os.refs ip → os.inum ip < os.store.sb.ninodes
  unique : ∀ ip jp, 0 < os.refs ip → 0 < os.refs jp →
    os.inum ip = os.inum jp → ip = jp
  agrees : ∀ ip, 0 < os.refs ip → (os.icache ip).valid = true →
    (os.icache ip).dinode = os.store.dinode (os.inum ip) ∧
      (os.store.dinode (os.inum ip)).type ≠ 0

/-- What stays the same while the references counted by `base` are held. -/
structure Frame (base : Slot → Int) (os next : Kernel) : Prop where
  outer : next = { os with
    store := next.store
    icache := next.icache
    devcalls := next.devcalls }
  sb : next.store.sb = os.store.sb
  inum : ∀ ip, 0 < base ip → next.inum ip = os.inum ip
  valid : ∀ ip, 0 < base ip → (os.icache ip).valid = true → (next.icache ip).valid = true

section Frame

variable {base base' : Slot → Int} {os middle next : Kernel}

theorem Frame.refl (base : Slot → Int) (os : Kernel) : Frame base os os :=
  ⟨rfl, rfl, fun _ _ => rfl, fun _ _ => id⟩

theorem Frame.trans (first : Frame base os middle) (second : Frame base middle next) :
    Frame base os next where
  outer := by
    rw [second.outer, first.outer]
  sb := second.sb.trans first.sb
  inum := fun ip held => (second.inum ip held).trans (first.inum ip held)
  valid := fun ip held => second.valid ip held ∘ first.valid ip held

section

variable (frame : Frame base os next)
include frame

theorem Frame.mono (fewer : ∀ ip, 0 < base' ip → 0 < base ip) : Frame base' os next :=
  ⟨frame.outer, frame.sb, fun ip held => frame.inum ip (fewer ip held),
    fun ip held => frame.valid ip (fewer ip held)⟩

theorem Frame.cur : next.cur = os.cur := by
  rw [frame.outer]

theorem Frame.procs : next.procs = os.procs := by
  rw [frame.outer]

theorem Frame.ftable : next.ftable = os.ftable := by
  rw [frame.outer]

theorem Frame.pid : next.pid = os.pid := by
  unfold Kernel.pid
  rw [frame.procs, frame.cur]

end

end Frame

/-- Only the cache changed: to the given reference counts and locks. -/
structure Shift (base : Slot → Int) (os next : Kernel)
    (refs : Slot → Int) (locks : Slot → Option Nat) : Prop where
  cached : Cached next
  frame : Frame base os next
  store : next.store = os.store
  refs : next.refs = refs
  locks : next.locks = locks

/-- Replace the store. -/
def Kernel.setStore (os : Kernel) (store : Store) : Kernel :=
  { os with store := store }

/-! ## Code that works on the cache -/

variable {stops : Stop → Prop} {os : Kernel}

section Rules

theorem getInode_eq (os : Kernel) (ip : Slot) : getInode ip os = .ok (os.icache ip, os) :=
  rfl

@[simp] theorem wp_getInode {post : Inode → Kernel → Prop} (ip : Slot) :
    wp (getInode ip) post stops os ↔ post (os.icache ip) os :=
  Iff.rfl

variable {post : Unit → Kernel → Prop}

@[simp] theorem wp_modifyInode (ip : Slot) (change : Inode → Inode) :
    wp (modifyInode ip change) post stops os ↔
      post () (os.setInode ip (change (os.icache ip))) :=
  Iff.rfl

@[simp] theorem wp_modifyDinode (ip : Slot) (change : Dinode → Dinode) :
    wp (modifyDinode ip change) post stops os ↔ post () (os.setInode ip
        { os.icache ip with dinode := change (os.icache ip).dinode }) :=
  Iff.rfl

@[simp] theorem wp_onStore {post : α → Kernel → Prop} (program : StoreM α) :
    wp (onStore program) post stops os ↔
      wp program (fun value store => post value (os.setStore store)) stops os.store := by
  unfold wp onStore
  cases program os.store with
  | error reason => exact Iff.rfl
  | ok pair => exact Iff.rfl

end Rules

section SetInode

variable (os : Kernel) (ip : Slot) (inode : Inode)

@[simp] theorem setInode_store : (os.setInode ip inode).store = os.store :=
  rfl

@[simp] theorem setInode_setStore (store : Store) : (os.setInode ip inode).setStore store =
      (os.setStore store).setInode ip inode :=
  rfl

@[simp] theorem setInode_self : (os.setInode ip inode).icache ip = inode :=
  update_self ..

theorem setInode_of_ne {jp : Slot} (apart : jp ≠ ip) :
    (os.setInode ip inode).icache jp = os.icache jp :=
  update_of_ne apart ..

@[simp] theorem setInode_setInode (inode' : Inode) :
    (os.setInode ip inode).setInode ip inode' = os.setInode ip inode' := by
  unfold Kernel.setInode
  rw [update_idem]

theorem setInode_eq_self : os.setInode ip (os.icache ip) = os := by
  unfold Kernel.setInode
  rw [update_eq_self]

theorem setInode_refs {change : Int} (ref : inode.ref = os.refs ip + change) :
    (os.setInode ip inode).refs = os.refs + single ip change := by
  funext jp
  rw [Pi.add_apply, Pi.single_apply]
  unfold Kernel.refs at ref ⊢
  by_cases here : jp = ip
  · rw [if_pos here, here, setInode_self, ref]
  · rw [if_neg here, setInode_of_ne _ _ _ here, add_zero]

theorem setInode_locks : (os.setInode ip inode).locks = update os.locks ip inode.lock := by
  funext jp
  unfold Kernel.locks
  rw [update_apply]
  by_cases here : jp = ip
  · rw [if_pos here, here, setInode_self]
  · rw [if_neg here, setInode_of_ne _ _ _ here]

theorem setInode_frame {base : Slot → Int} (inum : 0 < base ip → inode.inum = os.inum ip)
    (valid : 0 < base ip → (os.icache ip).valid = true → inode.valid = true) :
    Frame base os (os.setInode ip inode) where
  outer := rfl
  sb := rfl
  inum := by
    intro jp held
    unfold Kernel.inum
    by_cases here : jp = ip
    · subst here
      rw [setInode_self]
      exact inum held
    · rw [setInode_of_ne _ _ _ here]
  valid := by
    intro jp held wasValid
    by_cases here : jp = ip
    · subst here
      rw [setInode_self]
      exact valid held wasValid
    · rw [setInode_of_ne _ _ _ here]
      exact wasValid

/-- An entry of the cache is replaced by one that is right. -/
theorem Cached.setInode {os : Kernel} {ip : Slot} {inode : Inode}
    (cached : Cached os) (counted : 0 ≤ inode.ref)
    (right : 0 < inode.ref → inode.dev = rootdev ∧ inode.inum < os.store.sb.ninodes ∧
        ∀ jp, jp ≠ ip → 0 < os.refs jp → os.inum jp ≠ inode.inum)
    (agrees : 0 < inode.ref → inode.valid = true → inode.dinode = os.store.dinode inode.inum ∧
        (os.store.dinode inode.inum).type ≠ 0) : Cached (os.setInode ip inode) := by
  have at_self : ∀ jp, jp = ip → (os.setInode ip inode).icache jp = inode := by
    rintro _ rfl
    exact setInode_self ..
  have refs_self : ∀ jp, jp = ip → (os.setInode ip inode).refs jp = inode.ref := by
    rintro _ rfl
    unfold Kernel.refs
    rw [setInode_self]
  have refs_other : ∀ jp, jp ≠ ip → (os.setInode ip inode).refs jp = os.refs jp := by
    intro jp here
    unfold Kernel.refs
    rw [setInode_of_ne _ _ _ here]
  have inum_self : ∀ jp, jp = ip → (os.setInode ip inode).inum jp = inode.inum := by
    rintro _ rfl
    unfold Kernel.inum
    rw [setInode_self]
  have inum_other : ∀ jp, jp ≠ ip → (os.setInode ip inode).inum jp = os.inum jp := by
    intro jp here
    unfold Kernel.inum
    rw [setInode_of_ne _ _ _ here]
  refine ⟨fun jp => ?_, fun jp held => ?_, fun jp held => ?_,
    fun jp kp heldJ heldK same => ?_, fun jp held valid => ?_⟩
  · by_cases here : jp = ip
    · rw [refs_self jp here]
      exact counted
    · rw [refs_other jp here]
      exact cached.counted jp
  · by_cases here : jp = ip
    · rw [refs_self jp here] at held
      rw [at_self jp here]
      exact (right held).1
    · rw [refs_other jp here] at held
      rw [setInode_of_ne _ _ _ here]
      exact cached.device jp held
  · rw [setInode_store]
    by_cases here : jp = ip
    · rw [refs_self jp here] at held
      rw [inum_self jp here]
      exact (right held).2.1
    · rw [refs_other jp here] at held
      rw [inum_other jp here]
      exact cached.inside jp held
  · by_cases hereJ : jp = ip <;> by_cases hereK : kp = ip
    · rw [hereJ, hereK]
    · rw [refs_self jp hereJ] at heldJ
      rw [refs_other kp hereK] at heldK
      rw [inum_self jp hereJ, inum_other kp hereK] at same
      exact absurd same.symm ((right heldJ).2.2 kp hereK heldK)
    · rw [refs_other jp hereJ] at heldJ
      rw [refs_self kp hereK] at heldK
      rw [inum_other jp hereJ, inum_self kp hereK] at same
      exact absurd same ((right heldK).2.2 jp hereJ heldJ)
    · rw [refs_other jp hereJ] at heldJ
      rw [refs_other kp hereK] at heldK
      rw [inum_other jp hereJ, inum_other kp hereK] at same
      exact cached.unique jp kp heldJ heldK same
  · rw [setInode_store]
    by_cases here : jp = ip
    · rw [refs_self jp here] at held
      rw [at_self jp here] at valid ⊢
      rw [inum_self jp here]
      exact agrees held valid
    · rw [refs_other jp here] at held
      rw [setInode_of_ne _ _ _ here] at valid ⊢
      rw [inum_other jp here]
      exact cached.agrees jp held valid

/-- An entry in use is replaced by one for the same inode. -/
theorem Cached.update {os : Kernel} {ip : Slot} {inode : Inode}
    (cached : Cached os) (held : 0 < os.refs ip)
    (counted : 0 ≤ inode.ref) (device : inode.dev = (os.icache ip).dev)
    (inum : inode.inum = os.inum ip)
    (agrees : 0 < inode.ref → inode.valid = true → inode.dinode = os.store.dinode (os.inum ip) ∧
        (os.store.dinode (os.inum ip)).type ≠ 0) : Cached (os.setInode ip inode) := by
  refine cached.setInode counted (fun _ => ⟨?_, ?_, fun jp apart heldJ => ?_⟩) ?_
  · rw [device]
    exact cached.device ip held
  · rw [inum]
    exact cached.inside ip held
  · rw [inum]
    exact fun same => apart (cached.unique jp ip heldJ held same)
  · rw [inum]
    exact agrees

end SetInode

/-! ## Reference counts and locks -/

section Counts

variable {refs : Slot → Int} {ip jp : Slot}

theorem pos_add_single (positive : 0 < refs jp) : 0 < (refs + single ip 1 : Slot → Int) jp := by
  rw [Pi.add_apply, Pi.single_apply]
  split <;> omega

theorem nonneg_add_single (counted : 0 ≤ refs jp) : 0 ≤ (refs + single ip 1 : Slot → Int) jp := by
  rw [Pi.add_apply, Pi.single_apply]
  split <;> omega

theorem pos_add_single_self (counted : 0 ≤ refs ip) : 0 < (refs + single ip 1 : Slot → Int) ip := by
  rw [Pi.add_apply, Pi.single_eq_same]
  omega

/-- An inode to which a reference was taken is held. -/
theorem pos_of_taken {held : Slot → Int} (taken : held = refs + single ip 1)
    (counted : 0 ≤ refs ip) : 0 < held ip := by
  rw [taken]
  exact pos_add_single_self counted

/-- The others still are. -/
theorem pos_of_taken_base {held : Slot → Int} (taken : held = refs + single ip 1)
    (jp : Slot) (positive : 0 < refs jp) : 0 < held jp := by
  rw [taken]
  exact pos_add_single positive

theorem pos_of_sub_single (positive : 0 < (refs - single ip 1 : Slot → Int) jp) : 0 < refs jp := by
  rw [Pi.sub_apply, Pi.single_apply] at positive
  split at positive <;> omega

end Counts

section Primitives

variable {ip : Slot}

/-- No entry of the cache is left for an inode. -/
def Kernel.Full (os : Kernel) (inum : Nat) : Prop :=
  ∀ ip, os.refs ip ≠ 0 ∧ ¬ (0 < os.refs ip ∧ os.inum ip = inum)

/-- An entry in use changes its reference count, its lock, or its copy of the
inode. -/
theorem Shift.of_setInode (base : Slot → Int) (inode : Inode) (change : Int)
    (cached : Cached os) (held : 0 < os.refs ip)
    (ref : inode.ref = os.refs ip + change) (counted : 0 ≤ inode.ref)
    (device : inode.dev = (os.icache ip).dev) (inum : inode.inum = os.inum ip)
    (valid : (os.icache ip).valid = true → inode.valid = true)
    (agrees : inode.valid = true → inode.dinode = os.store.dinode (os.inum ip) ∧
        (os.store.dinode (os.inum ip)).type ≠ 0) :
    Shift base os (os.setInode ip inode) (os.refs + single ip change)
      (update os.locks ip inode.lock) where
  cached := cached.update held counted device inum fun _ => agrees
  frame := setInode_frame _ _ _ (fun _ => inum) fun _ => valid
  store := rfl
  refs := setInode_refs _ _ _ ref
  locks := setInode_locks ..

/-- `iget` adds a reference to the entry of the inode. -/
theorem iget_spec {inum : Nat} (cached : Cached os) (inside : inum < os.store.sb.ninodes)
    (full : os.Full inum → stops (.panic "iget: no inodes")) :
    wp (iget rootdev inum)
      (fun ip next =>
        Shift os.refs os next (os.refs + single ip 1) os.locks ∧
        next.inum ip = inum ∧
        (os.refs ip = 0 → (next.icache ip).valid = false) ∧
        ¬ os.Full inum)
      stops os := by
  unfold iget
  simp only [wp_bind, wp_get]
  split
  case h_1 ip found =>
    have holds := List.find?_some found
    simp only [decide_eq_true_eq] at holds
    obtain ⟨held, -, same⟩ := holds
    simp only [wp_modifyInode, wp_bind, wp_pure]
    have shift := Shift.of_setInode os.refs
      { os.icache ip with ref := (os.icache ip).ref + 1 } 1 cached
      held rfl (by simp only; omega) rfl rfl id
      (cached.agrees ip held)
    rw [show update os.locks ip (os.icache ip).lock =
      os.locks from update_eq_self ..] at shift
    refine ⟨shift, ?_, fun unused => ?_, fun full => (full ip).2 ⟨held, same⟩⟩
    · unfold Kernel.inum
      rw [setInode_self]
      exact same
    · unfold Kernel.refs at unused
      omega
  case h_2 missing =>
    have absent : ∀ ip, 0 < os.refs ip → os.inum ip ≠ inum := by
      intro ip held same
      have unmatched := List.find?_eq_none.mp missing ip (List.mem_finRange ip)
      simp only [decide_eq_true_eq] at unmatched
      exact unmatched ⟨held, cached.device ip held, same⟩
    split
    case h_1 none =>
      refine full fun ip => ⟨fun unused => ?_, fun both =>
        absent ip both.1 both.2⟩
      have used := List.find?_eq_none.mp none ip (List.mem_finRange ip)
      simp only [decide_eq_true_eq] at used
      exact used unused
    case h_2 ip found =>
      have unused : os.refs ip = 0 := by
        have holds := List.find?_some found
        simp only [decide_eq_true_eq] at holds
        exact holds
      simp only [wp_modifyInode, wp_bind, wp_pure]
      refine ⟨⟨?_, ?_, rfl, setInode_refs _ _ _ (by rw [unused]; rfl), ?_⟩, ?_,
        fun _ => ?_, fun full => (full ip).1 unused⟩
      · refine cached.setInode (by simp) (fun _ => ⟨rfl, inside,
          fun jp _ held => absent jp held⟩) fun _ valid => ?_
        cases valid
      · refine setInode_frame _ _ _ (fun held => ?_) fun held => ?_
        all_goals
          rw [unused] at held
          exact absurd held (lt_irrefl 0)
      · rw [setInode_locks]
        exact update_eq_self ..
      · unfold Kernel.inum
        rw [setInode_self]
      · rw [setInode_self]

theorem idup_spec (cached : Cached os) (held : 0 < os.refs ip) : wp (idup ip)
      (fun jp next => jp = ip ∧ Shift os.refs os next (os.refs + single ip 1)
          os.locks)
      stops os := by
  unfold idup
  simp only [wp_bind, wp_modifyInode, wp_pure, true_and]
  have shift := Shift.of_setInode os.refs
    { os.icache ip with ref := (os.icache ip).ref + 1 } 1 cached
    held rfl (by unfold Kernel.refs at held; simp only; omega) rfl rfl id
    (cached.agrees ip held)
  rwa [show update os.locks ip (os.icache ip).lock =
    os.locks from update_eq_self ..] at shift

/-- The stops of a process that waits for the lock of an inode. -/
def Waits (stops : Stop → Prop) (os : Kernel) (ip : Slot) : Prop :=
  ∀ holder, os.locks ip = some holder →
    if holder = os.pid then stops .deadlock else stops .asleep

theorem acquiresleep_spec {post : Unit → Kernel → Prop} (waits : Waits stops os ip)
    (taken : os.locks ip = none → post ()
      (os.setInode ip { os.icache ip with lock := some os.pid })) :
    wp (acquiresleep ip) post stops os := by
  unfold acquiresleep
  rw [wp_bind, wp_get]
  split
  case h_1 free => exact taken free
  case h_2 holder holds =>
    rw [wp_ite, wp_throw, wp_throw]
    have stopped := waits holder holds
    refine ⟨fun same => ?_, fun apart => ?_⟩
    · rwa [if_pos same] at stopped
    · rwa [if_neg apart] at stopped

/-- `ilock` takes the lock and makes the entry valid. -/
theorem ilock_spec (cached : Cached os) (held : 0 < os.refs ip) (waits : Waits stops os ip)
    (untyped : (os.store.dinode (os.inum ip)).type = 0 → stops (.panic "ilock: no type")) :
    wp (ilock ip)
      (fun _ next =>
        Shift os.refs os next os.refs (update os.locks ip (some os.pid)) ∧
        (next.icache ip).valid = true ∧ os.locks ip = none)
      stops os := by
  have locked : ∀ inode : Inode, inode = { os.icache ip with
        lock := some os.pid
        dinode := os.store.dinode (os.inum ip)
        valid := true } →
      (os.store.dinode (os.inum ip)).type ≠ 0 →
      Shift os.refs os (os.setInode ip inode) os.refs
          (update os.locks ip (some os.pid)) := by
    rintro _ rfl typed
    have shift := Shift.of_setInode os.refs { os.icache ip with
        lock := some os.pid
        dinode := os.store.dinode (os.inum ip)
        valid := true } 0 cached
      held (add_zero _).symm (cached.counted ip) rfl rfl (fun _ => rfl)
      fun _ => ⟨rfl, typed⟩
    rwa [Pi.single_zero, add_zero] at shift
  unfold ilock
  simp only [wp_bind, wp_getInode, wp_ite, wp_throw]
  refine ⟨fun few => ?_, fun _ => ?_⟩
  · unfold Kernel.refs at held
    omega
  refine acquiresleep_spec waits fun free => ?_
  simp only [setInode_self, wp_get, wp_modifyInode, wp_pure, setInode_setInode, setInode_store]
  refine ⟨fun _ => ⟨untyped, fun typed => ?_⟩, fun stale => ?_⟩
  · exact ⟨locked _ rfl typed, trivial, free⟩
  · have valid : (os.icache ip).valid = true := by
      simpa using stale
    obtain ⟨copy, typed⟩ := cached.agrees ip held valid
    exact ⟨locked _ (by rw [← copy, ← valid]) typed, valid, free⟩

theorem iunlock_spec (cached : Cached os) (held : 0 < os.refs ip)
    (locked : os.locks ip = some os.pid) :
    wp (iunlock ip) (fun _ next => Shift os.refs os next os.refs
        (update os.locks ip none))
      stops os := by
  unfold iunlock releasesleep
  simp only [wp_bind, wp_get, wp_ite, wp_throw, wp_modifyInode]
  refine ⟨fun wrong => ?_, fun _ => ?_⟩
  · rcases wrong with unlocked | few
    · exact absurd locked unlocked
    · unfold Kernel.refs at held
      omega
  · have shift := Shift.of_setInode os.refs
      { os.icache ip with lock := none } 0 cached
      held (add_zero _).symm (cached.counted ip) rfl rfl id
      (cached.agrees ip held)
    rwa [Pi.single_zero, add_zero] at shift

/-- `iput` would free the inode. -/
def Kernel.Frees (os : Kernel) (ip : Slot) : Prop :=
  (os.icache ip).valid = true ∧ (os.icache ip).dinode.nlink = 0 ∧ os.refs ip = 1

/-- `iput` of a reference that does not free the inode. -/
theorem iput_spec_kept (cached : Cached os) (held : 0 < os.refs ip)
    (waits : Waits stops os ip) (kept : ¬ os.Frees ip) :
    wp (iput ip)
      (fun _ next =>
        Shift (os.refs - single ip 1) os next
          (os.refs - single ip 1) os.locks ∧
        os.locks ip = none)
      stops os := by
  unfold iput releasesleep
  rw [wp_bind]
  refine acquiresleep_spec waits fun free => ?_
  have shift := Shift.of_setInode (os.refs - single ip 1)
    { os.icache ip with lock := none, ref := (os.icache ip).ref - 1 }
    (-1) cached held rfl (by unfold Kernel.refs at held; simp only; omega) rfl rfl id
    (cached.agrees ip held)
  rw [Pi.single_neg, ← sub_eq_add_neg, show update os.locks ip
    none = os.locks by rw [← free, update_eq_self]] at shift
  simp only [wp_bind, wp_getInode, wp_ite, setInode_self, wp_modifyInode, setInode_setInode]
  exact ⟨fun unlinked => ⟨fun last =>
    absurd ⟨unlinked.1, unlinked.2, last⟩ kept, fun _ => ⟨shift, free⟩⟩,
    fun _ => ⟨shift, free⟩⟩

end Primitives

end Xv6.Fs
