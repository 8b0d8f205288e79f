import Xv6.Buffer.Cache

/-!
# The buffers and their users

Two relations that every step of the buffer cache keeps.  `Mirrors` is about what
the buffers and the disk hold, and `Guards` about who counts on a buffer.
-/

namespace Xv6.Buffer

open Function Foundation.Transition

/-- The buffer is assigned to a block of the root device. -/
def Entry.Assigned (entry : Entry) (blockno : Nat) : Prop :=
  entry.dev = rootdev ∧ entry.blockno = blockno

/-! ## What the buffers hold -/

/-- The buffers and the disk hold what was last stored. -/
structure Mirrors (entry : Buf → Entry) (disk stored : Nat → Block) :
    Prop where
  /-- A valid buffer holds what was last stored for its block. -/
  contents : ∀ buf, (entry buf).valid = true →
    (entry buf).dev = rootdev ∧ (entry buf).data = stored (entry buf).blockno
  /-- A buffer that was changed has been read. -/
  dirty : ∀ buf, (entry buf).dirty = true → (entry buf).valid = true
  /-- A block has one buffer. -/
  unique : ∀ buf other blockno, (entry buf).Assigned blockno →
    (entry other).Assigned blockno → buf = other
  /-- The disk holds what was last stored, unless a buffer does. -/
  disk : ∀ blockno, disk blockno = stored blockno ∨
    ∃ buf, (entry buf).Assigned blockno ∧ (entry buf).dirty = true

section Mirrors

variable {entry : Buf → Entry} {disk stored : Nat → Block} {buf : Buf}

/-- Reference counts do not matter. -/
theorem Mirrors.refcnt (mirrors : Mirrors entry disk stored) (buf : Buf) (refcnt : Nat) :
    Mirrors (update entry buf { entry buf with refcnt := refcnt }) disk stored := by
  have same : ∀ other, ∃ count, update entry buf
      { entry buf with refcnt := refcnt } other =
        { entry other with refcnt := count } := by
    intro other
    by_cases here : other = buf
    · subst here
      exact ⟨refcnt, update_self ..⟩
    · exact ⟨(entry other).refcnt, update_of_ne here ..⟩
  refine ⟨fun other valid => ?_, fun other dirty => ?_,
    fun first second blockno left right => ?_, fun blockno => ?_⟩
  · obtain ⟨count, equal⟩ := same other
    rw [equal] at valid ⊢
    exact mirrors.contents other valid
  · obtain ⟨count, equal⟩ := same other
    rw [equal] at dirty ⊢
    exact mirrors.dirty other dirty
  · obtain ⟨count, equal⟩ := same first
    obtain ⟨count', equal'⟩ := same second
    rw [equal] at left
    rw [equal'] at right
    exact mirrors.unique first second blockno left right
  · rcases mirrors.disk blockno with clean | ⟨other, assigned, dirty⟩
    · exact .inl clean
    · obtain ⟨count, equal⟩ := same other
      refine .inr ⟨other, ?_⟩
      rw [equal]
      exact ⟨assigned, dirty⟩

/-- A buffer that is not dirty is given to a block without a buffer. -/
theorem Mirrors.recycle {fresh : Entry} {blockno : Nat}
    (mirrors : Mirrors entry disk stored) (clean : (entry buf).dirty = false)
    (none : ∀ other, ¬ (entry other).Assigned blockno) (assigned : fresh.Assigned blockno)
    (invalid : fresh.valid = false) (notDirty : fresh.dirty = false) :
    Mirrors (update entry buf fresh) disk stored where
  contents := by
    intro other valid
    by_cases here : other = buf
    · subst here
      rw [update_self, invalid] at valid
      cases valid
    · rw [update_of_ne here] at valid ⊢
      exact mirrors.contents other valid
  dirty := by
    intro other dirty
    by_cases here : other = buf
    · subst here
      rw [update_self, notDirty] at dirty
      cases dirty
    · rw [update_of_ne here] at dirty ⊢
      exact mirrors.dirty other dirty
  unique := by
    intro first second number left right
    by_cases here : first = buf <;> by_cases there : second = buf
    · rw [here, there]
    · subst here
      rw [update_self] at left
      rw [update_of_ne there] at right
      have same : number = blockno := left.2.symm.trans assigned.2
      exact absurd (same ▸ right) (none second)
    · subst there
      rw [update_of_ne here] at left
      rw [update_self] at right
      have same : number = blockno := right.2.symm.trans assigned.2
      exact absurd (same ▸ left) (none first)
    · rw [update_of_ne here] at left
      rw [update_of_ne there] at right
      exact mirrors.unique first second number left right
  disk := by
    intro number
    rcases mirrors.disk number with same | ⟨other, here, dirty⟩
    · exact .inl same
    · refine .inr ⟨other, ?_⟩
      have apart : other ≠ buf := by
        rintro rfl
        rw [clean] at dirty
        cases dirty
      rw [update_of_ne apart]
      exact ⟨here, dirty⟩

/-- The disk is up to date for a buffer that is not dirty. -/
theorem Mirrors.disk_of_clean (mirrors : Mirrors entry disk stored)
    (rooted : (entry buf).dev = rootdev) (clean : (entry buf).dirty = false) :
    disk (entry buf).blockno = stored (entry buf).blockno := by
  rcases mirrors.disk (entry buf).blockno with same | ⟨other, here, dirty⟩
  · exact same
  · have equal := mirrors.unique other buf _ here ⟨rooted, rfl⟩
    rw [equal, clean] at dirty
    cases dirty

theorem Mirrors.store {disk' : Nat → Block} (changed : Entry)
    (mirrors : Mirrors entry disk stored) (rooted : (entry buf).dev = rootdev)
    (dev : changed.dev = (entry buf).dev) (blockno : changed.blockno = (entry buf).blockno)
    (valid : changed.valid = true)
    (written : changed.dirty = true ∨ disk' (entry buf).blockno = changed.data)
    (others : ∀ number, number ≠ (entry buf).blockno → disk' number = disk number) :
    Mirrors (update entry buf changed) disk' (update stored (entry buf).blockno changed.data) := by
  have elsewhere : ∀ other, other ≠ buf → (entry other).dev = rootdev →
      (entry other).blockno ≠ (entry buf).blockno := by
    intro other apart there same
    exact apart (mirrors.unique other buf _ ⟨there, same⟩ ⟨rooted, rfl⟩)
  refine ⟨fun other now => ?_, fun other now => ?_,
    fun first second number left right => ?_, fun number => ?_⟩
  · by_cases here : other = buf
    · subst here
      rw [update_self, dev, blockno, update_self]
      exact ⟨rooted, rfl⟩
    · rw [update_of_ne here] at now ⊢
      obtain ⟨there, same⟩ := mirrors.contents other now
      rw [update_of_ne (elsewhere other here there)]
      exact ⟨there, same⟩
  · by_cases here : other = buf
    · subst here
      rwa [update_self]
    · rw [update_of_ne here] at now ⊢
      exact mirrors.dirty other now
  · have before : ∀ candidate, (update entry buf changed candidate).Assigned number →
          (entry candidate).Assigned number := by
      intro candidate assigned
      by_cases here : candidate = buf
      · subst here
        rw [update_self] at assigned
        exact ⟨dev ▸ assigned.1, blockno ▸ assigned.2⟩
      · rwa [update_of_ne here] at assigned
    exact mirrors.unique first second number (before _ left) (before _ right)
  · by_cases same : number = (entry buf).blockno
    · subst same
      rw [update_self]
      rcases written with dirty | clean
      · refine .inr ⟨buf, ?_⟩
        rw [update_self]
        exact ⟨⟨dev.trans rooted, blockno⟩, dirty⟩
      · exact .inl clean
    · rw [update_of_ne same, others number same]
      rcases mirrors.disk number with clean | ⟨other, here, dirty⟩
      · exact .inl clean
      · have apart : other ≠ buf := by
          rintro rfl
          exact same here.2.symm
        refine .inr ⟨other, ?_⟩
        rw [update_of_ne apart]
        exact ⟨here, dirty⟩

/-- A buffer that is not valid is read from the disk. -/
theorem Mirrors.read (mirrors : Mirrors entry disk stored)
    (rooted : (entry buf).dev = rootdev) (clean : (entry buf).dirty = false) :
    Mirrors (update entry buf { entry buf with
        data := disk (entry buf).blockno
        valid := true }) disk stored := by
  have same := mirrors.disk_of_clean rooted clean
  have fresh := mirrors.store
    { entry buf with
      data := disk (entry buf).blockno
      valid := true }
    rooted rfl rfl rfl (.inr rfl) fun _ _ => rfl
  rwa [same, update_eq_self, ← same] at fresh

end Mirrors

/-! ## Who uses a buffer -/

namespace Location

/-- The process refers to the buffer without holding its lock. -/
def refers (buf : Buf) : Location → Bool
  | locking other _ | releasing other => other = buf
  | _ => false

end Location

variable {Process : Type} [DecidableEq Process] [Fintype Process]

/-- Reference counts, locks and where the processes are fit together. -/
structure Guards (entry : Buf → Entry) (lock : Buf → Option Process)
    (location : Process → Location) : Prop where
  /-- Every user of a buffer is counted. -/
  refcnt : ∀ buf, (entry buf).refcnt =
    count (Location.refers buf) location + (lock buf).isSome.toNat
  /-- A process waits for the buffer of its block. -/
  locking : ∀ proc buf blockno,
    location proc = .locking buf blockno → (entry buf).Assigned blockno
  /-- A process in `bread` has locked the buffer of its block. -/
  filling : ∀ proc buf blockno, location proc = .filling buf blockno →
      (entry buf).Assigned blockno ∧ lock buf = some proc
  /-- A buffer that `bread` has returned is valid. -/
  ready : ∀ proc buf, lock buf = some proc → (entry buf).valid = true ∨
      (∃ blockno, location proc = .filling buf blockno) ∨
      ∃ message, location proc = .panicked message

section Guards

variable {entry changed : Buf → Entry} {lock : Buf → Option Process}
variable {location : Process → Location} {proc : Process} {buf : Buf}

section

variable (guards : Guards entry lock location)
include guards

omit [DecidableEq Process] in
/-- The buffers keep their blocks and their counts. -/
theorem Guards.entries
    (same : ∀ buf, (changed buf).refcnt = (entry buf).refcnt ∧ (changed buf).dev = (entry buf).dev ∧
      (changed buf).blockno = (entry buf).blockno)
    (valid : ∀ buf, (entry buf).valid = true → (changed buf).valid = true) :
    Guards changed lock location where
  refcnt := fun buf => (same buf).1.trans (guards.refcnt buf)
  locking := by
    intro proc buf blockno here
    obtain ⟨dev, number⟩ := guards.locking proc buf blockno here
    exact ⟨(same buf).2.1.trans dev, (same buf).2.2.trans number⟩
  filling := by
    intro proc buf blockno here
    obtain ⟨⟨dev, number⟩, held⟩ := guards.filling proc buf blockno here
    exact ⟨⟨(same buf).2.1.trans dev, (same buf).2.2.trans number⟩, held⟩
  ready := fun proc buf held =>
    (guards.ready proc buf held).imp_left (valid buf)

/-- One process moves, and takes its references and its locks with it. -/
theorem Guards.move {lock' : Buf → Option Process} {target : Location}
    (counted : ∀ buf, (changed buf).refcnt +
        ((location proc).refers buf).toNat + (lock buf).isSome.toNat =
      (entry buf).refcnt + (target.refers buf).toNat + (lock' buf).isSome.toNat)
    (assigned : ∀ other buf blockno, location other = .locking buf blockno ∨
        location other = .filling buf blockno →
      (entry buf).Assigned blockno → (changed buf).Assigned blockno)
    (locked : ∀ other buf, other ≠ proc → (lock' buf = some other ↔ lock buf = some other))
    (valid : ∀ other buf, lock buf = some other →
      (entry buf).valid = true → (changed buf).valid = true)
    (locking : ∀ buf blockno, target = .locking buf blockno → (changed buf).Assigned blockno)
    (filling : ∀ buf blockno, target = .filling buf blockno →
      (changed buf).Assigned blockno ∧ lock' buf = some proc)
    (ready : ∀ buf, lock' buf = some proc → (changed buf).valid = true ∨
        (∃ blockno, target = .filling buf blockno) ∨
        ∃ message, target = .panicked message) :
    Guards changed lock' (update location proc target) where
  refcnt := by
    intro buf
    have moved := count_update (Location.refers buf) location proc target
    have before := guards.refcnt buf
    have now := counted buf
    omega
  locking := by
    intro other buf blockno here
    by_cases same : other = proc
    · subst same
      rw [update_self] at here
      exact locking buf blockno here
    · rw [update_of_ne same] at here
      exact assigned other buf blockno (.inl here) (guards.locking other buf blockno here)
  filling := by
    intro other buf blockno here
    by_cases same : other = proc
    · subst same
      rw [update_self] at here
      exact filling buf blockno here
    · rw [update_of_ne same] at here
      obtain ⟨before, held⟩ := guards.filling other buf blockno here
      exact ⟨assigned other buf blockno (.inr here) before, (locked other buf same).mpr held⟩
  ready := by
    intro other buf held
    by_cases same : other = proc
    · subst same
      simpa only [update_self] using ready buf held
    · rw [update_of_ne same]
      have before := (locked other buf same).mp held
      exact (guards.ready other buf before).imp_left (valid other buf before)

/-- A process that waits for nothing stops in `panic`. -/
theorem Guards.panic (message : String) (apart : ∀ buf, (location proc).refers buf = false) :
    Guards entry lock (update location proc (.panicked message)) := by
  refine guards.move (fun buf => ?_) (fun _ _ _ _ => id)
    (fun _ _ _ => Iff.rfl) (fun _ _ _ => id) nofun nofun
    fun _ _ => .inr (.inr ⟨message, rfl⟩)
  rw [apart]
  rfl

omit [DecidableEq Process] in
theorem Guards.valid (held : lock buf = some proc)
    (idle : (∀ blockno, location proc ≠ .filling buf blockno) ∧
      ∀ message, location proc ≠ .panicked message) : (entry buf).valid = true := by
  rcases guards.ready proc buf held with valid | ⟨blockno, filling⟩ |
    ⟨message, panicked⟩
  · exact valid
  · exact absurd filling (idle.1 blockno)
  · exact absurd panicked (idle.2 message)

omit [DecidableEq Process] in
/-- Nobody uses a buffer that is not counted. -/
theorem Guards.unused (unused : (entry buf).refcnt = 0) :
    lock buf = none ∧ ∀ proc blockno, location proc ≠ .locking buf blockno := by
  have counted := guards.refcnt buf
  rw [unused] at counted
  refine ⟨?_, fun proc blockno here => ?_⟩
  · cases holder : lock buf with
    | none => rfl
    | some proc =>
      rw [holder] at counted
      simp at counted
  · have member : (location proc).refers buf = true := by
      rw [here]
      exact decide_eq_true rfl
    have positive := count_pos member
    omega

variable {blockno : Nat}

/-- `bget` finds the buffer of the block. -/
theorem Guards.found (place : location proc = .idle) (assigned : (entry buf).Assigned blockno) :
    Guards (update entry buf { entry buf with refcnt := (entry buf).refcnt + 1 }) lock
      (update location proc (.locking buf blockno)) := by
  have same : ∀ other number, (entry other).Assigned number →
      (update entry buf { entry buf with refcnt := (entry buf).refcnt + 1 }
          other).Assigned number := by
    intro other number before
    by_cases here : other = buf
    · subst here
      rwa [update_self]
    · rwa [update_of_ne here]
  refine guards.move (fun other => ?_) (fun _ other number _ => same other number)
    (fun _ _ _ => Iff.rfl) (fun _ other _ valid => ?_)
    (fun other number moved => ?_) nofun (fun other held => ?_)
  · rw [place]
    by_cases here : other = buf
    · subst here
      rw [update_self]
      simp [Location.refers]
    · rw [update_of_ne here]
      simp [Location.refers, Ne.symm here]
  · by_cases here : other = buf
    · subst here
      rwa [update_self]
    · rwa [update_of_ne here]
  · cases moved
    exact same _ _ assigned
  · left
    have valid := guards.valid held (by simp [place])
    by_cases here : other = buf
    · subst here
      rwa [update_self]
    · rwa [update_of_ne here]

theorem Guards.recycle {fresh : Entry} (place : location proc = .idle)
    (unused : (entry buf).refcnt = 0) (one : fresh.refcnt = 1) (assigned : fresh.Assigned blockno) :
    Guards (update entry buf fresh) lock (update location proc (.locking buf blockno)) := by
  obtain ⟨unlocked, unawaited⟩ := guards.unused unused
  have apart : ∀ other holder, lock other = some holder → other ≠ buf := by
    rintro other holder held rfl
    rw [unlocked] at held
    cases held
  refine guards.move (fun other => ?_) (fun holder other number here before => ?_)
    (fun _ _ _ => Iff.rfl) (fun holder other held valid => ?_)
    (fun other number moved => ?_) nofun (fun other held => ?_)
  · rw [place]
    by_cases here : other = buf
    · subst here
      rw [update_self, one, unused]
      simp [Location.refers]
    · rw [update_of_ne here]
      simp [Location.refers, Ne.symm here]
  · rw [update_of_ne]
    · exact before
    · rintro rfl
      rcases here with locking | filling
      · exact unawaited holder number locking
      · exact apart _ _ (guards.filling holder other number filling).2 rfl
  · rwa [update_of_ne (apart other holder held)]
  · cases moved
    rwa [update_self]
  · left
    rw [update_of_ne (apart other proc held)]
    exact guards.valid held (by simp [place])

/-- `bget` locks the buffer. -/
theorem Guards.acquire (place : location proc = .locking buf blockno) (free : lock buf = none) :
    Guards entry (update lock buf (some proc))
      (update location proc (.filling buf blockno)) := by
  refine guards.move (fun other => ?_) (fun _ _ _ _ => id)
    (fun holder other apart => ?_) (fun _ _ _ => id) nofun
    (fun other number moved => ?_) (fun other held => ?_)
  · rw [place]
    by_cases here : other = buf
    · subst here
      simp [Location.refers, free]
    · simp [Location.refers, here, Ne.symm here]
  · by_cases here : other = buf
    · subst here
      simp [free, Ne.symm apart]
    · rw [update_of_ne here]
  · cases moved
    exact ⟨guards.locking proc buf blockno place, update_self ..⟩
  · by_cases here : other = buf
    · subst here
      exact .inr (.inl ⟨blockno, rfl⟩)
    · left
      rw [update_of_ne here] at held
      exact guards.valid held (by simp [place])

/-- `bread` returns. -/
theorem Guards.deliver (place : location proc = .filling buf blockno)
    (valid : (entry buf).valid = true) : Guards entry lock (update location proc .idle) := by
  refine guards.move (fun other => ?_) (fun _ _ _ _ => id)
    (fun _ _ _ => Iff.rfl) (fun _ _ _ => id) nofun nofun
    (fun other held => ?_)
  · rw [place]
    rfl
  · left
    by_cases here : other = buf
    · subst here
      exact valid
    · exact guards.valid held (by simp [place, Ne.symm here])

theorem Guards.brelse (place : location proc = .idle) (held : lock buf = some proc) :
    Guards entry (update lock buf none) (update location proc (.releasing buf)) := by
  refine guards.move (fun other => ?_) (fun _ _ _ _ => id)
    (fun holder other apart => ?_) (fun _ _ _ => id) nofun nofun
    (fun other still => ?_)
  · rw [place]
    by_cases here : other = buf
    · subst here
      simp [Location.refers, held]
    · simp [Location.refers, here, Ne.symm here]
  · by_cases here : other = buf
    · subst here
      simp [held, Ne.symm apart]
    · rw [update_of_ne here]
  · left
    have before : lock other = some proc := by
      by_cases here : other = buf
      · subst here
        simp at still
      · rwa [update_of_ne here] at still
    exact guards.valid before (by simp [place])

/-- `brelse` gives up the reference. -/
theorem Guards.unref (place : location proc = .releasing buf) :
    Guards (update entry buf { entry buf with refcnt := (entry buf).refcnt - 1 }) lock
      (update location proc .idle) := by
  have counted := guards.refcnt buf
  have positive := count_pos (show (location proc).refers buf = true by
    rw [place]
    exact decide_eq_true rfl)
  have same : ∀ other number, (entry other).Assigned number →
      (update entry buf { entry buf with refcnt := (entry buf).refcnt - 1 }
          other).Assigned number := by
    intro other number before
    by_cases here : other = buf
    · subst here
      rwa [update_self]
    · rwa [update_of_ne here]
  have valid : ∀ other, (entry other).valid = true →
      (update entry buf { entry buf with refcnt := (entry buf).refcnt - 1 }
          other).valid = true := by
    intro other before
    by_cases here : other = buf
    · subst here
      rwa [update_self]
    · rwa [update_of_ne here]
  refine guards.move (fun other => ?_) (fun _ other number _ => same other number)
    (fun _ _ _ => Iff.rfl) (fun _ other _ => valid other) nofun nofun
    (fun other held => .inl (valid other (guards.valid held (by simp [place]))))
  rw [place]
  by_cases here : other = buf
  · subst here
    rw [update_self]
    simp only [Location.refers, decide_true, Bool.toNat_true, Bool.toNat_false]
    omega
  · rw [update_of_ne here]
    simp [Location.refers, Ne.symm here]

end

end Guards

end Xv6.Buffer
