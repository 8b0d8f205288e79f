import Xv6.Log.Transitions

/-!
# The invariant of the group commit protocol

Who holds which lock, how many operations are under way, when `log.committing`
is set and what that means for the blocks in the log.  Every transition keeps
the invariant.
-/

namespace Xv6.Log

open Function Foundation.Transition

/-! ## The list of logged blocks -/

/-- `log_write` leaves the list alone when the block is in it, and appends the
block otherwise. -/
theorem absorb_eq (block : List Nat) (number : Nat) : absorb block number =
      if number ∈ block then block else block ++ [number] := by
  unfold absorb
  by_cases member : number ∈ block
  · have short := List.idxOf_lt_length_of_mem member
    have unchanged : block.set (block.idxOf number) number = block := by
      nth_rewrite 2 [← List.getElem_idxOf short]
      exact List.set_getElem_self short
    simp [member, short.ne, unchanged]
  · simp [member]

theorem mem_absorb {block : List Nat} {number other : Nat} :
    other ∈ absorb block number ↔ other ∈ block ∨ other = number := by
  rw [absorb_eq]
  split
  case isTrue member =>
    constructor
    · exact Or.inl
    · rintro (inside | rfl)
      · exact inside
      · exact member
  case isFalse => simp

theorem nodup_absorb {block : List Nat} (number : Nat)
    (nodup : block.Nodup) : (absorb block number).Nodup := by
  rw [absorb_eq]
  split
  case isTrue => exact nodup
  case isFalse absent => exact nodup.append (List.nodup_singleton number) (by simpa using absent)

theorem length_le_absorb (block : List Nat) (number : Nat) :
    block.length ≤ (absorb block number).length := by
  rw [absorb_eq]
  split
  · exact le_refl _
  · simp

/-! ## The invariant -/

variable {Process : Type} [DecidableEq Process] [Fintype Process]

/-- What holds in every state of every run. -/
structure Protocol (s : State Process) : Prop where
  /-- Exactly the holder of `log.lock` is in a critical section of it. -/
  lock : Exclusive Location.holdsLog s.location s.lock
  /-- Exactly the holder of `ptable.lock` is in a critical section of it. -/
  ptable : Exclusive Location.holdsPtable s.location s.ptableLock
  /-- One process commits while `log.committing` is set, none otherwise. -/
  committer : ∃ committer, Exclusive Location.committing s.location committer ∧
      committer.isSome = s.committing
  /-- `log.outstanding` counts the operations under way. -/
  outstanding : s.outstanding = count Location.operating s.location
  /-- A commit excludes operations. -/
  quiet : s.committing = true → s.outstanding = 0
  /-- A committer that has reset `log.lh.n` finds it so. -/
  cleared : ∀ proc, (s.location proc).cleared = true → s.block = []
  /-- Without operations and without a commit the log is empty. -/
  settled : s.outstanding = 0 → s.committing = false → s.block = []
  /-- `log.lh.block` has no repetition. -/
  nodup : s.block.Nodup
  /-- A process that waits is right to wait or about to be awakened. -/
  sleepers : ∀ proc, (s.location proc).waits = true →
    s.Full ∨ ∃ waker, (s.location waker).wakes = true

/-- Waking the sleepers happens under `log.lock`. -/
theorem Location.holdsLog_of_wakes {location : Location}
    (wakes : location.wakes = true) : location.holdsLog = true := by
  cases location <;> first | rfl | cases wakes

theorem Location.committing_of_cleared {location : Location}
    (cleared : location.cleared = true) : location.committing = true := by
  cases location <;> first | rfl | cases cleared

/-- A sleeper that is awakened changes no class but that of the waiting. -/
theorem class_awakened {Process : Type} (inClass : Location → Bool)
    (same : inClass .sleepReacquire = inClass .sleeping)
    (location : Process → Location) (proc : Process) :
    inClass (if location proc = .sleeping then .sleepReacquire
      else location proc) = inClass (location proc) := by
  split
  case isTrue asleep => rw [asleep, same]
  case isFalse => rfl

namespace Protocol

variable {s : State Process} {proc : Process}

omit [DecidableEq Process] in
/-- Operations are under way only while nobody commits. -/
theorem not_committing (protocol : Protocol s)
    (operating : (s.location proc).operating = true) : s.committing = false := by
  have positive := count_pos operating
  rw [← protocol.outstanding] at positive
  cases committing : s.committing with
  | false => rfl
  | true =>
    have none := protocol.quiet committing
    omega

omit [DecidableEq Process] in
/-- A process that commits has `log.committing` set. -/
theorem committing_of (protocol : Protocol s)
    (inside : (s.location proc).committing = true) : s.committing = true := by
  obtain ⟨committer, exclusive, flag⟩ := protocol.committer
  rw [← flag, (exclusive proc).mp inside]
  rfl

omit [DecidableEq Process] in
/-- While a process that will not wake the others holds `log.lock`, whoever
waits is right to wait. -/
theorem full_of_waits (protocol : Protocol s) (holder : Process)
    (holds : (s.location holder).holdsLog = true) (silent : (s.location holder).wakes = false)
    (waits : (s.location proc).waits = true) : s.Full := by
  rcases protocol.sleepers proc waits with full | ⟨waker, wakes⟩
  · exact full
  · have same : waker = holder := protocol.lock.unique (Location.holdsLog_of_wakes wakes) holds
    rw [same, silent] at wakes
    cases wakes

variable {s : State Process} {target : Location}

section

variable (protocol : Protocol s)
include protocol

variable {next : State Process}

/-- A process moves, with or without a lock, and changes nothing else that the
invariant is about. -/
theorem relocate (location : next.location = update s.location proc target)
    (block : next.block = s.block) (outstanding : next.outstanding = s.outstanding)
    (committing : next.committing = s.committing)
    (operating : target.operating = (s.location proc).operating)
    (commits : target.committing = (s.location proc).committing)
    (clears : target.cleared = true → s.block = []) (wakes : target.wakes = (s.location proc).wakes)
    (waits : target.waits = true → (s.location proc).waits = true ∨ s.Full)
    (lock : Exclusive Location.holdsLog (update s.location proc target) next.lock)
    (ptable : Exclusive Location.holdsPtable
      (update s.location proc target) next.ptableLock) : Protocol next where
  lock := by rwa [location]
  ptable := by rwa [location]
  committer := by
    obtain ⟨committer, exclusive, flag⟩ := protocol.committer
    rw [location, committing]
    exact ⟨committer, exclusive.move commits, flag⟩
  outstanding := by
    rw [outstanding, location, count_move operating]
    exact protocol.outstanding
  quiet := by
    rw [committing, outstanding]
    exact protocol.quiet
  cleared := by
    rw [location, block]
    exact forall_update protocol.cleared clears
  settled := by
    rw [committing, outstanding, block]
    exact protocol.settled
  nodup := by
    rw [block]
    exact protocol.nodup
  sleepers := by
    unfold State.Full
    rw [location, block, outstanding, committing]
    have kept : ∀ waiter, (s.location waiter).waits = true →
        s.Full ∨ ∃ waker, (update s.location proc target waker).wakes = true := by
      intro waiter waiting
      exact (protocol.sleepers waiter waiting).imp_right (exists_update wakes).mpr
    refine forall_update kept fun waiting => ?_
    exact (waits waiting).elim (kept proc) Or.inl

theorem admits (place : s.location proc = .beginTest) (room : ¬ s.Full) :
    Protocol { s.release proc .inOp with
      outstanding := s.outstanding + 1
      nextOperation := s.nextOperation + 1
      operation :=
        update s.operation proc s.nextOperation } where
  lock := protocol.lock.leave (by rw [place]; rfl) rfl
  ptable := protocol.ptable.move (by rw [place]; rfl)
  committer := by
    obtain ⟨committer, exclusive, flag⟩ := protocol.committer
    exact ⟨committer, exclusive.move (by rw [place]; rfl), flag⟩
  outstanding := by
    have counted := count_update Location.operating s.location proc .inOp
    rw [place, ← protocol.outstanding] at counted
    exact counted.symm
  quiet := fun committing => absurd (Or.inl committing) room
  cleared := forall_update protocol.cleared (by simp [Location.cleared])
  settled := by simp
  nodup := protocol.nodup
  sleepers := by
    -- nobody waits while there is room
    refine forall_update (fun waiter waits => ?_) (by simp [Location.waits])
    exact absurd (protocol.full_of_waits proc (by rw [place]; rfl)
      (by rw [place]; rfl) waits) room

theorem wakeup (free : s.ptableLock = none) (wakes : (s.location proc).wakes = true)
    (sameRole : target.role = { (s.location proc).role with wakes := false })
    (holds : target.holdsLog = true) (running : target.waits = false) :
    Protocol { s with
      location := update
        (fun other =>
          if s.location other = .sleeping then .sleepReacquire
          else s.location other)
        proc target } where
  lock := by
    have same := class_awakened Location.holdsLog rfl s.location
    refine (protocol.lock.congr same).move ?_
    rw [same, Location.holdsLog_of_wakes wakes, holds]
  ptable := by
    have same := class_awakened Location.holdsPtable rfl s.location
    refine (protocol.ptable.congr same).move ?_
    rw [same]
    exact congrArg Role.holdsPtable sameRole
  committer := by
    have same := class_awakened Location.committing rfl s.location
    obtain ⟨committer, exclusive, flag⟩ := protocol.committer
    refine ⟨committer, (exclusive.congr same).move ?_, flag⟩
    rw [same]
    exact congrArg Role.committing sameRole
  outstanding := by
    have same := class_awakened Location.operating rfl s.location
    refine protocol.outstanding.trans ?_
    rw [count_move]
    · unfold count
      simp only [same]
    · rw [same]
      exact congrArg Role.operating sameRole
  quiet := protocol.quiet
  cleared := by
    have same := class_awakened Location.cleared rfl s.location
    refine forall_update (fun other member => ?_) fun member => ?_
    · rw [same] at member
      exact protocol.cleared other member
    · apply protocol.cleared proc
      rw [← member]
      exact (congrArg Role.cleared sameRole).symm
  settled := protocol.settled
  nodup := protocol.nodup
  sleepers := by
    -- the others that wait would hold one of the two locks
    refine forall_update (fun waiter waits => ?_) (by simp [running])
    exfalso
    split at waits
    case isTrue => cases waits
    case isFalse awake =>
      have lockTaken (holding : (s.location waiter).holdsLog = true) : proc = waiter :=
        protocol.lock.unique (Location.holdsLog_of_wakes wakes) holding
      have ptableFree := free ▸ protocol.ptable
      have outside := ptableFree.outside waiter
      cases place : s.location waiter <;>
        simp_all [Location.waits, Location.holdsLog, Location.holdsPtable, Location.wakes]

/-- `log_write` records a block. -/
theorem store {number : Nat} (place : s.location proc = .logWriteLocked number) :
    Protocol { s.release proc .inOp with
      block := absorb s.block number
      entries := ⟨s.operation proc, number, s.groups.length⟩ :: s.entries } := by
  have operating : (s.location proc).operating = true := by
    rw [place]; rfl
  have quiet := protocol.not_committing operating
  exact {
    lock := protocol.lock.leave (by rw [place]; rfl) rfl
    ptable := protocol.ptable.move (by rw [place]; rfl)
    committer := by
      obtain ⟨committer, exclusive, flag⟩ := protocol.committer
      exact ⟨committer, exclusive.move (by rw [place]; rfl), flag⟩
    outstanding := by
      refine protocol.outstanding.trans (count_move ?_).symm
      rw [place]; rfl
    quiet := protocol.quiet
    cleared := by
      refine forall_update (fun other cleared => ?_) (by simp [Location.cleared])
      have committing := protocol.committing_of (Location.committing_of_cleared cleared)
      rw [quiet] at committing
      cases committing
    settled := by
      intro none
      have positive := count_pos operating
      rw [← protocol.outstanding] at positive
      exact absurd none positive.ne'
    nodup := nodup_absorb number protocol.nodup
    sleepers := by
      refine forall_update (fun waiter waits => .inl ?_) (by simp [Location.waits])
      have full := protocol.full_of_waits proc (by rw [place]; rfl) (by rw [place]; rfl) waits
      have longer := length_le_absorb s.block number
      exact full.imp_right fun crowded => by
        simp only [State.release, State.goto]
        omega }

section

variable (place : s.location proc = .endLocked)
include place

/-- `end_op` lowers the count of operations by its own. -/
theorem outstanding_leave (outside : target.operating = false) :
    s.outstanding - 1 = count Location.operating (update s.location proc target) := by
  have counted := count_update Location.operating s.location proc target
  rw [place, outside, ← protocol.outstanding] at counted
  change _ + 1 = _ + 0 at counted
  omega

/-- `end_op` of an operation that is not the last. -/
theorem leave (quiet : s.committing = false) (others : s.outstanding - 1 ≠ 0) :
    Protocol { s.goto proc .endWakeup with
      outstanding := s.outstanding - 1 } where
  lock := protocol.lock.move (by rw [place]; rfl)
  ptable := protocol.ptable.move (by rw [place]; rfl)
  committer := by
    obtain ⟨committer, exclusive, flag⟩ := protocol.committer
    exact ⟨committer, exclusive.move (by rw [place]; rfl), flag⟩
  outstanding := protocol.outstanding_leave place rfl
  quiet := fun committing => absurd (quiet.symm.trans committing) (by simp)
  cleared := forall_update protocol.cleared (by simp [Location.cleared])
  settled := fun none => absurd none others
  nodup := protocol.nodup
  sleepers := fun _ _ =>
    .inr ⟨proc, by simp [State.goto, Location.wakes]⟩

theorem last (quiet : s.committing = false) (alone : s.outstanding - 1 = 0) :
    Protocol { s.goto proc .endReleaseCommit with
      outstanding := s.outstanding - 1
      committing := true } where
  lock := protocol.lock.move (by rw [place]; rfl)
  ptable := protocol.ptable.move (by rw [place]; rfl)
  committer := by
    obtain ⟨committer, exclusive, flag⟩ := protocol.committer
    rw [quiet, Option.isSome_eq_false_iff, Option.isNone_iff_eq_none] at flag
    subst flag
    exact ⟨some proc, exclusive.enter rfl, rfl⟩
  outstanding := protocol.outstanding_leave place rfl
  quiet := fun _ => alone
  cleared := forall_update protocol.cleared (by simp [Location.cleared])
  settled := fun _ => nofun
  nodup := protocol.nodup
  sleepers := fun _ _ => .inl (.inl rfl)

end

/-- `commit` forgets the group. -/
theorem clear (place : s.location proc = .commitClear) :
    Protocol { s.goto proc .commitErase with block := [] } where
  lock := protocol.lock.move (by rw [place]; rfl)
  ptable := protocol.ptable.move (by rw [place]; rfl)
  committer := by
    obtain ⟨committer, exclusive, flag⟩ := protocol.committer
    exact ⟨committer, exclusive.move (by rw [place]; rfl), flag⟩
  outstanding := by
    refine protocol.outstanding.trans (count_move ?_).symm
    rw [place]; rfl
  quiet := protocol.quiet
  cleared := fun _ _ => rfl
  settled := fun _ _ => rfl
  nodup := List.nodup_nil
  sleepers := fun _ _ => .inl (.inl (protocol.committing_of (by rw [place]; rfl)))

/-- `end_op` marks the commit as done. -/
theorem unset (place : s.location proc = .commitUnset) :
    Protocol { s.goto proc .commitWakeup with
      committing := false } where
  lock := protocol.lock.move (by rw [place]; rfl)
  ptable := protocol.ptable.move (by rw [place]; rfl)
  committer := by
    obtain ⟨committer, exclusive, _⟩ := protocol.committer
    exact ⟨none, exclusive.leave (by rw [place]; rfl) rfl, rfl⟩
  outstanding := by
    refine protocol.outstanding.trans (count_move ?_).symm
    rw [place]; rfl
  quiet := nofun
  cleared := forall_update protocol.cleared (by simp [Location.cleared])
  settled := fun _ _ => protocol.cleared proc (by rw [place]; rfl)
  nodup := protocol.nodup
  sleepers := fun _ _ =>
    .inr ⟨proc, by simp [State.goto, Location.wakes]⟩

/-- Every transition keeps the invariant. -/
theorem preserved {action : Action Process}
    (transition : Transition s action next) : Protocol next := by
  cases transition with
  | move _ target sameRole sameLock waiting =>
    refine protocol.relocate rfl rfl rfl rfl
      (congrArg Role.operating sameRole) (congrArg Role.committing sameRole)
      (fun member => protocol.cleared action.process ?_)
      (congrArg Role.wakes sameRole) waiting
      (protocol.lock.move sameLock)
      (protocol.ptable.move (congrArg Role.holdsPtable sameRole))
    exact (congrArg Role.cleared sameRole).symm.trans member
  | overflow proc number place tooBig =>
    exact protocol.relocate rfl rfl rfl rfl (by rw [place]; rfl)
      (by rw [place]; rfl) (by simp [Location.cleared])
      (by rw [place]; rfl) (by simp [Location.waits])
      (protocol.lock.move (by rw [place]; rfl))
      (protocol.ptable.move (by rw [place]; rfl))
  | acquire proc target free sameRole holds running =>
    have unlocked := free ▸ protocol.lock
    refine protocol.relocate rfl rfl rfl rfl
      (congrArg Role.operating sameRole) (congrArg Role.committing sameRole)
      (fun member => protocol.cleared proc ?_)
      (congrArg Role.wakes sameRole) (by simp [running])
      (unlocked.enter holds)
      (protocol.ptable.move (congrArg Role.holdsPtable sameRole))
    exact (congrArg Role.cleared sameRole).symm.trans member
  | release proc target sameRole held gives waiting =>
    refine protocol.relocate rfl rfl rfl rfl
      (congrArg Role.operating sameRole) (congrArg Role.committing sameRole)
      (fun member => protocol.cleared proc ?_)
      (congrArg Role.wakes sameRole) (fun waits => .inl (waiting waits))
      (protocol.lock.leave held gives)
      (protocol.ptable.move (congrArg Role.holdsPtable sameRole))
    exact (congrArg Role.cleared sameRole).symm.trans member
  | lockPtable proc place free =>
    have unlocked := free ▸ protocol.ptable
    exact protocol.relocate rfl rfl rfl rfl (by rw [place]; rfl)
      (by rw [place]; rfl) (by simp [Location.cleared])
      (by rw [place]; rfl) (by simp [place, Location.waits])
      (protocol.lock.move (by rw [place]; rfl)) (unlocked.enter rfl)
  | sleep proc place =>
    exact protocol.relocate rfl rfl rfl rfl (by rw [place]; rfl)
      (by rw [place]; rfl) (by simp [Location.cleared])
      (by rw [place]; rfl) (by simp [place, Location.waits])
      (protocol.lock.move (by rw [place]; rfl))
      (protocol.ptable.leave (by rw [place]; rfl) rfl)
  | skip proc place nothing =>
    exact protocol.relocate rfl rfl rfl rfl (by rw [place]; rfl)
      (by rw [place]; rfl) (fun _ => nothing)
      (by rw [place]; rfl) (by simp [Location.waits])
      (protocol.lock.move (by rw [place]; rfl))
      (protocol.ptable.move (by rw [place]; rfl))
  | post proc place =>
    exact protocol.relocate rfl rfl rfl rfl (by rw [place]; rfl)
      (by rw [place]; rfl) (by simp [Location.cleared])
      (by rw [place]; rfl) (by simp [Location.waits])
      (protocol.lock.move (by rw [place]; rfl))
      (protocol.ptable.move (by rw [place]; rfl))
  | surprise proc place committing =>
    have operating : (s.location proc).operating = true := by
      rw [place]; rfl
    have quiet := protocol.not_committing operating
    exact absurd (quiet.symm.trans committing) (by simp)
  | admits proc place room => exact protocol.admits place room
  | wakeup proc target free wakes sameRole holds running =>
    exact protocol.wakeup free wakes sameRole holds running
  | store proc number place => exact protocol.store place
  | leave proc place quiet others => exact protocol.leave place quiet others
  | last proc place quiet alone => exact protocol.last place quiet alone
  | clear proc place => exact protocol.clear place
  | unset proc place => exact protocol.unset place

end

omit [DecidableEq Process] in
theorem initlog (size : Nat) : Protocol (Log.initlog size : State Process) where
  lock := by simp [Exclusive, Log.initlog, Location.holdsLog]
  ptable := by simp [Exclusive, Log.initlog, Location.holdsPtable]
  committer :=
    ⟨none, by simp [Exclusive, Log.initlog, Location.committing], rfl⟩
  outstanding := by simp [count, Log.initlog, Location.operating]
  quiet := nofun
  cleared := nofun
  settled := fun _ _ => rfl
  nodup := List.nodup_nil
  sleepers := nofun

end Protocol

end Xv6.Log
