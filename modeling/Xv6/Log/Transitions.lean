import Xv6.Log.GroupCommit

/-!
# What a step of the log can do

Every step of the group commit protocol is one of a few kinds.  Most of them
only move a process, or take or give back `log.lock`; the others are the
places where the code changes what the processes share.  `transition_of_step`
says so once, and the invariants are proved kind by kind.
-/

namespace Xv6.Log

open Location (waits)

/-- The classes a location is in that matter to more than the lock. -/
structure Role where
  holdsPtable : Bool
  operating : Bool
  committing : Bool
  posted : Bool
  cleared : Bool
  wakes : Bool
  overflowed : Bool

/-- The role of a process at a location. -/
def Location.role (location : Location) : Role where
  holdsPtable := location.holdsPtable
  operating := location.operating
  committing := location.committing
  posted := location.posted
  cleared := location.cleared
  wakes := location.wakes
  overflowed := location.overflowed

variable {Process : Type} [DecidableEq Process]

/-- The kinds of steps. -/
inductive Transition (s : State Process) :
    Action Process → State Process → Prop
  /-- A process moves on by itself. -/
  | move (action : Action Process) (target : Location)
      (sameRole : target.role = (s.location action.process).role)
      (sameLock : target.holdsLog = (s.location action.process).holdsLog)
      (waiting : target.waits = true → (s.location action.process).waits = true ∨ s.Full) :
      Transition s action (s.goto action.process target)
  /-- `log_write` finds the log full. -/
  | overflow (proc : Process) (number : Nat) (place : s.location proc = .inOp)
      (tooBig : s.TooBig) :
      Transition s (.logWrite proc number)
        (s.goto proc (.panicked "too big a transaction"))
  /-- A process takes `log.lock`. -/
  | acquire (proc : Process) (target : Location) (free : s.lock = none)
      (sameRole : target.role = (s.location proc).role)
      (holds : target.holdsLog = true)
      (running : target.waits = false) :
      Transition s (.advance proc)
        { s.goto proc target with lock := some proc }
  /-- A process gives `log.lock` back. -/
  | release (proc : Process) (target : Location)
      (sameRole : target.role = (s.location proc).role)
      (held : (s.location proc).holdsLog = true)
      (gives : target.holdsLog = false)
      (waiting : target.waits = true → (s.location proc).waits = true) :
      Transition s (.advance proc) (s.release proc target)
  /-- `begin_op` admits an operation. -/
  | admits (proc : Process) (place : s.location proc = .beginTest) (room : ¬ s.Full) :
      Transition s (.advance proc) { s.release proc .inOp with
        outstanding := s.outstanding + 1
        nextOperation := s.nextOperation + 1
        operation :=
          Function.update s.operation proc s.nextOperation }
  /-- `sleep` takes `ptable.lock`. -/
  | lockPtable (proc : Process) (place : s.location proc = .sleepPtable)
      (free : s.ptableLock = none) :
      Transition s (.advance proc) { s.goto proc .sleepRelease with
        ptableLock := some proc }
  /-- `sleep` gives up the processor. -/
  | sleep (proc : Process) (place : s.location proc = .sleepSched) :
      Transition s (.advance proc) { s.goto proc .sleeping with
        ptableLock := none }
  /-- `wakeup` of the sleepers on `&log`. -/
  | wakeup (proc : Process) (target : Location) (free : s.ptableLock = none)
      (wakes : (s.location proc).wakes = true)
      (sameRole : target.role = { (s.location proc).role with wakes := false })
      (holds : target.holdsLog = true)
      (running : target.waits = false) :
      Transition s (.advance proc) { s with
        location := Function.update
          (fun other =>
            if s.location other = .sleeping then .sleepReacquire
            else s.location other)
          proc target }
  /-- `log_write` records a block. -/
  | store (proc : Process) (number : Nat)
      (place : s.location proc = .logWriteLocked number) :
      Transition s (.advance proc) { s.release proc .inOp with
        block := absorb s.block number
        entries := ⟨s.operation proc, number, s.groups.length⟩ :: s.entries }
  /-- `end_op` finds a commit under way. -/
  | surprise (proc : Process) (place : s.location proc = .endLocked)
      (committing : s.committing = true) :
      Transition s (.advance proc)
        ({ s with outstanding := s.outstanding - 1 }.goto proc
          (.panicked "log.committing"))
  /-- `end_op` of an operation that is not the last. -/
  | leave (proc : Process) (place : s.location proc = .endLocked)
      (quiet : s.committing = false)
      (others : s.outstanding - 1 ≠ 0) :
      Transition s (.advance proc) { s.goto proc .endWakeup with
        outstanding := s.outstanding - 1 }
  /-- `end_op` of the last operation. -/
  | last (proc : Process) (place : s.location proc = .endLocked)
      (quiet : s.committing = false)
      (alone : s.outstanding - 1 = 0) :
      Transition s (.advance proc) { s.goto proc .endReleaseCommit with
        outstanding := s.outstanding - 1
        committing := true }
  /-- `commit` finds nothing to do. -/
  | skip (proc : Process) (place : s.location proc = .commitStart)
      (nothing : s.block = []) :
      Transition s (.advance proc) { s.goto proc .commitAcquire with
        groups := s.groups ++ [[]] }
  /-- `commit` writes the header of the group. -/
  | post (proc : Process) (place : s.location proc = .commitWrite) :
      Transition s (.advance proc) { s.goto proc .commitInstall with
        groups := s.groups ++ [s.block] }
  /-- `commit` forgets the group. -/
  | clear (proc : Process) (place : s.location proc = .commitClear) :
      Transition s (.advance proc) { s.goto proc .commitErase with block := [] }
  /-- `end_op` marks the commit as done. -/
  | unset (proc : Process) (place : s.location proc = .commitUnset) :
      Transition s (.advance proc) { s.goto proc .commitWakeup with
        committing := false }

variable {action : Action Process}

theorem transition_of_move {s : State Process}
    {source target : Location} (place : s.location action.process = source)
    (sameRole : target.role = source.role) (sameLock : target.holdsLog = source.holdsLog)
    (waiting : target.waits = true → source.waits = true ∨ s.Full) :
    Transition s action (s.goto action.process target) := by
  subst place
  exact .move action target sameRole sameLock waiting

variable {s next : State Process} {proc : Process}

theorem transition_of_acquire {target : Location} (taken : s.acquire proc target = some next)
    (sameRole : target.role = (s.location proc).role)
    (holds : target.holdsLog = true) (running : target.waits = false) :
    Transition s (.advance proc) next := by
  unfold State.acquire at taken
  split at taken
  case isTrue free =>
    cases taken
    exact .acquire proc target free sameRole holds running
  case isFalse => cases taken

/-- Waking the sleepers is a transition of its kind. -/
theorem transition_of_wakeup {target : Location} (taken : s.wakeup proc target = some next)
    (wakes : (s.location proc).wakes = true)
    (sameRole : target.role = { (s.location proc).role with wakes := false })
    (holds : target.holdsLog = true)
    (running : target.waits = false) : Transition s (.advance proc) next := by
  unfold State.wakeup at taken
  split at taken
  case isTrue free =>
    cases taken
    exact .wakeup proc target free wakes sameRole holds running
  case isFalse => cases taken

/-- Where a process continues its code, one of the transitions happens. -/
theorem transition_of_advance
    (taken : s.advance proc = some next) : Transition s (.advance proc) next := by
  unfold State.advance at taken
  cases place : s.location proc with
  | beginAcquire =>
    rw [place] at taken
    exact transition_of_acquire taken (by rw [place]; rfl) rfl rfl
  | sleepReacquire =>
    rw [place] at taken
    exact transition_of_acquire taken (by rw [place]; rfl) rfl rfl
  | logWriteAcquire number =>
    rw [place] at taken
    exact transition_of_acquire taken (by rw [place]; rfl) rfl rfl
  | endAcquire =>
    rw [place] at taken
    exact transition_of_acquire taken (by rw [place]; rfl) rfl rfl
  | commitAcquire =>
    rw [place] at taken
    exact transition_of_acquire taken (by rw [place]; rfl) rfl rfl
  | beginTest =>
    simp only [place] at taken
    split at taken
    case isTrue full =>
      cases taken
      exact transition_of_move place rfl rfl fun _ => .inr full
    case isFalse room =>
      cases taken
      exact .admits proc place room
  | sleepPtable =>
    simp only [place] at taken
    split at taken
    case isTrue free =>
      cases taken
      exact .lockPtable proc place free
    case isFalse => cases taken
  | sleepRelease =>
    simp only [place] at taken
    cases taken
    -- the process gives up log.lock while it holds ptable.lock
    exact .release proc _ (by rw [place]; rfl) (by rw [place]; rfl) rfl
      fun _ => by rw [place]; rfl
  | sleepSched =>
    simp only [place] at taken
    cases taken
    exact .sleep proc place
  | logWriteLocked number =>
    simp only [place] at taken
    cases taken
    exact .store proc number place
  | endLocked =>
    simp only [place] at taken
    split at taken
    case isTrue committing =>
      cases taken
      exact .surprise proc place committing
    case isFalse quiet =>
      split at taken
      case isTrue alone =>
        cases taken
        exact .last proc place (by simpa using quiet) alone
      case isFalse others =>
        cases taken
        exact .leave proc place (by simpa using quiet) others
  | endWakeup =>
    rw [place] at taken
    exact transition_of_wakeup taken (by rw [place]; rfl) (by rw [place]; rfl) rfl rfl
  | commitWakeup =>
    rw [place] at taken
    exact transition_of_wakeup taken (by rw [place]; rfl) (by rw [place]; rfl) rfl rfl
  | endRelease =>
    simp only [place] at taken
    cases taken
    exact .release proc _ (by rw [place]; rfl) (by rw [place]; rfl) rfl
      (by simp [waits])
  | endReleaseCommit =>
    simp only [place] at taken
    cases taken
    exact .release proc _ (by rw [place]; rfl) (by rw [place]; rfl) rfl
      (by simp [waits])
  | commitRelease =>
    simp only [place] at taken
    cases taken
    exact .release proc _ (by rw [place]; rfl) (by rw [place]; rfl) rfl
      (by simp [waits])
  | commitStart =>
    simp only [place] at taken
    split at taken
    case isTrue =>
      cases taken
      exact transition_of_move place rfl rfl (by simp [waits])
    case isFalse nothing =>
      cases taken
      exact .skip proc place (by simpa using nothing)
  | commitWrite =>
    simp only [place] at taken
    cases taken
    exact .post proc place
  | commitInstall =>
    simp only [place] at taken
    cases taken
    exact transition_of_move place rfl rfl (by simp [waits])
  | commitClear =>
    simp only [place] at taken
    cases taken
    exact .clear proc place
  | commitErase =>
    simp only [place] at taken
    cases taken
    exact transition_of_move place rfl rfl (by simp [waits])
  | commitUnset =>
    simp only [place] at taken
    cases taken
    exact .unset proc place
  | idle => simp [place] at taken
  | inOp => simp [place] at taken
  | sleeping => simp [place] at taken
  | panicked message => simp [place] at taken

theorem transition_of_step (taken : s.step action = some next) : Transition s action next := by
  cases action with
  | advance proc => exact transition_of_advance taken
  | beginOp proc =>
    simp only [State.step, Option.ite_none_right_eq_some, Option.some.injEq] at taken
    obtain ⟨place, rfl⟩ := taken
    exact transition_of_move place rfl rfl (by simp [waits])
  | endOp proc =>
    simp only [State.step, Option.ite_none_right_eq_some, Option.some.injEq] at taken
    obtain ⟨place, rfl⟩ := taken
    exact transition_of_move place rfl rfl (by simp [waits])
  | kill proc =>
    simp only [State.step, Option.ite_none_right_eq_some, Option.some.injEq] at taken
    obtain ⟨⟨place, _⟩, rfl⟩ := taken
    exact transition_of_move place rfl rfl (by simp [waits])
  | logWrite proc number =>
    simp only [State.step, Option.ite_none_right_eq_some] at taken
    obtain ⟨place, taken⟩ := taken
    split at taken
    case isTrue tooBig =>
      cases taken
      exact .overflow proc number place tooBig
    case isFalse =>
      split at taken
      all_goals
        cases taken
        exact transition_of_move place rfl rfl (by simp [waits])

end Xv6.Log
