import Xv6.Foundation.Monitor

/-!
# Sleep locks

`acquiresleep`, `releasesleep` and `holdingsleep` of `sleeplock.c`, by any
number of processes on one lock.  The data of the monitor is the lock, its lock
is `lk->lk`, and the lock of the table is `ptable.lock`; `kill` may wake a
sleeper at any time.  The lock names its holder by the pid, so `holdingsleep`
tells the holder from the others only while pids are different.
-/

namespace Xv6.Process

open Foundation.Monitor
open Function (update update_of_ne update_self)
open Foundation.Transition (run)

/-- `struct sleeplock`.  `between` records which processes are between their
`acquiresleep` and `releasesleep` and is not read by the code. -/
structure Sleeplock (Process : Type) where
  locked : Bool
  pid : Int
  between : Process → Bool

/-- Places in the code that runs under `lk->lk`. -/
inductive SleeplockPlace
  /-- `acquiresleep`, at the head of its loop. -/
  | acquireLoop
  /-- `releasesleep`, before it changes the lock. -/
  | release
  /-- `releasesleep`, before its `wakeup`. -/
  | releaseWakeup
  /-- `releasesleep`, before `release(&lk->lk)`. -/
  | releaseEnd
  /-- `holdingsleep`. -/
  | holding
  deriving DecidableEq

/-- The lock is the only channel. -/
abbrev SleeplockChannel := Unit

namespace Sleeplock

variable {Process : Type}

/-- `initsleeplock`. -/
def init : Sleeplock Process where
  locked := false
  pid := 0
  between := fun _ => false

/-- The result of `holdingsleep`. -/
def holdingsleep (lk : Sleeplock Process) (pid : Int) : Bool :=
  lk.locked && decide (lk.pid = pid)

variable [DecidableEq Process] (pidOf : Process → Int)

/-- The code that a process runs under `lk->lk`. -/
def inside (proc : Process) (lk : Sleeplock Process) :
    SleeplockPlace → Outcome (Sleeplock Process) SleeplockPlace SleeplockChannel
  | .acquireLoop =>
    if lk.locked then .sleep () .acquireLoop
    else .leave
      { locked := true
        pid := pidOf proc
        between := Function.update lk.between proc true }
  | .release =>
    .go
      { locked := false
        pid := 0
        between := Function.update lk.between proc false }
      .releaseWakeup
  | .releaseWakeup => .wakeup () .releaseEnd
  | .releaseEnd => .leave lk
  | .holding => .leave lk

omit [DecidableEq Process] in
/-- Any process may call `acquiresleep` and `holdingsleep`; the holder may call
`releasesleep`. -/
def starts (proc : Process) (lk : Sleeplock Process) :
    SleeplockPlace → Option (Sleeplock Process)
  | .acquireLoop | .holding => some lk
  | .release => if lk.between proc then some lk else none
  | .releaseWakeup | .releaseEnd => none

/-- The calls on a sleep lock. -/
def code : Code Process (Sleeplock Process) SleeplockPlace SleeplockChannel where
  starts := starts
  inside := fun proc lk place => some (inside pidOf proc lk place)

variable {proc : Process} {places : Process → Option SleeplockPlace} {lk : Sleeplock Process}

omit [DecidableEq Process] in
theorem starts_cases {lk' : Sleeplock Process} {place : SleeplockPlace}
    (starts : starts proc lk place = some lk') :
    lk' = lk ∧ (place = .release → lk.between proc = true) := by
  cases place with
  | acquireLoop | holding =>
    cases starts
    exact ⟨rfl, fun release => by cases release⟩
  | release =>
    obtain ⟨inside, ⟨⟩⟩ := Option.ite_none_right_eq_some.mp starts
    exact ⟨rfl, fun _ => inside⟩
  | releaseWakeup | releaseEnd => cases starts

/-- While the lock is held one process is between the calls, `lk->pid` is its
pid, and who is about to release the lock is that process. -/
structure Held (lk : Sleeplock Process) (places : Process → Option SleeplockPlace) : Prop where
  holder : lk.locked = true → ∃ holder, lk.pid = pidOf holder ∧
    ∀ proc, lk.between proc = true ↔ proc = holder
  free : lk.locked = false → ∀ proc, lk.between proc = false
  releasing : ∀ proc, places proc = some .release → lk.between proc = true

variable {pidOf}

omit [DecidableEq Process] in
theorem Held.locked (held : Held pidOf lk places) (inside : lk.between proc = true) :
    lk.locked = true := by
  by_contra unlocked
  rw [held.free (Bool.eq_false_iff.mpr unlocked)] at inside
  cases inside

/-- A process moves to a place other than the start of `releasesleep`. -/
theorem Held.move {target : Option SleeplockPlace} (held : Held pidOf lk places)
    (other : target = some .release → lk.between proc = true) :
    Held pidOf lk (update places proc target) where
  holder := held.holder
  free := held.free
  releasing := by
    intro other here
    by_cases same : other = proc
    · subst same
      rw [update_self] at here
      tauto
    · rw [update_of_ne same] at here
      exact held.releasing other here

/-- The lock is taken while it is free. -/
theorem Held.acquire (held : Held pidOf lk places) (free : lk.locked = false) :
    Held pidOf ⟨true, pidOf proc, update lk.between proc true⟩
      (update places proc none) where
  holder := by
    refine fun _ => ⟨proc, rfl, fun other => ?_⟩
    by_cases same : other = proc
    · simp [same]
    · simp [held.free free other, same]
  free := by simp
  releasing := by
    intro other here
    by_cases same : other = proc
    · subst same
      rw [update_self] at here
      cases here
    · rw [update_of_ne same] at here
      have inside := held.releasing other here
      rw [held.free free other] at inside
      cases inside

/-- The holder gives the lock back. -/
theorem Held.release (held : Held pidOf lk places) (here : places proc = some .release) :
    Held pidOf ⟨false, 0, update lk.between proc false⟩
      (update places proc (some .releaseWakeup)) := by
  have inside := held.releasing proc here
  obtain ⟨holder, -, only⟩ := held.holder (held.locked inside)
  obtain rfl := (only proc).mp inside
  have alone : ∀ other, other ≠ proc → lk.between other = false := fun other apart =>
    Bool.eq_false_iff.mpr fun inside => apart ((only other).mp inside)
  refine ⟨fun locked => (by cases locked), fun _ other => ?_, fun other waiting => ?_⟩
  · by_cases same : other = proc
    · simp [same]
    · simp [update_of_ne same, alone other same]
  · by_cases same : other = proc
    · subst same
      rw [update_self] at waiting
      cases waiting
    · rw [update_of_ne same] at waiting
      have inside := held.releasing other waiting
      rw [alone other same] at inside
      cases inside

/-- The code keeps the invariant. -/
theorem preserves_held : Preserves (code pidOf) fun lk places _ => Held pidOf lk places where
  enter := by
    intro lk places running pid place lk' held outside starts
    obtain ⟨rfl, holder⟩ := starts_cases starts
    exact held.move fun release => holder (Option.some.inj release)
  take := fun held _ => held
  go := by
    intro lk places pid place lk' target held here does
    cases place with
    | acquireLoop =>
      simp only [code, inside, Option.some.injEq] at does
      split at does <;> cases does
    | release =>
      cases does
      exact held.release here
    | releaseWakeup | releaseEnd | holding => cases does
  wakeup := by
    intro lk places pid place chan target held here does
    cases place with
    | acquireLoop =>
      simp only [code, inside, Option.some.injEq] at does
      split at does <;> cases does
    | releaseWakeup =>
      cases does
      exact held.move fun release => by cases release
    | release | releaseEnd | holding => cases does
  sleep := by
    intro lk places pid place chan target held here does
    cases place with
    | acquireLoop =>
      simp only [code, inside, Option.some.injEq] at does
      split at does
      case isTrue =>
        cases does
        exact held.move fun release => by cases release
      case isFalse => cases does
    | release | releaseWakeup | releaseEnd | holding => cases does
  leave := by
    intro lk places pid place lk' held here does
    cases place with
    | acquireLoop =>
      simp only [code, inside, Option.some.injEq] at does
      split at does
      case isTrue => cases does
      case isFalse free =>
        cases does
        exact held.acquire (by simpa using free)
    | releaseEnd | holding =>
      cases does
      exact held.move fun release => by cases release
    | release | releaseWakeup => cases does

/-- A process sleeps while the lock is held, and `releasesleep` wakes. -/
theorem wakeful : Wakeful (code pidOf) (fun _ lk => lk.locked = true)
      (fun _ place => place = .releaseWakeup) where
  enter := by
    intro pid lk place lk' chan starts locked
    rw [(starts_cases starts).1]
    exact locked
  go := by
    intro pid lk place lk' target chan does
    cases place with
    | acquireLoop =>
      simp only [code, inside, Option.some.injEq] at does
      split at does <;> cases does
    | release =>
      cases does
      exact ⟨fun owes => (by cases owes), fun _ => .inr rfl⟩
    | releaseWakeup | releaseEnd | holding => cases does
  wakeup := by
    intro pid lk place awake target chan _ apart
    exact absurd rfl apart
  sleep := by
    intro pid lk place asleep target does
    cases place with
    | acquireLoop =>
      simp only [code, inside, Option.some.injEq] at does
      split at does
      case isTrue locked => exact ⟨locked, fun _ owes => by cases owes⟩
      case isFalse => cases does
    | release | releaseWakeup | releaseEnd | holding => cases does
  leave := by
    intro pid lk place lk' chan does
    cases place with
    | acquireLoop =>
      simp only [code, inside, Option.some.injEq] at does
      split at does
      case isTrue => cases does
      case isFalse =>
        cases does
        exact ⟨fun owes => (by cases owes), fun _ => rfl⟩
    | releaseEnd | holding =>
      cases does
      exact ⟨fun owes => (by cases owes), id⟩
    | release | releaseWakeup => cases does

/-- In every state of every run at most one process is between `acquiresleep`
and `releasesleep`, and `lk->pid` is its pid; `holdingsleep` is true for exactly
that one if no two processes have the same pid; and nobody sleeps on a lock that
is free. -/
theorem exclusive_of_run {actions : List (Action Process SleeplockPlace)}
    {final : State Process (Sleeplock Process) SleeplockPlace SleeplockChannel}
    (ended : run (State.step (code pidOf)) (idle Process init) actions = some final) :
    (∀ proc other, final.data.between proc = true → final.data.between other = true →
      proc = other) ∧
    (∀ proc, final.data.between proc = true →
      final.data.locked = true ∧ final.data.pid = pidOf proc) ∧
    (Function.Injective pidOf →
      ∀ proc, final.data.holdingsleep (pidOf proc) = final.data.between proc) ∧
    (final.lock = none → final.table = none → final.data.locked = false →
      ∀ proc place, final.location proc ≠ .sleep () place .sleeping) := by
  obtain ⟨-, held⟩ := preserves_held.run
    ⟨fun locked => (by cases locked), fun _ _ => rfl, fun _ here => (by cases here)⟩ ended
  refine ⟨fun proc other first second => ?_, fun proc inside => ?_,
    fun distinct proc => ?_, fun free _ unlocked proc place asleep => ?_⟩
  · obtain ⟨holder, -, only⟩ := held.holder (held.locked first)
    exact ((only proc).mp first).trans ((only other).mp second).symm
  · obtain ⟨holder, named, only⟩ := held.holder (held.locked inside)
    rw [(only proc).mp inside]
    exact ⟨held.locked inside, named⟩
  · unfold holdingsleep
    cases locked : final.data.locked with
    | false => exact (held.free locked proc).symm
    | true =>
      obtain ⟨holder, named, only⟩ := held.holder locked
      rw [Bool.eq_iff_iff, only, named, Bool.true_and, decide_eq_true_eq, distinct.eq_iff, eq_comm]
  · have locked := wakeful.run ended free asleep
    rw [unlocked] at locked
    cases locked

/-- A process takes the lock, a second one sleeps on it and is awakened by
`kill`, sleeps again, and gets the lock when the first one is done. -/
def contendedRun : List (Action (Fin 3) SleeplockPlace) :=
  [.enter 1 .acquireLoop, .advance 1, .advance 1,
    .enter 2 .acquireLoop, .advance 2, .advance 2, .advance 2, .advance 2,
    .advance 2, .rouse 2, .advance 2, .advance 2, .advance 2, .advance 2,
    .advance 2,
    .enter 1 .release, .advance 1, .advance 1, .advance 1, .advance 1,
    .advance 2, .advance 2]

/-- The pid of the first process is 1. -/
def countingPid (proc : Fin 3) : Int :=
  proc.val + 1

theorem exclusive_contendedRun :
    ∃ final, run (State.step (code countingPid)) (idle _ init) contendedRun = some final ∧
      final.data.between 2 = true ∧ final.data.holdingsleep 3 = true ∧
      final.data.holdingsleep 2 = false := by
  have seen : ((run (State.step (code countingPid)) (idle _ init) contendedRun).map
      fun final => final.data.between 2 && !final.data.between 1) =
      some true := by
    decide
  obtain ⟨final, ended, between⟩ := Option.map_eq_some_iff.mp seen
  obtain ⟨-, -, holding, -⟩ := exclusive_of_run ended
  have distinct : Function.Injective countingPid := by decide
  rw [Bool.and_eq_true, Bool.not_eq_true'] at between
  exact ⟨final, ended, between.1, (holding distinct 2).trans between.1,
    (holding distinct 1).trans between.2⟩

/-- Of two processes with one pid the first takes the lock, and `holdingsleep`
is true for the second as well. -/
theorem holdingsleep_duplicate :
    ∃ final, run (State.step (code fun _ : Fin 2 => 1)) (idle _ init)
        [.enter 0 .acquireLoop, .advance 0, .advance 0] = some final ∧
      final.data.between 0 = true ∧ final.data.between 1 = false ∧
      final.data.holdingsleep 1 = true :=
  ⟨_, rfl, rfl, rfl, rfl⟩

end Sleeplock

end Xv6.Process
