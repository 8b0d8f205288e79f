import Xv6.Pipe.Transitions

/-!
# Wakeups on a pipe

A process sleeps on `&p->nread` only while the pipe is empty and its write end
open, and on `&p->nwrite` only while it is full and its read end open, as long
as no `pipewrite` fails while a process sleeps on `&p->nread`: the failing call
has filled the pipe and does not wake the readers.
-/

namespace Xv6.Pipe

open Foundation.Transition
open Function (update update_of_ne update_self)
open Foundation (Ring)

variable {Process : Type} [DecidableEq Process]

/-- A process that waits for a channel has a reason to, or will be awakened. -/
def Core.Awake (core : Core Process) (chan : Channel) : Prop :=
  (∃ proc, (core.location proc).waits chan = true) → core.Blocked chan ∨
      ∃ proc, (core.location proc).wakes chan = true

/-- When `pipewrite` fails, nobody sleeps on `&p->nread` or is about to. -/
def Careful (s : State Process) : Action Process → Prop
  | .advance proc => s.GivesUp proc → ∀ other, (s.location other).waits .nread = false
  | _ => True

instance [Fintype Process] (s : State Process) (action : Action Process) :
    Decidable (Careful s action) :=
  match action with
  | .advance _ => inferInstanceAs (Decidable (_ → ∀ _, _))
  | .write _ _ | .read _ _ | .close _ _ | .share _ _ _ | .kill _ => inferInstanceAs (Decidable True)

/-- What holds in every state of every run without a failing writer. -/
structure Wakeups (core : Core Process) : Prop where
  /-- Exactly the holder of `p->lock` is in a critical section of it. -/
  lock : Exclusive Location.holds core.location core.lock
  /-- Exactly the holder of `ptable.lock` is in a critical section of it. -/
  ptable : Exclusive Location.holdsPtable core.location core.ptableLock
  /-- No wakeup is lost. -/
  awake : ∀ chan, core.Awake chan

variable {proc : Process} {chan : Channel}

section Awake

variable {core moved : Core Process} {target : Location}

/-- One process moves; it waits only with a reason and goes on to wake. -/
theorem Core.Awake.move (awake : core.Awake chan) (blocked : core.Blocked chan → moved.Blocked chan)
    (location : moved.location = update core.location proc target)
    (waits : target.waits chan = true → (core.location proc).waits chan = true ∨ core.Blocked chan)
    (wakes : (core.location proc).wakes chan = true → target.wakes chan = true) :
    moved.Awake chan := by
  rintro ⟨waiter, waiting⟩
  rw [location] at waiting
  have before : core.Blocked chan ∨ ∃ proc, (core.location proc).wakes chan = true := by
    by_cases same : waiter = proc
    · subst same
      rw [update_self] at waiting
      rcases waits waiting with already | reason
      · exact awake ⟨waiter, already⟩
      · exact .inl reason
    · rw [update_of_ne same] at waiting
      exact awake ⟨waiter, waiting⟩
  rcases before with reason | ⟨waker, waking⟩
  · exact .inl (blocked reason)
  · refine .inr ⟨waker, ?_⟩
    rw [location]
    by_cases same : waker = proc
    · subst same
      rw [update_self]
      exact wakes waking
    · rwa [update_of_ne same]

theorem Core.Awake.of_wakes (location : moved.location = update core.location proc target)
    (wakes : target.wakes chan = true) : moved.Awake chan := by
  intro _
  refine .inr ⟨proc, ?_⟩
  rwa [location, update_self]

/-- Nobody waits, and the process that moves does not start to. -/
theorem Core.Awake.of_none (none : ∀ proc, (core.location proc).waits chan = false)
    (location : moved.location = update core.location proc target)
    (waits : target.waits chan = false) : moved.Awake chan := by
  rintro ⟨waiter, waiting⟩
  rw [location] at waiting
  by_cases same : waiter = proc
  · subst same
    rw [update_self, waits] at waiting
    cases waiting
  · rw [update_of_ne same, none] at waiting
    cases waiting

omit [DecidableEq Process] in
/-- Nobody waits without a reason while the holder of `p->lock` does not
owe a wakeup. -/
theorem Wakeups.none_waits (wakeups : Wakeups core) (proc : Process)
    (held : (core.location proc).holds = true) (free : ¬ core.Blocked chan)
    (still : (core.location proc).wakes chan = false) (waiter : Process) :
    (core.location waiter).waits chan = false := by
  by_contra waiting
  rcases wakeups.awake chan ⟨waiter, by simpa using waiting⟩ with reason | ⟨waker, waking⟩
  · exact free reason
  · have same := wakeups.lock.unique held (Location.holds_of_wakes waking)
    subst same
    rw [still] at waking
    cases waking

end Awake

section Awakened

variable {core : Core Process}

omit [DecidableEq Process] in
/-- What `wakeup` does to a process. -/
theorem awakened_cases (core : Core Process) (chan : Channel) (proc : Process) :
    core.awakened chan proc = core.location proc ∧
        (∀ sleeper, core.location proc = .sleep sleeper .sleeping → sleeper.channel ≠ chan) ∨
      ∃ sleeper, core.location proc = .sleep sleeper .sleeping ∧ sleeper.channel = chan ∧
        core.awakened chan proc = .sleep sleeper .reacquire := by
  unfold Core.awakened
  split
  case h_1 sleeper here =>
    split
    case isTrue same => exact .inr ⟨sleeper, here, same, rfl⟩
    case isFalse apart =>
      refine .inl ⟨here.symm, fun other place => ?_⟩
      rw [here] at place
      cases place
      exact apart
  case h_2 awake => exact .inl ⟨rfl, fun sleeper place => absurd place (awake sleeper)⟩

omit [DecidableEq Process] in
theorem holds_awakened (core : Core Process) (chan : Channel) (proc : Process) :
    (core.awakened chan proc).holds = (core.location proc).holds ∧
      (core.awakened chan proc).holdsPtable = (core.location proc).holdsPtable := by
  rcases awakened_cases core chan proc with ⟨same, -⟩ | ⟨sleeper, here, -, awake⟩
  · rw [same]
    exact ⟨rfl, rfl⟩
  · rw [here, awake]
    exact ⟨rfl, rfl⟩

/-- A process that waits has one of the locks, or is asleep. -/
theorem waits_cases {location : Location} (waits : location.waits chan = true) :
    location.holds = true ∨ location.holdsPtable = true ∨
      ∃ sleeper, location = .sleep sleeper .sleeping ∧ sleeper.channel = chan := by
  cases location with
  | idle => cases waits
  | acquire call => cases waits
  | locked place => exact .inl rfl
  | sleep sleeper phase =>
    cases phase with
    | ptable => exact .inl rfl
    | release => exact .inl rfl
    | sched => exact .inr (.inl rfl)
    | sleeping => exact .inr (.inr ⟨sleeper, rfl, of_decide_eq_true waits⟩)
    | reacquire => cases waits

omit [DecidableEq Process] in
theorem waits_of_awakened {other : Channel} (waits : (core.awakened chan proc).waits other = true) :
    (core.location proc).waits other = true := by
  rcases awakened_cases core chan proc with ⟨same, -⟩ | ⟨sleeper, -, -, awake⟩
  · rwa [same] at waits
  · rw [awake] at waits
    cases waits

omit [DecidableEq Process] in
theorem wakes_awakened {other : Channel} (wakes : (core.location proc).wakes other = true) :
    (core.awakened chan proc).wakes other = true := by
  rcases awakened_cases core chan proc with ⟨same, -⟩ | ⟨sleeper, here, -, -⟩
  · rwa [same]
  · rw [here] at wakes
    simp [Location.wakes] at wakes

omit [DecidableEq Process] in
/-- After `wakeup` by the holder of `p->lock`, nobody else waits for the
channel. -/
theorem Wakeups.awakened_waits {other : Process} (wakeups : Wakeups core)
    (free : core.ptableLock = none) (held : (core.location proc).holds = true)
    (apart : other ≠ proc) : (core.awakened chan other).waits chan = false := by
  by_contra waiting
  have waits : (core.awakened chan other).waits chan = true := by
    simpa using waiting
  rcases waits_cases (waits_of_awakened waits) with holds | ptable | ⟨sleeper, here, same⟩
  · exact apart (wakeups.lock.unique holds held)
  · have holder := (wakeups.ptable other).mp ptable
    rw [free] at holder
    cases holder
  · rcases awakened_cases core chan other with ⟨-, asleep⟩ | ⟨sleeper, -, -, awake⟩
    · exact asleep sleeper here same
    · rw [awake] at waits
      cases waits

end Awakened

section Preservation

variable {s next : State Process}

section

variable (wakeups : Wakeups s.toCore)
include wakeups

theorem Wakeups.awake_wakeup {moved : Core Process} {chan other : Channel} {target : Location}
    (blocked : s.Blocked other → moved.Blocked other)
    (location : moved.location = update (s.awakened chan) proc target)
    (free : s.ptableLock = none) (held : (s.location proc).holds = true)
    (waits : ∀ other, target.waits other = true →
      other ≠ chan ∧ (s.location proc).waits other = true)
    (wakes : ∀ other, (s.location proc).wakes other = true → other = chan) : moved.Awake other := by
  rintro ⟨waiter, waiting⟩
  rw [location] at waiting
  have before : other ≠ chan ∧ (s.location waiter).waits other = true := by
    by_cases same : waiter = proc
    · subst same
      rw [update_self] at waiting
      exact waits other waiting
    · rw [update_of_ne same] at waiting
      refine ⟨?_, waits_of_awakened waiting⟩
      rintro rfl
      rw [wakeups.awakened_waits free held same] at waiting
      cases waiting
  rcases wakeups.awake other ⟨waiter, before.2⟩ with reason | ⟨waker, waking⟩
  · exact .inl (blocked reason)
  · refine .inr ⟨waker, ?_⟩
    have apart : waker ≠ proc := by
      rintro rfl
      exact before.1 (wakes other waking)
    rw [location, update_of_ne apart]
    exact wakes_awakened waking

theorem Wakeups.wakeup {chan : Channel} {target : Location} (free : s.ptableLock = none)
    (held : (s.location proc).holds = true) (holds : target.holds = true)
    (ptable : target.holdsPtable = false)
    (waits : ∀ other, target.waits other = true →
      other ≠ chan ∧ (s.location proc).waits other = true)
    (wakes : ∀ other, (s.location proc).wakes other = true → other = chan) :
    Wakeups { s.toCore with
      location := update (s.awakened chan) proc target } where
  lock := by
    have awakened := wakeups.lock.congr fun other =>
      (holds_awakened s.toCore chan other).1
    refine awakened.move ?_
    rw [(holds_awakened _ _ _).1, holds, held]
  ptable := by
    have awakened := wakeups.ptable.congr fun other =>
      (holds_awakened s.toCore chan other).2
    refine awakened.move ?_
    rw [(holds_awakened _ _ _).2, ptable]
    have outside := wakeups.ptable
    rw [free] at outside
    exact (outside.outside proc).symm
  awake := fun _ => wakeups.awake_wakeup id rfl free held waits wakes

theorem Wakeups.store {addr : List Byte} {i : Nat} {byte : Byte}
    (place : s.location proc = .locked (.writeLoop addr i)) (room : ¬ s.ring.Full) :
    Wakeups { s.toCore.goto proc
        (.locked (.writeLoop addr (i + 1))) with
      ring := s.ring.push byte
      stored := s.stored ++ [(proc, byte)] } where
  lock := wakeups.lock.move (by rw [place]; rfl)
  ptable := wakeups.ptable.move (by rw [place]; rfl)
  awake := by
    intro chan
    cases chan with
    | nread => exact .of_wakes rfl rfl
    | nwrite =>
      refine .of_none (wakeups.none_waits proc ?_ (fun reason => room reason.1) ?_) rfl rfl
      · rw [place]
        rfl
      · rw [place]
        rfl

/-- `piperead` takes a byte. -/
theorem Wakeups.deliver {n i : Nat} (place : s.location proc = .locked (.readCopy n i))
    (some : ¬ s.ring.Empty) :
    Wakeups { s.toCore.goto proc (.locked (.readCopy n (i + 1))) with
      ring := s.ring.pop
      delivered := s.delivered ++ [s.ring.top] } where
  lock := wakeups.lock.move (by rw [place]; rfl)
  ptable := wakeups.ptable.move (by rw [place]; rfl)
  awake := by
    intro chan
    cases chan with
    | nwrite => exact .of_wakes rfl rfl
    | nread =>
      refine .of_none (wakeups.none_waits proc ?_ (fun reason => some reason.1) ?_) rfl rfl
      · rw [place]
        rfl
      · rw [place]
        rfl

theorem Wakeups.close {writable : Bool} (place : s.location proc = .locked (.closeStart writable)) :
    Wakeups { s.toCore.goto proc (.locked (.closeWakeup writable)) with
      writeopen := !writable && s.writeopen
      readopen := writable && s.readopen } where
  lock := wakeups.lock.move (by rw [place]; rfl)
  ptable := wakeups.ptable.move (by rw [place]; rfl)
  awake := by
    intro chan
    cases chan <;> cases writable
    case nread.true | nwrite.false => exact .of_wakes rfl rfl
    all_goals
      refine (wakeups.awake _).move id rfl (fun waits => by cases waits) ?_
      rw [place]
      simp [Location.wakes]

/-- `pipewrite` fails while nobody waits for `&p->nread`. -/
theorem Wakeups.giveUp (givesUp : s.GivesUp proc)
    (nobody : ∀ other, (s.location other).waits .nread = false) :
    Wakeups (s.toCore.goto proc (.locked .leave)) := by
  obtain ⟨addr, i, place⟩ := Location.writeLoop_of_unfinished givesUp.1
  refine ⟨wakeups.lock.move ?_, wakeups.ptable.move ?_, fun chan => ?_⟩
  · rw [place]
    rfl
  · rw [place]
    rfl
  · cases chan with
    | nread => exact .of_none nobody rfl rfl
    | nwrite =>
      refine (wakeups.awake _).move id rfl (fun waits => by cases waits) ?_
      rw [place]
      simp [Location.wakes]

/-- Every step keeps the invariant, unless `pipewrite` fails while a process
waits for `&p->nread`. -/
theorem Wakeups.transition {action : Action Process} (transition : Transition s next action)
    (careful : Careful s action) : Wakeups next.toCore := by
  cases transition with
  | move _ proc target core holds ptable _ waits wakes =>
    rw [core]
    exact ⟨wakeups.lock.move holds, wakeups.ptable.move ptable,
      fun chan => (wakeups.awake chan).move id rfl (waits chan) (wakes chan)⟩
  | start proc addr place core =>
    rw [core]
    refine ⟨wakeups.lock.move ?_, wakeups.ptable.move ?_, fun chan =>
      (wakeups.awake chan).move id rfl (fun waits => by cases waits) ?_⟩
    · rw [place]
      rfl
    · rw [place]
      rfl
    · rw [place]
      simp [Location.wakes]
  | acquire proc place free waits wakes ptable _ core =>
    have lock := wakeups.lock
    rw [free] at lock
    rw [core]
    refine ⟨lock.enter rfl, wakeups.ptable.move ptable.symm, fun chan =>
      (wakeups.awake chan).move id rfl ?_ ?_⟩
    · rw [waits chan]
      exact fun here => absurd here Bool.false_ne_true
    · rw [wakes chan]
      exact fun here => absurd here Bool.false_ne_true
  | release proc target held gives ptable waits wakes _ core =>
    rw [core]
    refine ⟨wakeups.lock.leave held gives, wakeups.ptable.move ptable,
      fun chan => (wakeups.awake chan).move id rfl
        (fun waiting => .inl (waits chan waiting)) ?_⟩
    rw [wakes chan]
    exact fun here => absurd here Bool.false_ne_true
  | lockPtable proc sleeper place free core =>
    have ptable := wakeups.ptable
    rw [free] at ptable
    rw [core]
    refine ⟨wakeups.lock.move ?_, ptable.enter rfl, fun chan =>
      (wakeups.awake chan).move id rfl ?_ ?_⟩
    · rw [place]
      rfl
    · rw [place]
      exact .inl
    · rw [place]
      simp [Location.wakes]
  | sleep proc sleeper place core =>
    rw [core]
    refine ⟨wakeups.lock.move ?_, wakeups.ptable.leave ?_ rfl, fun chan =>
      (wakeups.awake chan).move id rfl ?_ ?_⟩
    · rw [place]
      rfl
    · rw [place]
      rfl
    · rw [place]
      exact .inl
    · rw [place]
      simp [Location.wakes]
  | wakeup proc chan target free held holds ptable _ waits wakes core =>
    rw [core]
    exact wakeups.wakeup free held holds ptable waits wakes
  | store proc addr i byte place _ room core =>
    rw [core]
    exact wakeups.store place room
  | giveUp proc givesUp core =>
    rw [core]
    exact wakeups.giveUp givesUp (careful givesUp)
  | deliver proc n i place some core =>
    rw [core]
    exact wakeups.deliver place some
  | close proc writable place core =>
    rw [core]
    exact wakeups.close place

end

end Preservation

theorem wakeups_opened (counter : BitVec 32) (data : Fin pipesize → Byte) (owner : Process) :
    Wakeups (opened counter data owner).toCore where
  lock := fun _ => by simp [opened, Location.holds]
  ptable := fun _ => by simp [opened, Location.holdsPtable]
  awake := by
    rintro chan ⟨proc, waiting⟩
    cases waiting

variable [Fintype Process]

/-- In every run in which no `pipewrite` fails while a process sleeps on
`&p->nread` or is about to, whenever both locks are free a process sleeps on
`&p->nread` only while the pipe is empty and has writers, and on `&p->nwrite`
only while it is full and has readers. -/
theorem asleep_of_run {data : Fin pipesize → Byte} {owner : Process}
    {actions : List (Action Process)} {final : State Process}
    (ended : run State.step (pipealloc data owner) actions = some final)
    (careful : Along State.step Careful (pipealloc data owner) actions)
    (unlocked : final.lock = none) :
    (∀ proc n, final.location proc = .sleep (.read n) .sleeping →
        final.ring.nread = final.ring.nwrite ∧ final.writeopen = true) ∧
      ∀ proc addr i, final.location proc = .sleep (.write addr i) .sleeping →
        final.ring.nwrite = final.ring.nread + 512 ∧ final.readopen = true := by
  have wakeups : Wakeups final.toCore :=
    run_invariant_along (fun s => Wakeups s.toCore)
      (fun _ _ _ wakeups careful taken =>
        wakeups.transition (transition_of_step taken) careful)
      (wakeups_opened 0 data owner) careful ended
  have asleep : ∀ proc sleeper, final.location proc = .sleep sleeper .sleeping →
        final.Blocked sleeper.channel := by
    intro proc sleeper here
    have waits : (final.location proc).waits sleeper.channel = true := by
      rw [here]
      exact decide_eq_true rfl
    rcases wakeups.awake _ ⟨proc, waits⟩ with reason | ⟨waker, waking⟩
    · exact reason
    · have holder := (wakeups.lock waker).mp (Location.holds_of_wakes waking)
      rw [unlocked] at holder
      cases holder
  exact ⟨fun proc n here => asleep proc (.read n) here,
    fun proc addr i here => asleep proc (.write addr i) here⟩

/-- Process 1 sleeps in `piperead`, is awakened by a byte of process 0, and
sleeps again. -/
def readerRun : List (Action (Fin 2)) :=
  [.share 0 1 false, .read 1 1] ++ List.replicate 5 (.advance 1) ++
    [.write 0 [7]] ++ List.replicate 5 (.advance 0) ++
    List.replicate 6 (.advance 1) ++ [.read 1 1] ++
    List.replicate 5 (.advance 1)

theorem asleep_readerRun : ∃ final, run State.step (pipealloc (fun _ => 0) 0) readerRun =
        some final ∧
      final.location 1 = .sleep (.read 1) .sleeping ∧
      final.ring.nread = final.ring.nwrite ∧ final.writeopen = true := by
  have seen : (run State.step (pipealloc (fun _ => 0) 0) readerRun).map
      (fun final => (final.lock, final.location 1)) = some (none, .sleep (.read 1) .sleeping) := by
    decide +kernel
  obtain ⟨final, ended, same⟩ := Option.map_eq_some_iff.mp seen
  have asleep := congrArg Prod.snd same
  exact ⟨final, ended, asleep, (asleep_of_run ended
    (by decide +kernel) (congrArg Prod.fst same)).1 1 1 asleep⟩

/-- Process 1 sleeps in `piperead`; process 0 is killed in a `pipewrite` of
more than `PIPESIZE` bytes. -/
def killedRun : List (Action (Fin 2)) :=
  [.share 0 1 false, .read 1 1] ++ List.replicate 5 (.advance 1) ++
    [.write 0 (List.replicate (pipesize + 1) 7), .kill 0] ++
    List.replicate (pipesize + 3) (.advance 0)

/-- The reader sleeps while the pipe is full. -/
theorem asleep_killedRun : ∃ final, run State.step (pipealloc (fun _ => 0) 0) killedRun =
        some final ∧
      final.lock = none ∧ final.ptableLock = none ∧
      final.location 1 = .sleep (.read 1) .sleeping ∧
      final.ring.nread ≠ final.ring.nwrite := by
  have seen : (run State.step (pipealloc (fun _ => 0) 0) killedRun).map
      (fun final => (final.lock, final.ptableLock, final.location 1,
        decide (final.ring.nread = final.ring.nwrite))) =
        some (none, none, .sleep (.read 1) .sleeping, false) := by
    decide +kernel
  obtain ⟨final, ended, same⟩ := Option.map_eq_some_iff.mp seen
  simp only [Prod.mk.injEq, decide_eq_false_iff_not] at same
  exact ⟨final, ended, same⟩

end Xv6.Pipe
