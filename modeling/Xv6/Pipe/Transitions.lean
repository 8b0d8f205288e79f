import Xv6.Pipe.Protocol

/-!
# What a step on a pipe can do

Every step of the pipe calls is one of a few kinds.  `transition_of_step` says
so once, and the invariants are proved kind by kind.
-/

namespace Xv6.Pipe

open Foundation (Ring)

namespace Location

/-- The process holds `p->lock`. -/
def holds : Location → Bool
  | locked _ | sleep _ .ptable | sleep _ .release => true
  | _ => false

/-- The process holds `ptable.lock`. -/
def holdsPtable : Location → Bool
  | sleep _ .release | sleep _ .sched => true
  | _ => false

/-- The call of `pipewrite` that has not stored its last byte, with the number
of bytes it has stored. -/
def writing : Location → Option (List Byte × Nat)
  | acquire (.write addr) => some (addr, 0)
  | locked (.writeLoop addr i) | locked (.writeFull addr i)
  | sleep (.write addr i) _ => some (addr, i)
  | _ => none

/-- The process has decided to sleep on a channel and was not awakened. -/
def waits (chan : Channel) : Location → Bool
  | locked (.writeFull _ _) => chan = .nwrite
  | sleep _ .reacquire => false
  | sleep sleeper _ => sleeper.channel = chan
  | _ => false

/-- The process holds `p->lock` and will wake the sleepers on a channel before
it gives the lock back, unless `pipewrite` fails. -/
def wakes : Channel → Location → Bool
  | .nread, locked (.writeLoop _ _) | .nread, locked (.writeFull _ _)
  | .nread, locked .writeDone | .nread, locked (.closeWakeup true)
  | .nwrite, locked (.readCopy _ _) | .nwrite, locked .readDone
  | .nwrite, locked (.closeWakeup false) => true
  | _, _ => false

/-- `pipewrite` is at its loop with bytes left. -/
def unfinished : Location → Bool
  | locked (.writeLoop addr i) => i < addr.length
  | _ => false

theorem holds_of_wakes {chan : Channel} {location : Location}
    (wakes : location.wakes chan = true) : location.holds = true := by
  revert wakes
  fun_cases Location.wakes <;> simp [holds]

theorem writeLoop_of_unfinished {location : Location} (unfinished : location.unfinished = true) :
    ∃ addr i, location = .locked (.writeLoop addr i) := by
  revert unfinished
  fun_cases Location.unfinished
  case case1 addr i => exact fun _ => ⟨addr, i, rfl⟩
  case case2 => exact nofun

end Location

variable {Process : Type} [DecidableEq Process]

/-- The reason to sleep on a channel. -/
def Core.Blocked (core : Core Process) : Channel → Prop
  | .nread => core.ring.Empty ∧ core.writeopen = true
  | .nwrite => core.ring.Full ∧ core.readopen = true

/-- `pipewrite` is about to fail: it has bytes left, the pipe is full, and its
read end is closed or the process is killed. -/
def State.GivesUp (s : State Process) (proc : Process) : Prop :=
  (s.location proc).unfinished = true ∧ s.ring.Full ∧
    (s.readopen = false ∨ s.killed proc = true)

instance (s : State Process) (proc : Process) : Decidable (s.GivesUp proc) :=
  inferInstanceAs (Decidable (_ ∧ _ ∧ _))

/-- The kinds of steps. -/
inductive Transition (s next : State Process) : Action Process → Prop
  /-- A process moves on by itself, or is moved by `kill`. -/
  | move (action : Action Process) (proc : Process) (target : Location)
      (core : next.toCore = s.toCore.goto proc target)
      (holds : target.holds = (s.location proc).holds)
      (ptable : target.holdsPtable = (s.location proc).holdsPtable)
      (writing : target.writing = (s.location proc).writing ∨ target.writing = none)
      (waits : ∀ chan, target.waits chan = true →
        (s.location proc).waits chan = true ∨ s.Blocked chan)
      (wakes : ∀ chan, (s.location proc).wakes chan = true → target.wakes chan = true) :
      Transition s next action
  /-- `pipewrite` is called. -/
  | start (proc : Process) (addr : List Byte) (place : s.location proc = .idle)
      (core : next.toCore = { s.toCore.goto proc (.acquire (.write addr)) with
          calls := Function.update s.calls proc (s.calls proc ++ [addr]) }) :
      Transition s next (.write proc addr)
  /-- A process takes `p->lock`. -/
  | acquire (proc : Process) (place : Place) (free : s.lock = none)
      (waits : ∀ chan, (Location.locked place).waits chan = false)
      (wakes : ∀ chan, (s.location proc).wakes chan = false)
      (ptable : (s.location proc).holdsPtable = false)
      (writing : (Location.locked place).writing = (s.location proc).writing)
      (core : next.toCore = { s.toCore.goto proc (.locked place) with
          lock := some proc }) :
      Transition s next (.advance proc)
  /-- A process gives `p->lock` back. -/
  | release (proc : Process) (target : Location) (held : (s.location proc).holds = true)
      (gives : target.holds = false)
      (ptable : target.holdsPtable = (s.location proc).holdsPtable)
      (waits : ∀ chan, target.waits chan = true → (s.location proc).waits chan = true)
      (wakes : ∀ chan, (s.location proc).wakes chan = false)
      (writing : target.writing = (s.location proc).writing ∨ target.writing = none)
      (core : next.toCore = { s.toCore.goto proc target with lock := none }) :
      Transition s next (.advance proc)
  /-- `sleep` takes `ptable.lock`. -/
  | lockPtable (proc : Process) (sleeper : Sleeper)
      (place : s.location proc = .sleep sleeper .ptable)
      (free : s.ptableLock = none)
      (core : next.toCore = { s.toCore.goto proc (.sleep sleeper .release) with
          ptableLock := some proc }) :
      Transition s next (.advance proc)
  /-- `sleep` gives up the processor. -/
  | sleep (proc : Process) (sleeper : Sleeper)
      (place : s.location proc = .sleep sleeper .sched)
      (core : next.toCore = { s.toCore.goto proc (.sleep sleeper .sleeping) with
          ptableLock := none }) :
      Transition s next (.advance proc)
  /-- `wakeup` of the sleepers on a channel. -/
  | wakeup (proc : Process) (chan : Channel) (target : Location)
      (free : s.ptableLock = none)
      (held : (s.location proc).holds = true)
      (holds : target.holds = true)
      (ptable : target.holdsPtable = false)
      (writing : target.writing = (s.location proc).writing ∨ target.writing = none)
      (waits : ∀ other, target.waits other = true →
        other ≠ chan ∧ (s.location proc).waits other = true)
      (wakes : ∀ other, (s.location proc).wakes other = true → other = chan)
      (core : next.toCore = { s.toCore with
        location :=
          Function.update (s.awakened chan) proc target }) :
      Transition s next (.advance proc)
  /-- `pipewrite` stores a byte. -/
  | store (proc : Process) (addr : List Byte) (i : Nat) (byte : Byte)
      (place : s.location proc = .locked (.writeLoop addr i))
      (found : addr[i]? = some byte)
      (room : ¬ s.ring.Full)
      (core : next.toCore =
        { s.toCore.goto proc (.locked (.writeLoop addr (i + 1))) with
          ring := s.ring.push byte
          stored := s.stored ++ [(proc, byte)] }) :
      Transition s next (.advance proc)
  /-- `pipewrite` fails. -/
  | giveUp (proc : Process) (givesUp : s.GivesUp proc)
      (core : next.toCore = s.toCore.goto proc (.locked .leave)) :
      Transition s next (.advance proc)
  /-- `piperead` takes a byte. -/
  | deliver (proc : Process) (n i : Nat)
      (place : s.location proc = .locked (.readCopy n i))
      (some : ¬ s.ring.Empty)
      (core : next.toCore = { s.toCore.goto proc (.locked (.readCopy n (i + 1))) with
          ring := s.ring.pop
          delivered := s.delivered ++ [s.ring.top] }) :
      Transition s next (.advance proc)
  /-- `pipeclose` closes an end. -/
  | close (proc : Process) (writable : Bool)
      (place : s.location proc = .locked (.closeStart writable))
      (core : next.toCore =
        { s.toCore.goto proc (.locked (.closeWakeup writable)) with
          writeopen := !writable && s.writeopen
          readopen := writable && s.readopen }) :
      Transition s next (.advance proc)

section Inversion

variable {s next : State Process} {proc : Process} {action : Action Process}
variable {source : Location}

theorem transition_of_move {target : Location} (place : s.location proc = source)
    (core : next.toCore = s.toCore.goto proc target)
    (holds : target.holds = source.holds) (ptable : target.holdsPtable = source.holdsPtable)
    (writing : target.writing = source.writing ∨ target.writing = none)
    (waits : ∀ chan, target.waits chan = true → source.waits chan = true ∨ s.Blocked chan)
    (wakes : ∀ chan, source.wakes chan = true → target.wakes chan = true) :
    Transition s next action := by
  subst place
  exact .move action proc target core holds ptable writing waits wakes

/-- Nobody moves. -/
theorem transition_of_stay (proc : Process) (core : next.toCore = s.toCore) :
    Transition s next action := by
  refine .move action proc (s.location proc) ?_ rfl rfl (.inl rfl)
    (fun _ => .inl) fun _ => id
  rw [core, Core.goto, Function.update_eq_self]

theorem transition_of_acquire {place : Place} (taken : s.acquire proc place = some next)
    (here : s.location proc = source) (waits : ∀ chan, (Location.locked place).waits chan = false)
    (wakes : ∀ chan, source.wakes chan = false) (ptable : source.holdsPtable = false)
    (writing : (Location.locked place).writing = source.writing) :
    Transition s next (.advance proc) := by
  subst here
  unfold State.acquire at taken
  obtain ⟨free, ⟨⟩⟩ := Option.ite_none_right_eq_some.mp taken
  exact .acquire proc place free waits wakes ptable writing rfl

theorem transition_of_wakeup {target : Location} {chan : Channel}
    (taken : s.wakeup proc chan target = some next)
    (here : s.location proc = source) (held : source.holds = true)
    (holds : target.holds = true) (ptable : target.holdsPtable = false)
    (writing : target.writing = source.writing ∨ target.writing = none)
    (waits : ∀ other, target.waits other = true → other ≠ chan ∧ source.waits other = true)
    (wakes : ∀ other, source.wakes other = true → other = chan) :
    Transition s next (.advance proc) := by
  subst here
  unfold State.wakeup at taken
  obtain ⟨free, ⟨⟩⟩ := Option.ite_none_right_eq_some.mp taken
  exact .wakeup proc chan target free held holds ptable writing waits wakes rfl

theorem transition_of_leave (here : s.location proc = source)
    (held : source.holds = true) (ptable : source.holdsPtable = false)
    (wakes : ∀ chan, source.wakes chan = false)
    (core : next.toCore = { s.toCore.goto proc .idle with
      lock := none }) : Transition s next (.advance proc) := by
  subst here
  exact .release proc .idle held rfl ptable.symm (by simp [Location.waits]) wakes (.inr rfl) core

/-- The code under `p->lock`. -/
theorem transition_of_inside {place : Place} (here : s.location proc = .locked place)
    (taken : s.inside proc place = some next) : Transition s next (.advance proc) := by
  cases place with
  | writeLoop addr i =>
    simp only [State.inside] at taken
    split at taken
    case h_1 =>
      cases taken
      refine transition_of_move here rfl rfl rfl (.inr rfl) ?_ ?_
      · simp [Location.waits]
      · intro chan
        cases chan <;> simp [Location.wakes]
    case h_2 byte found =>
      split at taken
      case isFalse room =>
        cases taken
        exact .store proc addr i byte here found room rfl
      case isTrue full =>
        split at taken
        case isTrue fails =>
          cases taken
          obtain ⟨bound, -⟩ := List.getElem?_eq_some_iff.mp found
          refine .giveUp proc ⟨?_, full, fails⟩ rfl
          rw [here]
          exact decide_eq_true bound
        case isFalse goesOn =>
          cases taken
          obtain ⟨open_, -⟩ := not_or.mp goesOn
          refine transition_of_move here rfl rfl rfl (.inl rfl) ?_ ?_
          · intro chan waits
            cases chan with
            | nread => simp [Location.waits] at waits
            | nwrite => exact .inr ⟨full, by simpa using open_⟩
          · intro chan
            cases chan <;> simp [Location.wakes]
  | writeFull addr i =>
    refine transition_of_wakeup taken here rfl rfl rfl (.inl rfl) ?_ ?_
    · intro other
      cases other <;> simp [Location.waits, Sleeper.channel]
    · intro other
      cases other <;> simp [Location.wakes]
  | writeDone =>
    refine transition_of_wakeup taken here rfl rfl rfl (.inl rfl) ?_ ?_
    · simp [Location.waits]
    · intro other
      cases other <;> simp [Location.wakes]
  | readLoop n =>
    simp only [State.inside] at taken
    split at taken
    case isFalse =>
      cases taken
      refine transition_of_move here rfl rfl rfl (.inl rfl) ?_ ?_
      · simp [Location.waits]
      · simp [Location.wakes]
    case isTrue blocked =>
      split at taken
      case isTrue =>
        cases taken
        refine transition_of_move here rfl rfl rfl (.inl rfl) ?_ ?_
        · simp [Location.waits]
        · simp [Location.wakes]
      case isFalse =>
        cases taken
        refine transition_of_move here rfl rfl rfl (.inl rfl) ?_ ?_
        · intro chan waits
          cases chan with
          | nread => exact .inr blocked
          | nwrite => simp [Location.waits, Sleeper.channel] at waits
        · simp [Location.wakes]
  | readCopy n i =>
    simp only [State.inside] at taken
    split at taken
    case isTrue more =>
      cases taken
      exact .deliver proc n i here more.2 rfl
    case isFalse =>
      cases taken
      refine transition_of_move here rfl rfl rfl (.inl rfl) ?_ ?_
      · simp [Location.waits]
      · intro chan
        cases chan <;> simp [Location.wakes]
  | readDone =>
    refine transition_of_wakeup taken here rfl rfl rfl (.inl rfl) ?_ ?_
    · simp [Location.waits]
    · intro other
      cases other <;> simp [Location.wakes]
  | closeStart writable =>
    cases taken
    exact .close proc writable here rfl
  | closeWakeup writable =>
    refine transition_of_wakeup taken here rfl rfl rfl (.inl rfl) ?_ ?_
    · simp [Location.waits]
    · intro other
      cases other <;> cases writable <;> simp [Location.wakes]
  | closeEnd =>
    cases taken
    exact transition_of_leave here rfl rfl (by simp [Location.wakes]) rfl
  | leave =>
    cases taken
    exact transition_of_leave here rfl rfl (by simp [Location.wakes]) rfl

theorem transition_of_inSleep {sleeper : Sleeper} {phase : Phase}
    (here : s.location proc = .sleep sleeper phase)
    (taken : s.inSleep proc sleeper phase = some next) : Transition s next (.advance proc) := by
  cases phase with
  | ptable =>
    obtain ⟨free, ⟨⟩⟩ := Option.ite_none_right_eq_some.mp taken
    exact .lockPtable proc sleeper here free rfl
  | release =>
    cases taken
    refine .release proc (.sleep sleeper .sched) ?_ rfl ?_ ?_ ?_ ?_ rfl
    · rw [here]
      rfl
    · rw [here]
      rfl
    · rw [here]
      exact fun _ => id
    · rw [here]
      simp [Location.wakes]
    · rw [here]
      cases sleeper <;> exact .inl rfl
  | sched =>
    cases taken
    exact .sleep proc sleeper here rfl
  | sleeping => cases taken
  | reacquire =>
    cases sleeper with
    | write addr i =>
      exact transition_of_acquire taken here (by simp [Location.waits, Sleeper.resume])
        (by simp [Location.wakes]) rfl rfl
    | read n =>
      exact transition_of_acquire taken here (by simp [Location.waits, Sleeper.resume])
        (by simp [Location.wakes]) rfl rfl

theorem transition_of_step [Fintype Process] (taken : s.step action = some next) :
    Transition s next action := by
  cases action with
  | write proc addr =>
    obtain ⟨ready, ⟨⟩⟩ := Option.ite_none_right_eq_some.mp taken
    exact .start proc addr ready.1 rfl
  | read proc n =>
    obtain ⟨ready, ⟨⟩⟩ := Option.ite_none_right_eq_some.mp taken
    exact transition_of_move ready.1 rfl rfl rfl (.inl rfl)
      (by simp [Location.waits]) (by simp [Location.wakes])
  | close proc writable =>
    obtain ⟨ready, taken⟩ := Option.ite_none_right_eq_some.mp taken
    split at taken
    · cases taken
      exact transition_of_stay proc rfl
    · cases taken
      exact transition_of_move ready.1 rfl rfl rfl (.inl rfl)
        (by simp [Location.waits]) (by simp [Location.wakes])
  | share proc child writable =>
    obtain ⟨-, ⟨⟩⟩ := Option.ite_none_right_eq_some.mp taken
    exact transition_of_stay proc rfl
  | advance proc =>
    simp only [State.step] at taken
    split at taken
    case h_1 => cases taken
    case h_2 call here =>
      cases call with
      | write addr | read n | close writable =>
        exact transition_of_acquire taken here
          (by simp [Location.waits, Call.start]) (by simp [Location.wakes])
          rfl rfl
    case h_3 place here => exact transition_of_inside here taken
    case h_4 sleeper phase here => exact transition_of_inSleep here taken
  | kill proc =>
    obtain ⟨-, taken⟩ := Option.ite_none_right_eq_some.mp taken
    split at taken
    case h_1 sleeper here =>
      cases taken
      refine transition_of_move here rfl rfl rfl ?_ ?_ ?_
      · cases sleeper <;> exact .inl rfl
      · simp [Location.waits]
      · simp [Location.wakes]
    case h_2 =>
      cases taken
      exact transition_of_stay proc rfl

end Inversion

end Xv6.Pipe
