import Xv6.Foundation.Transition

/-!
# Monitors

Processes share data under a lock, sleep on channels and wake each other.  To
sleep, a process takes the lock of the process table before it gives the lock
of the data back, and who wakes holds the lock of the table.  A sleeper may
also be awakened without reason.

Two rules are proved for every monitor: invariants of the data and of the places
of the processes follow from what the code does while it holds the lock, and no
wakeup is lost if whoever ends a reason to sleep goes on to wake.
-/

namespace Foundation
namespace Monitor

open Function
open Transition (run run_invariant Exclusive)

/-- How far a process is in going to sleep. -/
inductive Phase
  /-- Before it takes the lock of the table, holding the lock of the data. -/
  | table
  /-- Before it gives the lock of the data back, holding both. -/
  | release
  /-- Before it is asleep, holding the lock of the table. -/
  | sched
  | sleeping
  /-- Awake, before it takes the lock of the data again. -/
  | reacquire
  deriving DecidableEq

/-- What a process that holds the lock does next. -/
inductive Outcome (Data Place Channel : Type)
  /-- It goes on, holding the lock. -/
  | go (data : Data) (place : Place)
  /-- It wakes the sleepers on a channel. -/
  | wakeup (chan : Channel) (place : Place)
  /-- It sleeps, and goes on at a place. -/
  | sleep (chan : Channel) (place : Place)
  /-- It gives the lock back and returns. -/
  | leave (data : Data)

/-- Where a process is. -/
inductive Location (Place Channel : Type)
  | outside
  /-- Before it takes the lock. -/
  | acquire (place : Place)
  | locked (place : Place)
  | sleep (chan : Channel) (place : Place) (phase : Phase)
  deriving DecidableEq

/-- The data, the holders of the locks, and the processes. -/
structure State (Process Data Place Channel : Type) where
  data : Data
  lock : Option Process
  table : Option Process
  location : Process → Location Place Channel

/-- The code of a monitor. -/
structure Code (Process Data Place Channel : Type) where
  /-- The data when a process starts a call, if it may.  What changes belongs
  to the caller at that time. -/
  starts : Process → Data → Place → Option Data
  /-- What the holder of the lock does; nothing if it stops for ever. -/
  inside : Process → Data → Place → Option (Outcome Data Place Channel)

/-- What happens next. -/
inductive Action (Process Place : Type)
  | enter (proc : Process) (place : Place)
  | advance (proc : Process)
  /-- A sleeper is awakened without reason. -/
  | rouse (proc : Process)

variable {Process Data Place Channel : Type}

namespace Location

/-- The process holds the lock of the data. -/
def holds : Location Place Channel → Bool
  | locked _ | sleep _ _ .table | sleep _ _ .release => true
  | _ => false

/-- The process holds the lock of the table. -/
def holdsTable : Location Place Channel → Bool
  | sleep _ _ .release | sleep _ _ .sched => true
  | _ => false

/-- The process runs the code of the monitor. -/
def runs : Location Place Channel → Bool
  | locked _ => true
  | _ => false

/-- Where the process goes on in the code of the monitor. -/
def place? : Location Place Channel → Option Place
  | outside => none
  | acquire place | locked place | sleep _ place _ => some place

/-- The process has decided to sleep and was not awakened. -/
def Waits (chan : Channel) : Location Place Channel → Prop
  | sleep _ _ .reacquire => False
  | sleep other _ _ => other = chan
  | _ => False

end Location

namespace State

variable [DecidableEq Process] [DecidableEq Channel]

/-- Move one process. -/
def goto (s : State Process Data Place Channel) (proc : Process)
    (target : Location Place Channel) : State Process Data Place Channel :=
  { s with location := update s.location proc target }

omit [DecidableEq Process] in
/-- The locations after a wakeup of a channel. -/
def awakened (s : State Process Data Place Channel) (chan : Channel)
    (proc : Process) : Location Place Channel :=
  match s.location proc with
  | .sleep other place .sleeping =>
    if other = chan then .sleep other place .reacquire
    else .sleep other place .sleeping
  | location => location

/-- The process takes the lock of the data. -/
def take (s : State Process Data Place Channel) (proc : Process)
    (place : Place) : Option (State Process Data Place Channel) :=
  if s.lock = none then
    some { s.goto proc (.locked place) with lock := some proc }
  else none

/-- The process does what the code says. -/
def perform (s : State Process Data Place Channel) (proc : Process) :
    Outcome Data Place Channel → Option (State Process Data Place Channel)
  | .go data place => some { s.goto proc (.locked place) with data := data }
  | .wakeup chan place =>
    if s.table = none then
      some { s with
        location := update (s.awakened chan) proc (.locked place) }
    else none
  | .sleep chan place => some (s.goto proc (.sleep chan place .table))
  | .leave data => some { s.goto proc .outside with data := data, lock := none }

/-- The process goes on going to sleep. -/
def inSleep (s : State Process Data Place Channel) (proc : Process)
    (chan : Channel) (place : Place) :
    Phase → Option (State Process Data Place Channel)
  | .table =>
    if s.table = none then
      some { s.goto proc (.sleep chan place .release) with
        table := some proc }
    else none
  | .release =>
    some { s.goto proc (.sleep chan place .sched) with
      lock := none }
  | .sched =>
    some { s.goto proc (.sleep chan place .sleeping) with
      table := none }
  | .sleeping => none
  | .reacquire => s.take proc place

/-- One step of the system. -/
def step (code : Code Process Data Place Channel) (s : State Process Data Place Channel) :
    Action Process Place → Option (State Process Data Place Channel)
  | .enter proc place =>
    match s.location proc with
    | .outside =>
      (code.starts proc s.data place).map fun data =>
        { s.goto proc (.acquire place) with data := data }
    | _ => none
  | .advance proc =>
    match s.location proc with
    | .outside => none
    | .acquire place => s.take proc place
    | .locked place =>
      match code.inside proc s.data place with
      | none => none
      | some outcome => s.perform proc outcome
    | .sleep chan place phase => s.inSleep proc chan place phase
  | .rouse proc =>
    if s.table = none then
      match s.location proc with
      | .sleep chan place .sleeping => some (s.goto proc (.sleep chan place .reacquire))
      | _ => some s
    else none

end State

/-- A monitor that nobody uses. -/
def idle (Process : Type) {Data Place Channel : Type} (data : Data) :
    State Process Data Place Channel where
  data := data
  lock := none
  table := none
  location := fun _ => .outside

/-! ## What a step can do -/

variable [DecidableEq Process] [DecidableEq Channel]

/-- The kinds of steps. -/
inductive Transition (code : Code Process Data Place Channel)
    (s next : State Process Data Place Channel) : Prop
  /-- A call starts. -/
  | enter (proc : Process) (place : Place) (data : Data)
      (here : s.location proc = .outside)
      (starts : code.starts proc s.data place = some data)
      (after : next = { s.goto proc (.acquire place) with
        data := data })
  /-- A process takes the lock. -/
  | take (proc : Process) (place : Place) (free : s.lock = none)
      (here : (s.location proc).place? = some place)
      (table : (s.location proc).holdsTable = false)
      (after : next = { s.goto proc (.locked place) with
        lock := some proc })
  /-- The holder of the lock goes on. -/
  | go (proc : Process) (place target : Place) (data : Data)
      (here : s.location proc = .locked place)
      (does : code.inside proc s.data place = some (.go data target))
      (after : next = { s.goto proc (.locked target) with
        data := data })
  | wakeup (proc : Process) (place target : Place) (chan : Channel)
      (here : s.location proc = .locked place)
      (does : code.inside proc s.data place = some (.wakeup chan target))
      (free : s.table = none)
      (after : next = { s with
        location := update (s.awakened chan) proc (.locked target) })
  | sleep (proc : Process) (place target : Place) (chan : Channel)
      (here : s.location proc = .locked place)
      (does : code.inside proc s.data place = some (.sleep chan target))
      (after : next = s.goto proc (.sleep chan target .table))
  | leave (proc : Process) (place : Place) (data : Data)
      (here : s.location proc = .locked place)
      (does : code.inside proc s.data place = some (.leave data))
      (after : next = { s.goto proc .outside with
        data := data, lock := none })
  /-- A process goes on going to sleep: it takes the lock of the table. -/
  | lockTable (proc : Process) (chan : Channel) (place : Place)
      (here : s.location proc = .sleep chan place .table)
      (free : s.table = none)
      (after : next = { s.goto proc (.sleep chan place .release) with
        table := some proc })
  /-- It gives the lock of the data back. -/
  | unlock (proc : Process) (chan : Channel) (place : Place)
      (here : s.location proc = .sleep chan place .release)
      (after : next = { s.goto proc (.sleep chan place .sched) with
        lock := none })
  /-- It gives up the processor. -/
  | sched (proc : Process) (chan : Channel) (place : Place)
      (here : s.location proc = .sleep chan place .sched)
      (after : next = { s.goto proc (.sleep chan place .sleeping) with
        table := none })
  | rouse (proc : Process) (chan : Channel) (place : Place)
      (here : s.location proc = .sleep chan place .sleeping)
      (after : next = s.goto proc (.sleep chan place .reacquire))
  | still (after : next = s)

variable {code : Code Process Data Place Channel} {s next : State Process Data Place Channel}
variable {place : Place} {proc : Process}

omit [DecidableEq Channel] in
theorem take_cases (taken : s.take proc place = some next) :
    s.lock = none ∧ next = { s.goto proc (.locked place) with
      lock := some proc } := by
  unfold State.take at taken
  split at taken
  case isTrue free => exact ⟨free, (Option.some.inj taken).symm⟩
  case isFalse => cases taken

theorem transition_of_step {action : Action Process Place}
    (taken : State.step code s action = some next) : Transition code s next := by
  cases action with
  | enter proc place =>
    simp only [State.step] at taken
    split at taken
    case h_1 here =>
      obtain ⟨data, starts, after⟩ := Option.map_eq_some_iff.mp taken
      exact .enter proc place data here starts after.symm
    case h_2 => cases taken
  | advance proc =>
    cases here : s.location proc with
    | outside =>
      simp only [State.step, here] at taken
      cases taken
    | acquire place =>
      simp only [State.step, here] at taken
      obtain ⟨free, after⟩ := take_cases taken
      refine .take proc place free ?_ ?_ after
      · rw [here]
        rfl
      · rw [here]
        rfl
    | locked place =>
      simp only [State.step, here] at taken
      split at taken
      case h_1 => cases taken
      case h_2 outcome does =>
        cases outcome with
        | go data target => exact .go proc place target data here does (Option.some.inj taken).symm
        | wakeup chan target =>
          simp only [State.perform] at taken
          split at taken
          case isTrue free =>
            exact .wakeup proc place target chan here does free (Option.some.inj taken).symm
          case isFalse => cases taken
        | sleep chan target =>
          exact .sleep proc place target chan here does (Option.some.inj taken).symm
        | leave data => exact .leave proc place data here does (Option.some.inj taken).symm
    | sleep chan place phase =>
      simp only [State.step, here] at taken
      cases phase with
      | table =>
        simp only [State.inSleep] at taken
        split at taken
        case isTrue free => exact .lockTable proc chan place here free (Option.some.inj taken).symm
        case isFalse => cases taken
      | release => exact .unlock proc chan place here (Option.some.inj taken).symm
      | sched => exact .sched proc chan place here (Option.some.inj taken).symm
      | sleeping => cases taken
      | reacquire =>
        obtain ⟨free, after⟩ := take_cases taken
        refine .take proc place free ?_ ?_ after
        · rw [here]
          rfl
        · rw [here]
          rfl
  | rouse proc =>
    simp only [State.step] at taken
    split at taken
    case isTrue =>
      split at taken
      case h_1 chan place here => exact .rouse proc chan place here (Option.some.inj taken).symm
      case h_2 => exact .still (Option.some.inj taken).symm
    case isFalse => cases taken

/-! ## Invariants of the data -/

/-- The process that runs the code of the monitor, if one does. -/
def State.running (s : State Process Data Place Channel) : Option Process :=
  s.lock.filter fun proc => (s.location proc).runs

/-- Where each process goes on in the code. -/
def State.places (s : State Process Data Place Channel) (proc : Process) : Option Place :=
  (s.location proc).place?

/-- Exactly the holders of the locks are where they hold them. -/
structure Locked (s : State Process Data Place Channel) : Prop where
  lock : Exclusive Location.holds s.location s.lock
  table : Exclusive Location.holdsTable s.location s.table

omit [DecidableEq Process] in
/-- What a wakeup does to a process. -/
theorem awakened_cases (s : State Process Data Place Channel) (chan : Channel) (proc : Process) :
    s.awakened chan proc = s.location proc ∧
        (∀ place, s.location proc ≠ .sleep chan place .sleeping) ∨
      ∃ place, s.location proc = .sleep chan place .sleeping ∧
        s.awakened chan proc = .sleep chan place .reacquire := by
  unfold State.awakened
  split
  case h_1 other place here =>
    split
    case isTrue same =>
      subst same
      exact .inr ⟨place, here, rfl⟩
    case isFalse apart =>
      refine .inl ⟨here.symm, fun other asleep => ?_⟩
      rw [here] at asleep
      cases asleep
      exact apart rfl
  case h_2 awake => exact .inl ⟨rfl, fun place asleep => awake chan place asleep⟩

omit [DecidableEq Process] in
/-- A wakeup keeps who holds the locks and where the processes go on. -/
theorem awakened_same (s : State Process Data Place Channel) (chan : Channel) (proc : Process) :
    (s.awakened chan proc).holds = (s.location proc).holds ∧
      (s.awakened chan proc).holdsTable = (s.location proc).holdsTable ∧
      (s.awakened chan proc).place? = (s.location proc).place? := by
  rcases awakened_cases s chan proc with ⟨same, -⟩ | ⟨_, here, awake⟩
  · rw [same]
    exact ⟨rfl, rfl, rfl⟩
  · rw [here, awake]
    exact ⟨rfl, rfl, rfl⟩

theorem Locked.transition (locked : Locked s)
    (transition : Transition code s next) : Locked next := by
  cases transition with
  | enter proc place data here starts after =>
    subst after
    exact ⟨locked.lock.move (by rw [here]; rfl), locked.table.move (by rw [here]; rfl)⟩
  | take proc place free here table after =>
    subst after
    have lock := locked.lock
    rw [free] at lock
    exact ⟨lock.enter rfl, locked.table.move (by rw [table]; rfl)⟩
  | go proc place target data here does after =>
    subst after
    exact ⟨locked.lock.move (by rw [here]; rfl), locked.table.move (by rw [here]; rfl)⟩
  | wakeup proc place target chan here does free after =>
    subst after
    have lock := locked.lock.congr fun other =>
      (awakened_same s chan other).1
    have table := locked.table.congr fun other =>
      (awakened_same s chan other).2.1
    refine ⟨lock.move ?_, table.move ?_⟩
    · rw [(awakened_same s chan proc).1, here]
      rfl
    · rw [(awakened_same s chan proc).2.1, here]
      rfl
  | sleep proc place target chan here does after =>
    subst after
    exact ⟨locked.lock.move (by rw [here]; rfl), locked.table.move (by rw [here]; rfl)⟩
  | leave proc place data here does after =>
    subst after
    exact ⟨locked.lock.leave (by rw [here]; rfl) rfl, locked.table.move (by rw [here]; rfl)⟩
  | lockTable proc chan place here free after =>
    subst after
    have table := locked.table
    rw [free] at table
    exact ⟨locked.lock.move (by rw [here]; rfl), table.enter rfl⟩
  | unlock proc chan place here after =>
    subst after
    exact ⟨locked.lock.leave (by rw [here]; rfl) rfl, locked.table.move (by rw [here]; rfl)⟩
  | sched proc chan place here after =>
    subst after
    exact ⟨locked.lock.move (by rw [here]; rfl), locked.table.leave (by rw [here]; rfl) rfl⟩
  | rouse proc chan place here after =>
    subst after
    exact ⟨locked.lock.move (by rw [here]; rfl), locked.table.move (by rw [here]; rfl)⟩
  | still after =>
    subst after
    exact locked

omit [DecidableEq Process] [DecidableEq Channel] in
theorem Locked.running (locked : Locked s)
    (here : s.location proc = .locked place) : s.running = some proc := by
  have holder := (locked.lock proc).mp (by rw [here]; rfl)
  unfold State.running
  rw [holder, Option.filter_some, here]
  rfl

variable {target : Location Place Channel}

omit [DecidableEq Channel] in
/-- Moving a process to where it runs as before. -/
theorem running_move (lock : next.lock = s.lock)
    (location : next.location = update s.location proc target)
    (same : target.runs = (s.location proc).runs) : next.running = s.running := by
  unfold State.running
  rw [lock]
  have runs : (fun other => (next.location other).runs) =
      fun other => (s.location other).runs := by
    funext other
    rw [location]
    by_cases here : other = proc
    · subst here
      rw [update_self, same]
    · rw [update_of_ne here]
  rw [runs]

omit [DecidableEq Channel] in
theorem places_move {place : Option Place}
    (location : next.location = update s.location proc target)
    (there : target.place? = place) : next.places = update s.places proc place := by
  subst there
  funext other
  unfold State.places
  rw [location]
  by_cases here : other = proc
  · subst here
    rw [update_self, update_self]
  · rw [update_of_ne here, update_of_ne here]

/-- The code keeps an invariant of the data, of the places of the processes and
of the process that runs. -/
structure Preserves (code : Code Process Data Place Channel)
    (invariant : Data → (Process → Option Place) → Option Process → Prop) :
    Prop where
  enter : ∀ {data places running proc place data'},
    invariant data places running → places proc = none →
    code.starts proc data place = some data' →
    invariant data' (update places proc (some place)) running
  take : ∀ {data places proc place}, invariant data places none → places proc = some place →
    invariant data places (some proc)
  go : ∀ {data places proc place data' target},
    invariant data places (some proc) → places proc = some place →
    code.inside proc data place = some (.go data' target) →
    invariant data' (update places proc (some target)) (some proc)
  wakeup : ∀ {data places proc place chan target},
    invariant data places (some proc) → places proc = some place →
    code.inside proc data place = some (.wakeup chan target) →
    invariant data (update places proc (some target)) (some proc)
  sleep : ∀ {data places proc place chan target},
    invariant data places (some proc) → places proc = some place →
    code.inside proc data place = some (.sleep chan target) →
    invariant data (update places proc (some target)) none
  leave : ∀ {data places proc place data'},
    invariant data places (some proc) → places proc = some place →
    code.inside proc data place = some (.leave data') →
    invariant data' (update places proc none) none

variable {invariant : Data → (Process → Option Place) → Option Process → Prop}

/-- The invariant holds in a state of the system. -/
def Holds (invariant : Data → (Process → Option Place) → Option Process → Prop)
    (s : State Process Data Place Channel) : Prop :=
  Locked s ∧ invariant s.data s.places s.running

omit [DecidableEq Channel] in
/-- A process that goes on going to sleep, or is awakened, changes nothing. -/
theorem Holds.stutter (holds : Holds invariant s) (locked : Locked next) (data : next.data = s.data)
    (location : next.location = update s.location proc target)
    (place : target.place? = (s.location proc).place?)
    (running : next.running = s.running) : Holds invariant next := by
  refine ⟨locked, ?_⟩
  have places : next.places = s.places := by
    rw [places_move location place]
    exact update_eq_self ..
  rw [data, places, running]
  exact holds.2

omit [DecidableEq Process] [DecidableEq Channel] in
/-- Nobody runs while the holder of the lock is going to sleep. -/
theorem Locked.running_none (locked : Locked s) (proc : Process)
    (holds : (s.location proc).holds = true)
    (still : (s.location proc).runs = false) : s.running = none := by
  have holder := (locked.lock proc).mp holds
  unfold State.running
  rw [holder, Option.filter_some, still]
  rfl

theorem Preserves.transition (preserves : Preserves code invariant)
    (holds : Holds invariant s) (transition : Transition code s next) : Holds invariant next := by
  obtain ⟨locked, kept⟩ := holds
  have after := locked.transition transition
  have ran : ∀ {proc place}, s.location proc = .locked place →
      s.places proc = some place ∧ invariant s.data s.places (some proc) := by
    intro proc place here
    refine ⟨congrArg Location.place? here, ?_⟩
    rw [← locked.running here]
    exact kept
  cases transition with
  | enter proc place data here starts same =>
    subst same
    have places : State.places { s.goto proc (.acquire place) with
        data := data } = update s.places proc (some place) :=
      places_move rfl rfl
    have running : State.running { s.goto proc (.acquire place) with
        data := data } = s.running :=
      running_move rfl rfl (by rw [here]; rfl)
    refine ⟨after, ?_⟩
    rw [places, running]
    exact preserves.enter kept (congrArg Location.place? here) starts
  | take proc place free here table same =>
    subst same
    have places : State.places { s.goto proc (.locked place) with
        lock := some proc } = s.places := by
      rw [places_move rfl rfl]
      exact (congrArg (update s.places proc) here.symm).trans (update_eq_self ..)
    have nobody : s.running = none := by
      unfold State.running
      rw [free]
      rfl
    refine ⟨after, ?_⟩
    rw [nobody] at kept
    rw [places, after.running (update_self ..)]
    exact preserves.take kept here
  | go proc place target data here does same =>
    subst same
    have places : State.places { s.goto proc (.locked target) with
        data := data } = update s.places proc (some target) :=
      places_move rfl rfl
    refine ⟨after, ?_⟩
    rw [places, after.running (update_self ..)]
    exact preserves.go (ran here).2 (ran here).1 does
  | wakeup proc place target chan here does free same =>
    subst same
    have before : (fun other => (s.awakened chan other).place?) = s.places := by
      funext other
      exact (awakened_same s chan other).2.2
    have places : State.places { s with
          location := update (s.awakened chan) proc (.locked target) } =
        update s.places proc (some target) := by
      funext other
      by_cases same : other = proc
      · subst same
        simp only [State.places, update_self]
        rfl
      · rw [update_of_ne same, ← before]
        exact congrArg Location.place? (update_of_ne same ..)
    refine ⟨after, ?_⟩
    rw [places, after.running (update_self ..)]
    exact preserves.wakeup (ran here).2 (ran here).1 does
  | sleep proc place target chan here does same =>
    subst same
    have places : (s.goto proc (.sleep chan target .table)).places =
        update s.places proc (some target) := places_move rfl rfl
    have self : (s.goto proc (.sleep chan target .table)).location
        proc = .sleep chan target .table := update_self ..
    refine ⟨after, ?_⟩
    rw [places, after.running_none proc (by rw [self]; rfl) (by rw [self]; rfl)]
    exact preserves.sleep (ran here).2 (ran here).1 does
  | leave proc place data here does same =>
    subst same
    have places : State.places { s.goto proc .outside with
        data := data, lock := none } =
        update s.places proc none := places_move rfl rfl
    refine ⟨after, ?_⟩
    rw [places]
    exact preserves.leave (ran here).2 (ran here).1 does
  | lockTable proc chan place here free same =>
    subst same
    exact Holds.stutter ⟨locked, kept⟩ after rfl rfl (by rw [here]; rfl)
      (running_move rfl rfl (by rw [here]; rfl))
  | unlock proc chan place here same =>
    subst same
    refine Holds.stutter ⟨locked, kept⟩ after rfl rfl (by rw [here]; rfl) ?_
    rw [locked.running_none proc (by rw [here]; rfl) (by rw [here]; rfl)]
    rfl
  | sched proc chan place here same =>
    subst same
    exact Holds.stutter ⟨locked, kept⟩ after rfl rfl (by rw [here]; rfl)
      (running_move rfl rfl (by rw [here]; rfl))
  | rouse proc chan place here same =>
    subst same
    exact Holds.stutter ⟨locked, kept⟩ after rfl rfl (by rw [here]; rfl)
      (running_move rfl rfl (by rw [here]; rfl))
  | still same =>
    subst same
    exact ⟨locked, kept⟩

omit [DecidableEq Process] [DecidableEq Channel] in
theorem locked_idle (data : Data) :
    Locked (idle Process data : State Process Data Place Channel) where
  lock := fun _ => iff_of_false Bool.false_ne_true (by simp [idle])
  table := fun _ => iff_of_false Bool.false_ne_true (by simp [idle])

variable {final : State Process Data Place Channel} {actions : List (Action Process Place)}

/-- The invariant holds in every state of every run. -/
theorem Preserves.run {data : Data} (preserves : Preserves code invariant)
    (initially : invariant data (fun _ => none) none)
    (ended : Transition.run (State.step code) (idle Process data) actions =
      some final) : Holds invariant final :=
  run_invariant (Holds invariant)
    (fun _ _ _ holds taken =>
      preserves.transition holds (transition_of_step taken))
    ⟨locked_idle data, initially⟩ ended

/-! ## Wakeups -/

/-- Who sleeps has a reason, and who ends a reason to sleep owes a wakeup, which
comes before the lock is given back. -/
structure Wakeful (code : Code Process Data Place Channel)
    (Reason : Channel → Data → Prop) (Owes : Channel → Place → Prop) :
    Prop where
  enter : ∀ {proc data place data'} (chan : Channel),
    code.starts proc data place = some data' →
    Reason chan data → Reason chan data'
  go : ∀ {proc data place data' target} (chan : Channel),
    code.inside proc data place = some (.go data' target) →
    (Owes chan place → Owes chan target) ∧
      (Reason chan data → Reason chan data' ∨ Owes chan target)
  wakeup : ∀ {proc data place awake target} (chan : Channel),
    code.inside proc data place = some (.wakeup awake target) →
    chan ≠ awake → Owes chan place → Owes chan target
  sleep : ∀ {proc data place asleep target},
    code.inside proc data place = some (.sleep asleep target) →
    Reason asleep data ∧ ∀ chan, ¬ Owes chan place
  leave : ∀ {proc data place data'} (chan : Channel),
    code.inside proc data place = some (.leave data') →
    ¬ Owes chan place ∧ (Reason chan data → Reason chan data')

variable {Reason : Channel → Data → Prop} {Owes : Channel → Place → Prop}

/-- The process runs and owes a wakeup. -/
def Location.Owing (Owes : Channel → Place → Prop) (chan : Channel) :
    Location Place Channel → Prop
  | locked place => Owes chan place
  | _ => False

/-- Whoever waits has a reason, or somebody will wake. -/
def Awake (Reason : Channel → Data → Prop) (Owes : Channel → Place → Prop)
    (s : State Process Data Place Channel) (chan : Channel) : Prop :=
  (∃ proc, (s.location proc).Waits chan) → Reason chan s.data ∨
      ∃ proc, (s.location proc).Owing Owes chan

variable {chan : Channel}

omit [DecidableEq Channel] in
/-- A process moves; it waits only with a reason, and goes on to wake. -/
theorem Awake.move (awake : Awake Reason Owes s chan)
    (location : next.location = update s.location proc target)
    (reason : Reason chan s.data → Reason chan next.data ∨ target.Owing Owes chan)
    (waits : target.Waits chan → (s.location proc).Waits chan ∨ Reason chan s.data)
    (owing : (s.location proc).Owing Owes chan → target.Owing Owes chan) :
    Awake Reason Owes next chan := by
  rintro ⟨waiter, waiting⟩
  rw [location] at waiting
  have before : Reason chan s.data ∨
      ∃ proc, (s.location proc).Owing Owes chan := by
    by_cases same : waiter = proc
    · subst same
      rw [update_self] at waiting
      rcases waits waiting with already | because
      · exact awake ⟨waiter, already⟩
      · exact .inl because
    · rw [update_of_ne same] at waiting
      exact awake ⟨waiter, waiting⟩
  have owes : target.Owing Owes chan →
      ∃ proc, (next.location proc).Owing Owes chan := by
    intro owes
    refine ⟨proc, ?_⟩
    rw [location, update_self]
    exact owes
  rcases before with because | ⟨waker, waking⟩
  · exact (reason because).imp id owes
  · by_cases same : waker = proc
    · subst same
      exact .inr (owes (owing waking))
    · refine .inr ⟨waker, ?_⟩
      rw [location, update_of_ne same]
      exact waking

variable {chan other : Channel}

omit [DecidableEq Process] in
theorem waits_of_awakened (waits : (s.awakened chan proc).Waits other) :
    (s.location proc).Waits other := by
  rcases awakened_cases s chan proc with ⟨same, -⟩ | ⟨_, -, awake⟩
  · rwa [same] at waits
  · rw [awake] at waits
    exact absurd waits id

omit [DecidableEq Process] in
theorem owing_awakened (owing : (s.location proc).Owing Owes other) :
    (s.awakened chan proc).Owing Owes other := by
  rcases awakened_cases s chan proc with ⟨same, -⟩ | ⟨_, here, -⟩
  · rwa [same]
  · rw [here] at owing
    exact absurd owing id

omit [DecidableEq Process] in
/-- After a wakeup by the holder of the lock nobody else waits. -/
theorem Locked.not_waits_awakened {proc other : Process} (locked : Locked s) (free : s.table = none)
    (holds : (s.location proc).holds = true) (apart : other ≠ proc) :
    ¬ (s.awakened chan other).Waits chan := by
  intro waits
  have table := locked.table
  rw [free] at table
  have outside := table.outside other
  have unlocked : (s.location other).holds ≠ true := fun held =>
    apart (locked.lock.unique held holds)
  rcases awakened_cases s chan other with ⟨same, asleep⟩ | ⟨_, _, awake⟩
  · rw [same] at waits
    cases here : s.location other with
    | outside =>
      rw [here] at waits
      exact waits
    | acquire place =>
      rw [here] at waits
      exact waits
    | locked place =>
      rw [here] at waits
      exact waits
    | sleep channel' place phase =>
      rw [here] at waits outside unlocked
      cases phase with
      | table => exact unlocked rfl
      | release => exact unlocked rfl
      | sched => exact Bool.noConfusion outside
      | sleeping =>
        have same : channel' = chan := waits
        exact asleep place (same ▸ here)
      | reacquire => exact waits
  · rw [awake] at waits
    exact waits

/-- No wakeup is lost in a step. -/
theorem Wakeful.transition (wakeful : Wakeful code Reason Owes)
    (locked : Locked s) (awake : ∀ chan, Awake Reason Owes s chan)
    (transition : Transition code s next) (chan : Channel) : Awake Reason Owes next chan := by
  have still : ∀ {proc target}, next.location = update s.location proc target →
      next.data = s.data →
      (target.Waits chan → (s.location proc).Waits chan) →
      ((s.location proc).Owing Owes chan → target.Owing Owes chan) →
      Awake Reason Owes next chan :=
    fun location data waits owing => (awake chan).move location
      (fun because => .inl (data ▸ because)) (fun waiting => .inl (waits waiting))
      owing
  cases transition with
  | enter proc place data here starts after =>
    subst after
    refine (awake chan).move rfl (fun because => .inl (wakeful.enter chan starts because))
      (fun waits => absurd waits id) fun owing => ?_
    rw [here] at owing
    exact owing
  | take proc place free here table after =>
    subst after
    refine still rfl rfl (fun waits => absurd waits id) fun owing => ?_
    cases before : s.location proc with
    | locked other =>
      have holder := (locked.lock proc).mp (by rw [before]; rfl)
      rw [free] at holder
      cases holder
    | outside | acquire _ | sleep _ _ _ =>
      rw [before] at owing
      exact absurd owing id
  | go proc place target data here does after =>
    subst after
    refine (awake chan).move rfl (wakeful.go chan does).2
      (fun waits => absurd waits id) fun owing => ?_
    rw [here] at owing
    exact (wakeful.go chan does).1 owing
  | wakeup proc place target woken here does free after =>
    subst after
    rintro ⟨waiter, waiting⟩
    have apart : waiter ≠ proc := by
      rintro rfl
      simp only [update_self] at waiting
      exact waiting
    simp only [update_of_ne apart] at waiting
    have other : chan ≠ woken := by
      rintro rfl
      exact locked.not_waits_awakened free (by rw [here]; rfl) apart waiting
    rcases awake chan ⟨waiter, waits_of_awakened waiting⟩ with because | ⟨waker, waking⟩
    · exact .inl because
    · refine .inr ⟨waker, ?_⟩
      by_cases same : waker = proc
      · subst same
        rw [here] at waking
        simp only [update_self]
        exact wakeful.wakeup chan does other waking
      · simp only [update_of_ne same]
        exact owing_awakened waking
  | sleep proc place target asleep here does after =>
    subst after
    refine (awake chan).move rfl (fun because => .inl because)
      (fun waits => .inr ?_) fun owing => ?_
    · have same : asleep = chan := waits
      exact same ▸ (wakeful.sleep does).1
    · rw [here] at owing
      exact absurd owing ((wakeful.sleep does).2 chan)
  | leave proc place data here does after =>
    subst after
    obtain ⟨owesNothing, kept⟩ := wakeful.leave chan does
    refine (awake chan).move rfl (fun because => .inl (kept because))
      (fun waits => absurd waits id) fun owing => ?_
    rw [here] at owing
    exact absurd owing owesNothing
  | lockTable proc asleep place here free after =>
    subst after
    exact still rfl rfl (fun waits => by rw [here]; exact waits)
      fun owing => by rw [here] at owing; exact absurd owing id
  | unlock proc asleep place here after =>
    subst after
    exact still rfl rfl (fun waits => by rw [here]; exact waits)
      fun owing => by rw [here] at owing; exact absurd owing id
  | sched proc asleep place here after =>
    subst after
    exact still rfl rfl (fun waits => by rw [here]; exact waits)
      fun owing => by rw [here] at owing; exact absurd owing id
  | rouse proc asleep place here after =>
    subst after
    exact still rfl rfl (fun waits => absurd waits id)
      fun owing => by rw [here] at owing; exact absurd owing id
  | still after =>
    subst after
    exact awake chan

/-- In every state of every run, while nobody holds the lock, a process sleeps
only with a reason. -/
theorem Wakeful.run {data : Data} (wakeful : Wakeful code Reason Owes)
    (ended : Transition.run (State.step code) (idle Process data) actions = some final)
    (free : final.lock = none) (asleep : final.location proc = .sleep chan place .sleeping) :
    Reason chan final.data := by
  have kept := run_invariant
    (fun s => Locked s ∧ ∀ chan, Awake Reason Owes s chan)
    (fun _ _ _ holds taken =>
      have transition := transition_of_step taken
      ⟨holds.1.transition transition, wakeful.transition holds.1 holds.2 transition⟩)
    ⟨locked_idle data, fun _ => fun ⟨_, waiting⟩ => absurd waiting id⟩ ended
  obtain ⟨locked, awake⟩ := kept
  have lock := locked.lock
  rw [free] at lock
  rcases awake chan ⟨proc, by rw [asleep]; exact rfl⟩ with because | ⟨waker, waking⟩
  · exact because
  · have outside := lock.outside waker
    cases here : final.location waker with
    | locked other =>
      rw [here] at outside
      exact Bool.noConfusion outside
    | outside | acquire _ | sleep _ _ _ =>
      rw [here] at waking
      exact absurd waking id

end Monitor
end Foundation
