import Xv6.Process.System

/-!
# What a step of the process system can do

Every step is one of a few kinds.  `transition_of_step` says so once, and the
invariants are proved kind by kind.
-/

namespace Xv6.Process

open Function (update update_idem update_of_ne update_self)
open Foundation.Transition (Exclusive)
open Option (ite_none_right_eq_some)

/-- The process that a CPU executes. -/
def Core.on : Core → Option Slot
  | idle | scanning _ => none
  | resuming slot | running slot => some slot

/-- The CPU holds `ptable.lock`. -/
def Core.locked : Core → Bool
  | scanning _ | resuming _ => true
  | idle | running _ => false

/-- The entry that a process is making in `fork`. -/
def Place.child : Place → Option Slot
  | user => none
  | forking np | forked np => some np

/-- The entry that a process is making in `fork`. -/
def Location.child : Location → Option Slot
  | .at place | yielded place => place.child
  | slept | waiting | newborn | exited => none

/-- The entry whose parent a process has set in `fork`. -/
def Location.adopts : Location → Option Slot
  | .at (.forked np) | yielded (.forked np) => some np
  | _ => none

/-- An entry keeps its process; at most it is awakened. -/
structure Proc.Keeps (before after : Proc) : Prop where
  pid : after.pid = before.pid
  parent : after.parent = before.parent
  state : after.state = before.state ∧ (after.state = .sleeping → after.chan = before.chan) ∨
    before.state = .sleeping ∧ after.state = .runnable

/-- Every entry keeps its process; at most it is awakened. -/
def Keeps (before after : Table) : Prop :=
  ∀ slot, Proc.Keeps (before slot) (after slot)

variable {table : Table} {slot : Slot}

section Keeps

variable {proc : Proc}

theorem Proc.Keeps.refl (proc : Proc) : Proc.Keeps proc proc :=
  ⟨rfl, rfl, .inl ⟨rfl, fun _ => rfl⟩⟩

theorem keeps_refl (table : Table) : Keeps table table :=
  fun _ => .refl _

theorem keeps_set (keeps : Proc.Keeps (table slot) proc) : Keeps table (table.set slot proc) := by
  intro other
  by_cases same : other = slot
  · subst same
    rwa [set_self]
  · rw [set_of_ne same]
    exact .refl _

theorem keeps_wakeup1 (table : Table) (chan : Chan) : Keeps table (wakeup1 table chan) := by
  intro slot
  rcases wakeup1_apply table chan slot with same | ⟨asleep, -, awake⟩
  · rw [same]
    exact .refl _
  · rw [awake]
    exact ⟨rfl, rfl, .inr ⟨asleep, rfl⟩⟩

theorem Proc.keeps_kill (proc : Proc) : Proc.Keeps proc proc.kill := by
  refine ⟨rfl, rfl, ?_⟩
  by_cases asleep : proc.state = .sleeping
  · exact .inr ⟨asleep, if_pos asleep⟩
  · exact .inl ⟨if_neg asleep, fun _ => rfl⟩

theorem keeps_kill (table : Table) (pid : BitVec 32) : Keeps table (kill table pid).2 := by
  unfold kill
  split
  · exact keeps_refl table
  · exact keeps_set (Proc.keeps_kill _)

theorem keeps_nice (table : Table) (pid : BitVec 32) (priority : Int) :
    Keeps table (nice table pid priority) := by
  unfold nice
  split
  · exact keeps_refl table
  · exact keeps_set ⟨rfl, rfl, .inl ⟨rfl, fun _ => rfl⟩⟩

/-- What is neither asleep nor runnable stays as it is, and nothing else
becomes so. -/
theorem Proc.Keeps.state_iff {before after : Proc} {state : State} (keeps : Proc.Keeps before after)
    (awake : state ≠ .sleeping) (settled : state ≠ .runnable) :
    after.state = state ↔ before.state = state := by
  rcases keeps.state with ⟨same, -⟩ | ⟨asleep, runnable⟩
  · rw [same]
  · rw [asleep, runnable]
    exact ⟨fun same => absurd same.symm settled,
      fun same => absurd same.symm awake⟩

theorem zombieChild_none (none : zombieChild table slot = none) (child : Slot)
    (parent : (table child).parent = some slot) : (table child).state ≠ .zombie := by
  intro zombie
  exact of_decide_eq_false (first_eq_none.mp none child) ⟨parent, zombie⟩

end Keeps

/-- The inner loop of `scheduler` picks a runnable process. -/
theorem highP_runnable {table : Table} {best : Slot} (slots : List Slot)
    (runnable : (table best).state = .runnable) :
    (table (highP table slots best)).state = .runnable := by
  induction slots generalizing best with
  | nil => exact runnable
  | cons slot slots ih =>
    unfold highP
    split
    case isTrue smaller => exact ih smaller.1
    case isFalse => exact ih runnable

variable {Cpu : Type} [DecidableEq Cpu]

/-- The holder of the lock when a CPU that may change it goes to a place. -/
def Core.holder (target : Core) (cpu : Cpu) : Option Cpu :=
  if target.locked then some cpu else none

/-- A CPU holds the lock, or nobody does. -/
def System.Mine (system : System Cpu) (cpu : Cpu) : Prop :=
  system.lock = none ∨ (system.core cpu).locked = true

/-- A CPU goes to another place, and the lock with it. -/
def System.moveCore (system : System Cpu) (cpu : Cpu) (target : Core) : System Cpu :=
  { system with
    core := Function.update system.core cpu target
    lock := target.holder cpu }

/-- The kinds of steps. -/
inductive Transition (system : System Cpu) :
    Action Cpu → System Cpu → Prop
  /-- Processes are awakened. -/
  | shake (action : Action Cpu) (table : Table) (keeps : Keeps system.table table) :
      Transition system action { system with table := table }
  /-- A CPU goes on with the same process or with none. -/
  | move (action : Action Cpu) (cpu : Cpu) (target : Core)
      (table : Table) (location : Slot → Location)
      (mine : system.Mine cpu)
      (on : target.on = (system.core cpu).on)
      (keeps : Keeps system.table table)
      (child : ∀ slot, (location slot).child = (system.location slot).child ∧
        (location slot).adopts = (system.location slot).adopts) :
      Transition system action
        { system.moveCore cpu target with
          table := table
          location := location }
  /-- The scheduler dispatches a process. -/
  | dispatch (cpu : Cpu) (index : Nat) (slot : Slot) (place : system.core cpu = .scanning index)
      (runnable : (system.table slot).state = .runnable) :
      Transition system (.scan cpu)
        { system.setProc slot { system.table slot with state := .running } with
          core := Function.update system.core cpu (.resuming slot)
          proc := Function.update system.proc cpu (some slot) }
  /-- A process gives up its CPU in `yield` or `sleep`. -/
  | stop (action : Action Cpu) (cpu : Cpu) (slot : Slot) (proc : Proc) (target : Location)
      (mine : system.Mine cpu)
      (on : (system.core cpu).on = some slot)
      (pid : proc.pid = (system.table slot).pid)
      (parent : proc.parent = (system.table slot).parent)
      (state : proc.state = .runnable ∨ proc.state = .sleeping)
      (asleep : proc.state = .sleeping → proc.chan = some (.proc slot) →
        ∀ child, (system.table child).parent = some slot → (system.table child).state ≠ .zombie)
      (child : target.child = (system.location slot).child ∧
        target.adopts = (system.location slot).adopts) :
      Transition system action ((system.setProc slot proc).sched cpu slot target)
  /-- `wait` returns a child. -/
  | reap (action : Action Cpu) (cpu : Cpu) (slot child : Slot) (table : Table)
      (mine : system.Mine cpu)
      (on : (system.core cpu).on = some slot)
      (keeps : Keeps system.table table)
      (zombie : (table child).state = .zombie)
      (parent : (table child).parent = some slot)
      (idle : (system.location slot).child = none) :
      Transition system action
        { ({ system with table := table }.setProc child
            (table child).reap).release cpu slot with
          waits := ⟨slot, (table child).parent, (table child).pid⟩ :: system.waits }
  /-- `allocproc` finds an entry. -/
  | alloc (cpu : Cpu) (slot np : Slot) (on : (system.core cpu).on = some slot)
      (place : system.location slot = .at .user)
      (unused : (system.table np).state = .unused) :
      Transition system (.allocproc cpu)
        (({ system with
            table := system.table.embryo np system.nextpid
            nextpid := system.nextpid + 1 }.goto np .newborn).goto slot
          (.at (.forking np)))
  /-- `fork` fails. -/
  | fail (cpu : Cpu) (slot np : Slot) (place : system.location slot = .at (.forking np)) :
      Transition system (.forkFail cpu)
        ((system.setProc np { system.table np with
          state := .unused }).goto slot (.at .user))
  /-- `fork` sets the parent. -/
  | adopt (cpu : Cpu) (slot np : Slot) (on : (system.core cpu).on = some slot)
      (place : system.location slot = .at (.forking np)) :
      Transition system (.forkParent cpu)
        ((system.setProc np { system.table np with
          parent := some slot }).goto slot (.at (.forked np)))
  /-- `fork` ends. -/
  | born (cpu : Cpu) (slot np : Slot) (on : (system.core cpu).on = some slot)
      (place : system.location slot = .at (.forked np)) :
      Transition system (.forkEnd cpu)
        { (system.setProc np { system.table np with
            state := .runnable
            priority := 0 }).goto slot (.at .user) with
          forks := (system.table np).pid :: system.forks }
  /-- A process ends. -/
  | exits (cpu : Cpu) (slot : Slot) (on : (system.core cpu).on = some slot)
      (free : system.lock = none)
      (place : system.location slot = .at .user)
      (ordinary : slot ≠ system.initproc) :
      Transition system (.exit cpu)
        ({ system with
          table := exitTable system.table slot system.initproc }.sched cpu slot .exited)

/-- What holds in every state of every run. -/
structure Coherent (system : System Cpu) : Prop where
  /-- `myproc()` is the process that the CPU executes. -/
  agrees : ∀ cpu, system.proc cpu = (system.core cpu).on
  /-- Exactly the holder of `ptable.lock` is in a section under it. -/
  lock : Exclusive Core.locked system.core system.lock
  /-- The processes that CPUs execute are those that are `RUNNING`. -/
  running : ∀ slot, (system.table slot).state = .running ↔ ∃ cpu, (system.core cpu).on = some slot
  /-- No two CPUs execute the same process. -/
  alone : ∀ {cpu other slot}, (system.core cpu).on = some slot →
    (system.core other).on = some slot → cpu = other
  /-- `fork` makes an `EMBRYO`. -/
  embryo : ∀ {slot np}, (system.location slot).child = some np → (system.table np).state = .embryo
  /-- No two processes make the same entry. -/
  mother : ∀ {slot other np}, (system.location slot).child = some np →
    (system.location other).child = some np → slot = other

section Inversion

variable {system next : System Cpu} {cpu : Cpu}

omit [DecidableEq Cpu] in
theorem current_eq {curproc : Slot} {place : Place} (coherent : Coherent system)
    (current : system.current cpu = some (slot, curproc, place)) :
    curproc = slot ∧ (system.core cpu).on = some slot ∧ system.location slot = .at place := by
  unfold System.current at current
  split at current
  case h_2 => cases current
  case h_1 running curproc core proc =>
    split at current
    case h_2 => cases current
    case h_1 here =>
      cases current
      have same := coherent.agrees cpu
      rw [core] at same ⊢
      exact ⟨Option.some.inj (proc.symm.trans same), rfl, here⟩

omit [DecidableEq Cpu] in
/-- A process in none of the functions makes no entry. -/
theorem child_update {target : Location} (child : target.child = (system.location slot).child ∧
      target.adopts = (system.location slot).adopts)
    (other : Slot) :
    (update system.location slot target other).child = (system.location other).child ∧
      (update system.location slot target other).adopts = (system.location other).adopts := by
  by_cases same : other = slot
  · subst same
    rwa [update_self]
  · rw [update_of_ne same]
    exact ⟨rfl, rfl⟩

/-- A process leaves a section under the lock. -/
theorem transition_of_release (action : Action Cpu) (place : Place)
    (mine : system.Mine cpu) (on : (system.core cpu).on = some slot)
    (keeps : Keeps system.table table)
    (child : place.child = (system.location slot).child ∧
      (Location.at place).adopts = (system.location slot).adopts) :
    Transition system action (({ system with table := table }.release cpu slot).goto slot
        (.at place)) := by
  have moved := Transition.move action cpu (.running slot) table
    (update system.location slot (.at place)) mine on.symm keeps
    (child_update child)
  simp only [System.release, System.goto, update_idem]
  exact moved

theorem transition_of_return (action : Action Cpu) (mine : system.Mine cpu)
    (on : (system.core cpu).on = some slot) (keeps : Keeps system.table table)
    (child : (system.location slot).child = none ∧ (system.location slot).adopts = none) :
    Transition system action ({ system with table := table }.release cpu slot) := by
  have moved := transition_of_release action .user mine on keeps ⟨child.1.symm, child.2.symm⟩
  simp only [System.release, System.goto, update_idem] at moved
  exact moved

theorem transition_of_waitLoop {action : Action Cpu} (mine : system.Mine cpu)
    (on : (system.core cpu).on = some slot) (keeps : Keeps system.table table)
    (other : ∀ proc, table.set slot proc = system.table.set slot proc)
    (child : (system.location slot).child = none ∧ (system.location slot).adopts = none) :
    Transition system action ({ system with table := table }.waitLoop cpu slot) := by
  unfold System.waitLoop
  split
  case h_1 found zombie =>
    obtain ⟨parent, state⟩ := of_decide_eq_true (first_eq_some zombie)
    exact .reap action cpu slot found table mine on keeps state parent child.1
  case h_2 none =>
    dsimp only
    split
    case isTrue => exact transition_of_return action mine on keeps child
    case isFalse =>
      have stopped := Transition.stop action cpu slot
        ((table slot).sleep (.proc slot)) .waiting mine on (keeps slot).pid
        (keeps slot).parent (.inr rfl) ?_ ⟨child.1.symm, child.2.symm⟩
      · simp only [System.setProc, ← other] at stopped
        exact stopped
      · intro _ _ child parent zombie
        refine zombieChild_none none child ?_ ?_
        · rw [(keeps child).parent]
          exact parent
        · exact ((keeps child).state_iff (by decide) (by decide)).mpr zombie

/-- The outer loop of `scheduler`. -/
theorem transition_of_scanStep {index : Nat} (held : system.lock = some cpu)
    (place : system.core cpu = .scanning index) :
    Transition system (.scan cpu) (system.scanStep cpu index) := by
  have mine : system.Mine cpu := .inr (by rw [place]; rfl)
  have stays : ∀ target : Core, target.on = none →
      Transition system (.scan cpu) (system.moveCore cpu target) := by
    intro target on
    refine .move _ cpu target system.table system.location mine ?_
      (keeps_refl _) fun _ => ⟨rfl, rfl⟩
    rw [place, on]
    rfl
  unfold System.scanStep
  split
  case isTrue bound =>
    split
    case isTrue runnable =>
      exact .dispatch cpu index _ place (highP_runnable (List.finRange nproc) runnable)
    case isFalse =>
      have passed := stays (.scanning (index + 1)) rfl
      simp only [System.moveCore, Core.holder, Core.locked, if_true, ← held] at passed
      exact passed
  case isFalse => exact stays .idle rfl

/-- A process goes on. -/
theorem transition_of_resumeStep (coherent : Coherent system)
    (place : system.core cpu = .resuming slot) (taken : system.resumeStep cpu slot = some next) :
    Transition system (.resume cpu) next := by
  have mine : system.Mine cpu := .inr (by rw [place]; rfl)
  have on : (system.core cpu).on = some slot := by rw [place]; rfl
  have tidy : Keeps system.table (system.table.set slot
      { system.table slot with chan := none }) := by
    refine keeps_set ⟨rfl, rfl, .inl ⟨rfl, fun asleep => ?_⟩⟩
    have running := (coherent.running slot).mpr ⟨cpu, on⟩
    rw [running] at asleep
    cases asleep
  unfold System.resumeStep at taken
  split at taken
  case h_1 back here =>
    cases taken
    refine transition_of_release _ back mine on (keeps_refl _) ?_
    rw [here]
    cases back <;> exact ⟨rfl, rfl⟩
  case h_2 here =>
    cases taken
    refine transition_of_return _ mine on (keeps_refl _) ?_
    rw [here]
    exact ⟨rfl, rfl⟩
  case h_3 here =>
    cases taken
    refine transition_of_return _ mine on tidy ?_
    rw [here]
    exact ⟨rfl, rfl⟩
  case h_4 here =>
    cases taken
    refine transition_of_waitLoop mine on tidy (fun _ => set_set _ _) ?_
    rw [here]
    exact ⟨rfl, rfl⟩
  case h_5 => cases taken
  case h_6 => cases taken

theorem transition_of_step {action : Action Cpu} (coherent : Coherent system)
    (taken : system.step action = some next) : Transition system action next := by
  cases action with
  | acquire cpu =>
    obtain ⟨ready, ⟨⟩⟩ := ite_none_right_eq_some.mp taken
    refine .move _ cpu (.scanning 0) system.table system.location
      (.inl ready.2) ?_ (keeps_refl _) fun _ => ⟨rfl, rfl⟩
    rw [ready.1]
    rfl
  | scan cpu =>
    simp only [System.step] at taken
    split at taken
    case h_2 => cases taken
    case h_1 index place =>
      cases taken
      refine transition_of_scanStep ((coherent.lock cpu).mp ?_) place
      rw [place]
      rfl
  | resume cpu =>
    simp only [System.step] at taken
    split at taken
    case h_2 => cases taken
    case h_1 slot place => exact transition_of_resumeStep coherent place taken
  | allocproc cpu =>
    simp only [System.step] at taken
    split at taken
    case h_2 => cases taken
    case h_1 slot curproc current =>
      obtain ⟨rfl, on, place⟩ := current_eq coherent current
      obtain ⟨free, taken⟩ := ite_none_right_eq_some.mp taken
      split at taken
      case h_1 =>
        cases taken
        exact .shake _ system.table (keeps_refl _)
      case h_2 np found =>
        cases taken
        exact .alloc cpu _ np on place (of_decide_eq_true (first_eq_some found))
  | forkFail cpu =>
    simp only [System.step] at taken
    split at taken
    case h_2 => cases taken
    case h_1 slot curproc np current =>
      obtain ⟨rfl, on, place⟩ := current_eq coherent current
      cases taken
      exact .fail cpu _ np place
  | forkParent cpu =>
    simp only [System.step] at taken
    split at taken
    case h_2 => cases taken
    case h_1 slot curproc np current =>
      obtain ⟨rfl, on, place⟩ := current_eq coherent current
      cases taken
      exact .adopt cpu _ np on place
  | forkEnd cpu =>
    simp only [System.step] at taken
    split at taken
    case h_2 => cases taken
    case h_1 slot curproc np current =>
      obtain ⟨rfl, on, place⟩ := current_eq coherent current
      obtain ⟨-, ⟨⟩⟩ := ite_none_right_eq_some.mp taken
      exact .born cpu _ np on place
  | exec cpu =>
    simp only [System.step] at taken
    split at taken
    case h_2 => cases taken
    case h_1 slot curproc current =>
      cases taken
      exact .shake _ _ (keeps_set ⟨rfl, rfl, .inl ⟨rfl, fun _ => rfl⟩⟩)
  | exit cpu =>
    simp only [System.step] at taken
    split at taken
    case h_2 => cases taken
    case h_1 slot curproc current =>
      obtain ⟨rfl, on, place⟩ := current_eq coherent current
      obtain ⟨ready, ⟨⟩⟩ := ite_none_right_eq_some.mp taken
      exact .exits cpu _ on ready.1 place ready.2
  | wait cpu =>
    simp only [System.step] at taken
    split at taken
    case h_2 => cases taken
    case h_1 slot curproc current =>
      obtain ⟨rfl, on, place⟩ := current_eq coherent current
      obtain ⟨free, ⟨⟩⟩ := ite_none_right_eq_some.mp taken
      refine transition_of_waitLoop (.inl free) on (keeps_refl _) (fun _ => rfl) ?_
      rw [place]
      exact ⟨rfl, rfl⟩
  | yield cpu =>
    simp only [System.step] at taken
    split at taken
    case h_2 => cases taken
    case h_1 slot curproc place current =>
      obtain ⟨rfl, on, here⟩ := current_eq coherent current
      obtain ⟨free, ⟨⟩⟩ := ite_none_right_eq_some.mp taken
      refine .stop _ cpu _ _ _ (.inl free) on rfl rfl (.inl rfl) nofun ?_
      rw [here]
      cases place <;> exact ⟨rfl, rfl⟩
  | sleep cpu address =>
    simp only [System.step] at taken
    split at taken
    case h_2 => cases taken
    case h_1 slot curproc current =>
      obtain ⟨rfl, on, here⟩ := current_eq coherent current
      obtain ⟨free, ⟨⟩⟩ := ite_none_right_eq_some.mp taken
      refine .stop _ cpu _ _ _ (.inl free) on rfl rfl (.inr rfl) (fun _ => nofun) ?_
      rw [here]
      exact ⟨rfl, rfl⟩
  | wakeup address =>
    obtain ⟨-, ⟨⟩⟩ := ite_none_right_eq_some.mp taken
    exact .shake _ _ (keeps_wakeup1 _ _)
  | kill pid =>
    obtain ⟨-, ⟨⟩⟩ := ite_none_right_eq_some.mp taken
    exact .shake _ _ (keeps_kill _ _)
  | nice pid priority =>
    obtain ⟨-, ⟨⟩⟩ := ite_none_right_eq_some.mp taken
    exact .shake _ _ (keeps_nice _ _ _)

end Inversion

end Xv6.Process
