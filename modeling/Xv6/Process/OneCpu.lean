import Xv6.Process.Exit
import Xv6.Process.Transitions

/-!
# One process, one CPU

Every step of the process system keeps `Coherent`: a process is `RUNNING`
exactly while one CPU executes it, and `fork` is the only way for an entry
without a process to become runnable.
-/

namespace Xv6.Process

open Foundation.Transition
open Function (update update_of_ne update_self)

variable {Cpu : Type} [DecidableEq Cpu] {table after : Table} {slot : Slot}

section Cores

variable {core : Cpu → Core} {cpu : Cpu} {target : Core}

theorem on_update (core : Cpu → Core) (cpu : Cpu) (target : Core) (other : Cpu) :
    (update core cpu target other).on =
      if other = cpu then target.on else (core other).on := by
  by_cases same : other = cpu
  · subst same
    rw [update_self, if_pos rfl]
  · rw [update_of_ne same, if_neg same]

theorem on_update_same (on : target.on = (core cpu).on) (other : Cpu) :
    (update core cpu target other).on = (core other).on := by
  rw [on_update]
  split
  case isTrue here => rw [on, here]
  case isFalse => rfl

/-- The processes that CPUs execute are those that are `RUNNING`, each on one
CPU. -/
def Occupied (table : Table) (core : Cpu → Core) : Prop :=
  (∀ slot, (table slot).state = .running ↔ ∃ cpu, (core cpu).on = some slot) ∧
    ∀ cpu other slot, (core cpu).on = some slot → (core other).on = some slot → cpu = other

omit [DecidableEq Cpu] in
/-- No process starts or stops to run. -/
theorem Occupied.congr {moved : Cpu → Core} (occupied : Occupied table core)
    (states : ∀ slot, (after slot).state = .running ↔ (table slot).state = .running)
    (on : ∀ cpu, (moved cpu).on = (core cpu).on) : Occupied after moved := by
  refine ⟨fun slot => ?_, fun cpu other slot => ?_⟩
  · rw [states]
    simp only [on]
    exact occupied.1 slot
  · rw [on, on]
    exact occupied.2 cpu other slot

/-- A CPU without a process starts to execute one that is not running. -/
theorem Occupied.add (slot : Slot) (occupied : Occupied table core) (off : (core cpu).on = none)
    (on : target.on = some slot) (before : (table slot).state ≠ .running)
    (running : (after slot).state = .running)
    (states : ∀ other, other ≠ slot →
      ((after other).state = .running ↔ (table other).state = .running)) :
    Occupied after (update core cpu target) := by
  have nobody : ∀ other, (core other).on ≠ some slot :=
    fun other here => before ((occupied.1 slot).mpr ⟨other, here⟩)
  refine ⟨fun other => ?_, fun first second other left right => ?_⟩
  · by_cases same : other = slot
    · subst same
      refine iff_of_true running ⟨cpu, ?_⟩
      rw [on_update, if_pos rfl, on]
    · rw [states other same, occupied.1 other]
      apply exists_congr
      intro candidate
      rw [on_update]
      by_cases here : candidate = cpu
      · subst here
        rw [if_pos rfl, on, off]
        simp [Ne.symm same]
      · rw [if_neg here]
  · rw [on_update] at left right
    by_cases here : first = cpu <;> by_cases there : second = cpu
    · rw [here, there]
    · rw [if_pos here, on] at left
      rw [if_neg there, ← left] at right
      exact absurd right (nobody second)
    · rw [if_pos there, on] at right
      rw [if_neg here, ← right] at left
      exact absurd left (nobody first)
    · rw [if_neg here] at left
      rw [if_neg there] at right
      exact occupied.2 first second other left right

/-- A CPU stops to execute a process, which is no longer running. -/
theorem Occupied.remove (occupied : Occupied table core)
    (on : (core cpu).on = some slot) (off : target.on = none)
    (stopped : (after slot).state ≠ .running)
    (states : ∀ other, other ≠ slot →
      ((after other).state = .running ↔ (table other).state = .running)) :
    Occupied after (update core cpu target) := by
  have before : ∀ other candidate, (update core cpu target candidate).on = some other →
        candidate ≠ cpu ∧ (core candidate).on = some other := by
    intro other candidate here
    rw [on_update] at here
    split at here
    case isTrue =>
      rw [off] at here
      cases here
    case isFalse apart => exact ⟨apart, here⟩
  refine ⟨fun other => ?_, fun first second other left right => ?_⟩
  · by_cases same : other = slot
    · subst same
      refine iff_of_false stopped ?_
      rintro ⟨candidate, here⟩
      obtain ⟨apart, executes⟩ := before _ _ here
      exact apart (occupied.2 _ _ _ executes on)
    · rw [states other same, occupied.1 other]
      constructor
      · rintro ⟨candidate, here⟩
        refine ⟨candidate, ?_⟩
        rw [on_update, if_neg]
        · exact here
        · rintro rfl
          exact same (Option.some.inj (here.symm.trans on))
      · rintro ⟨candidate, here⟩
        exact ⟨candidate, (before _ _ here).2⟩
  · exact occupied.2 first second other (before _ _ left).2 (before _ _ right).2

/-- A CPU that may change the lock goes to another place. -/
theorem exclusive_holder {lock : Option Cpu} (target : Core)
    (exclusive : Exclusive Core.locked core lock) (mine : lock = none ∨ (core cpu).locked = true) :
    Exclusive Core.locked (update core cpu target) (target.holder cpu) := by
  unfold Core.holder
  rcases mine with rfl | held
  · split
    case isTrue locked => exact exclusive.enter locked
    case isFalse open_ =>
      refine exclusive.move ?_
      rw [exclusive.outside cpu]
      simpa using open_
  · split
    case isTrue locked =>
      rw [← (exclusive cpu).mp held]
      exact exclusive.move (locked.trans held.symm)
    case isFalse open_ => exact exclusive.leave held (by simpa using open_)

end Cores

section Children

variable {location moved : Slot → Location} {slot np : Slot}

/-- The entries that `fork` is making are `EMBRYO`s, each made by one
process. -/
def Expecting (table : Table) (location : Slot → Location) : Prop :=
  (∀ slot np, (location slot).child = some np → (table np).state = .embryo) ∧
    ∀ slot other np, (location slot).child = some np →
      (location other).child = some np → slot = other

/-- No process starts to make an entry. -/
theorem Expecting.congr (expecting : Expecting table location)
    (states : ∀ slot, (table slot).state = .embryo → (after slot).state = .embryo)
    (child : ∀ slot, (moved slot).child = (location slot).child ∨
      (moved slot).child = none) : Expecting after moved := by
  have before : ∀ slot np, (moved slot).child = some np → (location slot).child = some np := by
    intro slot np here
    rcases child slot with same | none
    · rwa [same] at here
    · rw [none] at here
      cases here
  refine ⟨fun slot np here => ?_, fun slot other np left right => ?_⟩
  · exact states np (expecting.1 slot np (before slot np here))
  · exact expecting.2 slot other np (before _ _ left) (before _ _ right)

/-- A process moves on without a new entry. -/
theorem child_of_update {target : Location}
    (child : target.child = (location slot).child ∨ target.child = none) (other : Slot) :
    (update location slot target other).child = (location other).child ∨
      (update location slot target other).child = none := by
  by_cases same : other = slot
  · subst same
    rwa [update_self]
  · rw [update_of_ne same]
    exact .inl rfl

theorem Expecting.done {target : Location} (expecting : Expecting table location)
    (mine : (location slot).child = some np) (done : target.child = none)
    (states : ∀ other, other ≠ np → (after other).state = (table other).state) :
    Expecting after (update location slot target) := by
  have before : ∀ other entry, (update location slot target other).child = some entry →
        other ≠ slot ∧ (location other).child = some entry := by
    intro other entry here
    by_cases same : other = slot
    · subst same
      rw [update_self, done] at here
      cases here
    · rw [update_of_ne same] at here
      exact ⟨same, here⟩
  refine ⟨fun other entry here => ?_, fun first second entry left right => ?_⟩
  · obtain ⟨apart, there⟩ := before _ _ here
    rw [states]
    · exact expecting.1 _ _ there
    · rintro rfl
      exact apart (expecting.2 _ _ _ there mine)
  · exact expecting.2 _ _ _ (before _ _ left).2 (before _ _ right).2

theorem Expecting.start (expecting : Expecting table location)
    (before : (table np).state ≠ .embryo) (embryo : (after np).state = .embryo)
    (states : ∀ other, other ≠ np → (after other).state = (table other).state) :
    Expecting after (update (update location np .newborn) slot (.at (.forking np))) := by
  have cases : ∀ other entry,
      (update (update location np .newborn) slot (.at (.forking np)) other).child = some entry →
      other = slot ∧ entry = np ∨
        other ≠ slot ∧ entry ≠ np ∧ (location other).child = some entry := by
    intro other entry here
    by_cases same : other = slot
    · subst same
      rw [update_self] at here
      exact .inl ⟨rfl, (Option.some.inj here).symm⟩
    · rw [update_of_ne same] at here
      by_cases new : other = np
      · subst new
        rw [update_self] at here
        cases here
      · rw [update_of_ne new] at here
        refine .inr ⟨same, ?_, here⟩
        rintro rfl
        exact before (expecting.1 _ _ here)
  refine ⟨fun other entry here => ?_, fun first second entry left right => ?_⟩
  · rcases cases _ _ here with ⟨-, rfl⟩ | ⟨-, apart, there⟩
    · exact embryo
    · rw [states _ apart]
      exact expecting.1 _ _ there
  · rcases cases _ _ left with ⟨rfl, rfl⟩ | ⟨-, apart, there⟩ <;>
      rcases cases _ _ right with ⟨rfl, same⟩ | ⟨-, other, here⟩
    · rfl
    · exact absurd rfl other
    · exact absurd same apart
    · exact expecting.2 _ _ _ there here

end Children

section Preservation

variable {system next : System Cpu}

omit [DecidableEq Cpu] in
theorem Coherent.occupied (coherent : Coherent system) : Occupied system.table system.core :=
  ⟨coherent.running, fun _ _ _ => coherent.alone⟩

omit [DecidableEq Cpu] in
theorem Coherent.expecting (coherent : Coherent system) : Expecting system.table system.location :=
  ⟨fun _ _ => coherent.embryo, fun _ _ _ => coherent.mother⟩

omit [DecidableEq Cpu] in
theorem coherent_of (agrees : ∀ cpu, next.proc cpu = (next.core cpu).on)
    (lock : Exclusive Core.locked next.core next.lock) (occupied : Occupied next.table next.core)
    (expecting : Expecting next.table next.location) : Coherent next :=
  ⟨agrees, lock, occupied.1, occupied.2 _ _ _, expecting.1 _ _, expecting.2 _ _ _⟩

theorem agrees_update (coherent : Coherent system) (cpu : Cpu) (target : Core) (other : Cpu) :
    update system.proc cpu target.on other = (update system.core cpu target other).on := by
  rw [on_update]
  by_cases same : other = cpu
  · subst same
    rw [update_self, if_pos rfl]
  · rw [update_of_ne same, if_neg same]
    exact coherent.agrees other

variable {table : Table} {proc : Proc}

/-- A change of an entry from a state to another leaves the entries in a third
state as they are. -/
theorem set_state_iff {was now state : State}
    (before : (table slot).state = was) (after : proc.state = now)
    (notBefore : was ≠ state) (notAfter : now ≠ state) (other : Slot) :
    (table.set slot proc other).state = state ↔ (table other).state = state := by
  by_cases same : other = slot
  · subst same
    rw [set_self, before, after]
    exact iff_of_false notAfter notBefore
  · rw [set_of_ne same]

theorem set_state_of_eq (same : proc.state = (table slot).state) (other : Slot) :
    (table.set slot proc other).state = (table other).state := by
  by_cases here : other = slot
  · subst here
    rw [set_self, same]
  · rw [set_of_ne here]

section

variable (coherent : Coherent system)
include coherent

omit [DecidableEq Cpu] in
theorem Coherent.runs {cpu : Cpu} (on : (system.core cpu).on = some slot) :
    (system.table slot).state = .running :=
  (coherent.running slot).mpr ⟨cpu, on⟩

omit [DecidableEq Cpu] in
/-- Processes are awakened. -/
theorem Coherent.shake (keeps : Keeps system.table table) :
    Coherent { system with table := table } := by
  refine coherent_of coherent.agrees coherent.lock
    (coherent.occupied.congr (fun slot => ?_) fun _ => rfl)
    (coherent.expecting.congr (fun slot => ?_) fun _ => .inl rfl)
  · exact (keeps slot).state_iff (by decide) (by decide)
  · exact ((keeps slot).state_iff (by decide) (by decide)).mpr

/-- A process gives up its CPU. -/
theorem Coherent.leave {cpu : Cpu} (table : Table)
    {target : Location} (mine : system.Mine cpu) (on : (system.core cpu).on = some slot)
    (stopped : (table slot).state ≠ .running)
    (running : ∀ other, other ≠ slot → ((table other).state = .running ↔
        (system.table other).state = .running))
    (embryo : ∀ other, (system.table other).state = .embryo → (table other).state = .embryo)
    (child : target.child = (system.location slot).child ∨ target.child = none) :
    Coherent ({ system with table := table }.sched cpu slot target) := by
  exact coherent_of (agrees_update coherent cpu (.scanning (slot.val + 1)))
    (exclusive_holder (.scanning (slot.val + 1)) coherent.lock mine)
    (coherent.occupied.remove on rfl stopped running)
    (coherent.expecting.congr embryo (child_of_update child))

/-- Every step keeps the invariant. -/
theorem Coherent.transition {action : Action Cpu}
    (transition : Transition system action next) : Coherent next := by
  cases transition with
  | shake _ table keeps => exact coherent.shake keeps
  | move _ cpu target table location mine on keeps child =>
    refine coherent_of (fun other => ?_) (exclusive_holder target coherent.lock mine)
      ((coherent.shake keeps).occupied.congr (fun _ => Iff.rfl) (on_update_same on))
      ((coherent.shake keeps).expecting.congr (fun _ => id) fun slot =>
        .inl (child slot).1)
    exact (coherent.agrees other).trans (on_update_same on other).symm
  | dispatch cpu index slot place runnable =>
    refine coherent_of (agrees_update coherent cpu (.resuming slot))
      (coherent.lock.move (by rw [place]; rfl))
      (coherent.occupied.add slot ?_ rfl ?_ ?_ ?_)
      (coherent.expecting.congr (fun other => ?_) fun _ => .inl rfl)
    · rw [place]
      rfl
    · rw [runnable]
      decide
    · exact congrArg Proc.state (set_self _)
    · intro other apart
      exact iff_of_eq (congrArg (·.state = .running) (set_of_ne apart))
    · exact (set_state_iff runnable rfl (by decide) (by nofun) other).mpr
  | stop _ cpu slot proc target mine on pid parent state asleep child =>
    have runs := coherent.runs on
    have ready : proc.state ≠ .running ∧ proc.state ≠ .embryo := by
      rcases state with same | same <;> rw [same] <;> decide
    refine coherent.leave (system.table.set slot proc) mine on ?_
      (fun other apart => ?_) (fun other => ?_) (.inl child.1)
    · rw [set_self]
      exact ready.1
    · rw [set_of_ne apart]
    · exact (set_state_iff runs rfl (by decide) ready.2 other).mpr
  | reap _ cpu slot child table mine on keeps zombie parent idle =>
    have kept := coherent.shake keeps
    have executes : (Core.running slot).on = (system.core cpu).on := on.symm
    refine coherent_of (fun other => ?_) (exclusive_holder (.running slot) coherent.lock mine)
      (kept.occupied.congr (fun other => ?_) (on_update_same executes))
      (kept.expecting.congr (fun other => ?_) (child_of_update (.inr rfl)))
    · exact (coherent.agrees other).trans (on_update_same executes other).symm
    · exact set_state_iff zombie rfl (by decide) (by nofun) other
    · exact (set_state_iff zombie rfl (by decide) (by nofun) other).mpr
  | alloc cpu slot np on place unused =>
    refine coherent_of coherent.agrees coherent.lock
      (coherent.occupied.congr (fun other => ?_) fun _ => rfl)
      (coherent.expecting.start ?_ ?_ fun other => ?_)
    · exact set_state_iff unused rfl (by decide) (by nofun) other
    · rw [unused]
      decide
    · exact congrArg Proc.state (set_self _)
    · exact fun apart => congrArg Proc.state (set_of_ne apart)
  | fail cpu slot np place =>
    have mine : (system.location slot).child = some np := by
      rw [place]
      rfl
    have embryo := coherent.embryo mine
    refine coherent_of coherent.agrees coherent.lock
      (coherent.occupied.congr (fun other => ?_) fun _ => rfl)
      (coherent.expecting.done mine rfl fun other apart =>
        congrArg Proc.state (set_of_ne apart))
    exact set_state_iff embryo rfl (by decide) (by nofun) other
  | adopt cpu slot np on place =>
    refine coherent_of coherent.agrees coherent.lock
      (coherent.occupied.congr (fun other => ?_) fun _ => rfl)
      (coherent.expecting.congr (fun other => ?_) (child_of_update (.inl ?_)))
    · exact iff_of_eq (congrArg (· = State.running) (set_state_of_eq (by rfl) other))
    · exact (set_state_of_eq (by rfl) other).trans
    · exact (congrArg Location.child place).symm
  | born cpu slot np on place =>
    have mine : (system.location slot).child = some np := by
      rw [place]
      rfl
    have embryo := coherent.embryo mine
    refine coherent_of coherent.agrees coherent.lock
      (coherent.occupied.congr (fun other => ?_) fun _ => rfl)
      (coherent.expecting.done mine rfl fun other apart =>
        congrArg Proc.state (set_of_ne apart))
    exact set_state_iff embryo rfl (by decide) (by nofun) other
  | exits cpu slot on free place ordinary =>
    have runs := coherent.runs on
    have others : ∀ other state, other ≠ slot → state ≠ .sleeping → state ≠ .runnable →
        ((exitTable system.table slot system.initproc other).state = state ↔
          (system.table other).state = state) := by
      intro other state apart awake settled
      rcases (exitTable_of_ne system.table slot system.initproc
        apart).state with ⟨same, -⟩ | ⟨asleep, runnable⟩
      · rw [same]
      · rw [asleep, runnable]
        exact ⟨fun same => absurd same.symm settled,
          fun same => absurd same.symm awake⟩
    refine coherent.leave (exitTable system.table slot system.initproc) (.inl free) on ?_
      (fun other apart => others other _ apart (by decide)
        (by decide)) (fun other embryo => ?_) (.inr rfl)
    · exact fun same => nomatch (exitTable_zombie _ _ _).symm.trans same
    · refine (others other _ ?_ (by decide) (by decide)).mpr embryo
      rintro rfl
      rw [runs] at embryo
      cases embryo

end

/-- The entry has no process that was ever runnable, or one that has ended. -/
def Lifeless (proc : Proc) : Prop :=
  proc.state = .unused ∨ proc.state = .embryo ∨ proc.state = .zombie

theorem Lifeless.not_runnable (lifeless : Lifeless proc) :
    proc.state ≠ .runnable ∧ proc.state ≠ .sleeping ∧ proc.state ≠ .running := by
  rcases lifeless with same | same | same <;> rw [same] <;> decide

theorem Proc.Keeps.lifeless {before after : Proc}
    (keeps : Proc.Keeps before after) (lifeless : Lifeless before) :
    after.state = before.state := by
  rcases keeps.state with ⟨same, -⟩ | ⟨asleep, -⟩
  · exact same
  · exact absurd asleep lifeless.not_runnable.2.1

/-- An entry without a living process becomes runnable in the last step of
`fork` only. -/
theorem forkEnd_of_made_runnable {action : Action Cpu} (coherent : Coherent system)
    (transition : Transition system action next) (lifeless : Lifeless (system.table slot))
    (runnable : (next.table slot).state = .runnable) :
    (system.table slot).state = .embryo ∧ ∃ cpu mother, action = .forkEnd cpu ∧
        (system.core cpu).on = some mother ∧
        system.location mother = .at (.forked slot) := by
  obtain ⟨still, awake, stopped⟩ := lifeless.not_runnable
  have changed : ∀ {table : Table} {entry : Slot} {proc : Proc},
      (table.set entry proc slot).state = .runnable → (table slot).state ≠ .runnable →
          slot = entry ∧ proc.state = .runnable := by
    intro table entry proc made before
    by_cases same : slot = entry
    · subst same
      rw [set_self] at made
      exact ⟨rfl, made⟩
    · rw [set_of_ne same] at made
      exact absurd made before
  cases transition with
  | shake _ table keeps => exact absurd (((keeps slot).lifeless lifeless).symm.trans runnable) still
  | move _ cpu target table location mine on keeps child =>
    exact absurd (((keeps slot).lifeless lifeless).symm.trans runnable) still
  | dispatch cpu index entry place ready => cases (changed runnable still).2
  | stop _ cpu entry proc target mine on =>
    obtain ⟨rfl, -⟩ := changed runnable still
    exact absurd (coherent.runs on) stopped
  | reap _ cpu entry child table mine on keeps zombie parent idle =>
    have same := (keeps slot).lifeless lifeless
    cases (changed runnable (same ▸ still)).2
  | alloc cpu entry np on place unused => cases (changed runnable still).2
  | fail cpu entry np place => cases (changed runnable still).2
  | adopt cpu entry np on place =>
    obtain ⟨rfl, same⟩ := changed runnable still
    exact absurd same still
  | born cpu entry np on place =>
    obtain ⟨rfl, -⟩ := changed runnable still
    have mine : (system.location entry).child = some slot := by
      rw [place]
      rfl
    exact ⟨coherent.embryo mine, cpu, entry, rfl, on, place⟩
  | exits cpu entry on free place ordinary =>
    have apart : slot ≠ entry := by
      rintro rfl
      exact stopped (coherent.runs on)
    rcases (exitTable_of_ne system.table entry system.initproc
      apart).state with ⟨same, -⟩ | ⟨asleep, -⟩
    · exact absurd (same.symm.trans runnable) still
    · exact absurd asleep awake

end Preservation

omit [DecidableEq Cpu] in
theorem coherent_booted : Coherent (booted : System Cpu) where
  agrees := fun _ => rfl
  lock := fun cpu => by simp [booted, Core.locked]
  running := by
    intro slot
    refine iff_of_false (fun same => ?_) (by simp [booted, Core.on])
    have zero : Proc.zero.state = .running :=
      (set_state_iff rfl rfl (by decide) (by decide) slot).mp same
    cases zero
  alone := by simp [booted, Core.on]
  embryo := by
    intro slot np here
    unfold booted at here
    dsimp only at here
    split at here <;> cases here
  mother := by
    intro slot other np here
    unfold booted at here
    dsimp only at here
    split at here <;> cases here

theorem coherent_of_run {actions : List (Action Cpu)} {final : System Cpu}
    (ended : run System.step booted actions = some final) : Coherent final :=
  run_invariant Coherent
    (fun _ _ _ coherent taken =>
      coherent.transition (transition_of_step coherent taken))
    coherent_booted ended

/-- In every state of every run, on any number of CPUs, a process is `RUNNING`
exactly if one CPU has it as its `c->proc`, no two CPUs have the same
`c->proc`, and the next step makes an `UNUSED`, `EMBRYO` or `ZOMBIE` entry
`RUNNABLE` only if it is the last step of `fork` on an `EMBRYO`. -/
theorem oneCpu_of_run {actions : List (Action Cpu)} {final : System Cpu}
    (ended : run System.step booted actions = some final) :
    (∀ slot, (final.table slot).state = .running ↔ ∃! cpu, final.proc cpu = some slot) ∧
      (∀ cpu other slot, final.proc cpu = some slot → final.proc other = some slot → cpu = other) ∧
      ∀ action next slot, final.step action = some next →
        Lifeless (final.table slot) → (next.table slot).state = .runnable →
        (final.table slot).state = .embryo ∧ ∃ cpu mother, action = .forkEnd cpu ∧
            final.proc cpu = some mother ∧
            final.location mother = .at (.forked slot) := by
  have coherent := coherent_of_run ended
  have alone : ∀ cpu other slot, final.proc cpu = some slot →
      final.proc other = some slot → cpu = other := by
    intro cpu other slot here there
    rw [coherent.agrees] at here there
    exact coherent.alone here there
  refine ⟨fun slot => ?_, alone, fun action next slot taken => ?_⟩
  · rw [coherent.running slot]
    simp only [← coherent.agrees]
    constructor
    · rintro ⟨cpu, here⟩
      exact ⟨cpu, here, fun other there => alone other cpu slot there here⟩
    · rintro ⟨cpu, here, -⟩
      exact ⟨cpu, here⟩
  · simp only [coherent.agrees]
    exact forkEnd_of_made_runnable coherent (transition_of_step coherent taken)

/-- One CPU runs the first process, which forks; another runs the child. -/
def forkingRun : List (Action (Fin 2)) :=
  [.acquire 0, .scan 0, .resume 0, .allocproc 0, .forkParent 0, .forkEnd 0,
    .acquire 1, .scan 1, .scan 1, .resume 1]

theorem oneCpu_forkingRun : ∃ final, run System.step booted forkingRun = some final ∧
      final.proc 0 = some 0 ∧ final.proc 1 = some 1 ∧
      ∀ slot, (final.table slot).state = .running ↔ ∃! cpu, final.proc cpu = some slot := by
  have seen : (run System.step booted forkingRun).map
      (fun final => (final.proc 0, final.proc 1)) = some (some 0, some 1) := by
    decide +kernel
  obtain ⟨final, ended, same⟩ := Option.map_eq_some_iff.mp seen
  exact ⟨final, ended, congrArg Prod.fst same, congrArg Prod.snd same, (oneCpu_of_run ended).1⟩

end Xv6.Process
