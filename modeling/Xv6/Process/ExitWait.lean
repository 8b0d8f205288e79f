import Xv6.Process.OneCpu

/-!
# Parents and children

Every process has a parent that is alive, no process sleeps in `wait` while it
has a zombie for a child, and what `wait` returns was returned by `fork` before
and goes to the parent.
-/

namespace Xv6.Process

open Foundation.Transition
open Function (update update_of_ne update_self)

/-- `SLEEPING`, `RUNNABLE` or `RUNNING`. -/
def Proc.alive (proc : Proc) : Bool :=
  match proc.state with
  | .sleeping | .runnable | .running => true
  | .unused | .embryo | .zombie => false

/-- Alive, or a zombie. -/
def Proc.living (proc : Proc) : Bool :=
  proc.alive || proc.state = .zombie

/-- The process is living and has a pid. -/
def livingWith (pid : BitVec 32) (proc : Proc) : Bool :=
  proc.living && proc.pid = pid

variable {Cpu : Type}

/-- What holds in every state of every run. -/
structure Family (system : System Cpu) : Prop where
  /-- `init` does not end. -/
  init : (system.table system.initproc).alive = true
  /-- Every other process has a parent that is alive. -/
  parent : ∀ slot, slot ≠ system.initproc → (system.table slot).living = true →
    ∃ parent, (system.table slot).parent = some parent ∧ (system.table parent).alive = true
  /-- No process is its own parent. -/
  self : ∀ slot, (system.table slot).parent ≠ some slot
  /-- `init` has no parent. -/
  root : (system.table system.initproc).parent = none
  /-- `fork` has made its caller the parent. -/
  adopts : ∀ slot np, (system.location slot).adopts = some np → (system.table np).parent = some slot
  /-- No process sleeps in `wait` while it has a zombie. -/
  awake : ∀ slot child, AsleepInWait system.table slot → (system.table child).parent = some slot →
    (system.table child).state ≠ .zombie
  /-- Each living process but `init` is from a `fork`, and was not returned by
  `wait`. -/
  counted : ∀ pid, system.forks.count pid +
      (decide ((system.table system.initproc).pid = pid)).toNat =
    (system.waits.map Reaped.pid).count pid + count (livingWith pid) system.table
  /-- `wait` returns to the parent. -/
  reaped : ∀ reaped ∈ system.waits, reaped.parent = some reaped.reaper

section Alike

/-- An entry keeps its process, alive or a zombie as it was. -/
structure Proc.Alike (before after : Proc) : Prop where
  parent : after.parent = before.parent
  alive : after.alive = before.alive
  zombie : after.state = .zombie ↔ before.state = .zombie
  pid : before.living = true → after.pid = before.pid

variable {before after : Proc}

theorem Proc.Alike.living (alike : Proc.Alike before after) : after.living = before.living := by
  unfold Proc.living
  rw [alike.alive]
  simp only [alike.zombie]

theorem Proc.Alike.livingWith (alike : Proc.Alike before after) (pid : BitVec 32) :
    livingWith pid after = livingWith pid before := by
  unfold Process.livingWith
  rw [alike.living]
  cases living : before.living with
  | false => rfl
  | true => rw [alike.pid living]

theorem Proc.Alike.refl (proc : Proc) : Proc.Alike proc proc :=
  ⟨rfl, rfl, Iff.rfl, fun _ => rfl⟩

theorem Proc.Keeps.alike (keeps : Proc.Keeps before after) : Proc.Alike before after := by
  refine ⟨keeps.parent, ?_, keeps.state_iff (by decide) (by decide),
    fun _ => keeps.pid⟩
  unfold Proc.alive
  rcases keeps.state with ⟨same, -⟩ | ⟨asleep, runnable⟩
  · rw [same]
  · rw [asleep, runnable]

theorem living_of_alive {proc : Proc} (alive : proc.alive = true) : proc.living = true := by
  simp [Proc.living, alive]

theorem alike_set {table : Table} {slot : Slot} {proc : Proc}
    (alike : Proc.Alike (table slot) proc) (other : Slot) :
    Proc.Alike (table other) (table.set slot proc other) := by
  by_cases same : other = slot
  · subst same
    rwa [set_self]
  · rw [set_of_ne same]
    exact .refl _

theorem count_congr {inClass : Proc → Bool} {table after : Table}
    (same : ∀ slot, inClass (after slot) = inClass (table slot)) :
    count inClass after = count inClass table := by
  unfold count
  simp only [same]

end Alike

section Preservation

variable {system next : System Cpu}

/-- Every entry keeps its process. -/
theorem Family.congr (family : Family system)
    (alike : ∀ slot, Proc.Alike (system.table slot) (next.table slot))
    (awake : ∀ slot, AsleepInWait next.table slot → AsleepInWait system.table slot ∨
        ∀ child, (system.table child).parent = some slot → (system.table child).state ≠ .zombie)
    (adopts : ∀ slot np, (next.location slot).adopts = some np →
      (system.location slot).adopts = some np)
    (init : next.initproc = system.initproc)
    (forks : next.forks = system.forks)
    (waits : next.waits = system.waits) : Family next where
  init := by
    rw [init, (alike _).alive]
    exact family.init
  parent := by
    intro slot other living
    rw [init] at other
    rw [(alike slot).living] at living
    obtain ⟨parent, mine, alive⟩ := family.parent slot other living
    refine ⟨parent, (alike slot).parent.trans mine, ?_⟩
    rw [(alike parent).alive]
    exact alive
  self := by
    intro slot
    rw [(alike slot).parent]
    exact family.self slot
  root := by
    rw [init, (alike _).parent]
    exact family.root
  adopts := by
    intro slot np here
    rw [(alike np).parent]
    exact family.adopts slot np (adopts slot np here)
  awake := by
    intro slot child asleep mine zombie
    rw [(alike child).parent] at mine
    have dead := (alike child).zombie.mp zombie
    rcases awake slot asleep with before | none
    · exact family.awake slot child before mine dead
    · exact none child mine dead
  counted := by
    intro pid
    rw [init, forks, waits, count_congr fun slot => (alike slot).livingWith pid,
      (alike _).pid (living_of_alive family.init)]
    exact family.counted pid
  reaped := by
    rw [waits]
    exact family.reaped

variable {np slot other : Slot}

theorem child_of_adopts {location : Location} (adopts : location.adopts = some np) :
    location.child = some np := by
  revert adopts
  fun_cases Location.adopts
  case case1 => exact id
  case case2 => exact id
  case case3 => exact nofun

theorem adopts_of_update {location : Slot → Location} {target : Location}
    (none : target.adopts = none) (here : (update location slot target other).adopts = some np) :
    other ≠ slot ∧ (location other).adopts = some np := by
  by_cases same : other = slot
  · subst same
    rw [update_self, none] at here
    cases here
  · rw [update_of_ne same] at here
    exact ⟨same, here⟩

variable {table : Table}

theorem asleep_of_set {proc : Proc} (asleep : AsleepInWait (table.set slot proc) other) :
    other = slot ∧ proc.state = .sleeping ∧ proc.chan = some (.proc slot) ∨
      other ≠ slot ∧ AsleepInWait table other := by
  obtain ⟨state, chan⟩ := asleep
  by_cases same : other = slot
  · subst same
    rw [set_self] at state chan
    exact .inl ⟨rfl, state, chan⟩
  · rw [set_of_ne same] at state chan
    exact .inr ⟨same, state, chan⟩

theorem Proc.Keeps.asleep {after : Table} (keeps : Proc.Keeps (table slot) (after slot))
    (asleep : AsleepInWait after slot) : AsleepInWait table slot := by
  obtain ⟨state, chan⟩ := asleep
  rcases keeps.state with ⟨same, sameChan⟩ | ⟨-, runnable⟩
  · exact ⟨same ▸ state, sameChan state ▸ chan⟩
  · rw [runnable] at state
    cases state

/-- Processes are awakened. -/
theorem Family.shake (family : Family system) (keeps : Keeps system.table table) :
    Family { system with table := table } :=
  family.congr (fun slot => (keeps slot).alike)
    (fun slot asleep => .inl ((keeps slot).asleep asleep)) (fun _ _ => id)
    rfl rfl rfl

theorem alive_ne_of_state (alive : (table slot).alive = true)
    (dead : (table other).alive = false) : slot ≠ other := by
  rintro rfl
  rw [alive] at dead
  cases dead

theorem count_cons_toNat (pids : List (BitVec 32)) (first pid : BitVec 32) :
    (first :: pids).count pid = pids.count pid + (decide (first = pid)).toNat := by
  by_cases same : first = pid <;> simp [same]

/-- `wait` returns a child. -/
theorem Family.reap {child : Slot} {target : Location}
    (family : Family system) (coherent : Coherent system)
    (zombie : (system.table child).state = .zombie)
    (mine : (system.table child).parent = some slot) (idle : target.adopts = none)
    (table : next.table = system.table.set child (system.table child).reap)
    (location : next.location = update system.location slot target)
    (init : next.initproc = system.initproc) (forks : next.forks = system.forks)
    (waits : next.waits = ⟨slot, (system.table child).parent, (system.table child).pid⟩ ::
        system.waits) : Family next := by
  have dead : (system.table child).alive = false := by
    simp [Proc.alive, zombie]
  have notInit := alive_ne_of_state family.init dead
  have others : ∀ other, other ≠ child → next.table other = system.table other := by
    intro other apart
    rw [table, set_of_ne apart]
  have gone : next.table child = (system.table child).reap := by
    rw [table, set_self]
  refine ⟨?_, ?_, ?_, ?_, ?_, ?_, ?_, ?_⟩
  · rw [init, others _ notInit]
    exact family.init
  · intro other ordinary living
    have apart : other ≠ child := by
      rintro rfl
      rw [gone] at living
      cases living
    rw [init] at ordinary
    rw [others _ apart] at living ⊢
    obtain ⟨parent, here, alive⟩ := family.parent other ordinary living
    refine ⟨parent, here, ?_⟩
    rwa [others _ (alive_ne_of_state alive dead)]
  · intro other
    by_cases same : other = child
    · subst same
      rw [gone]
      exact nofun
    · rw [others _ same]
      exact family.self other
  · rw [init, others _ notInit]
    exact family.root
  · intro other np here
    rw [location] at here
    obtain ⟨-, before⟩ := adopts_of_update idle here
    rw [others]
    · exact family.adopts other np before
    · rintro rfl
      have embryo := coherent.embryo (child_of_adopts before)
      rw [zombie] at embryo
      cases embryo
  · intro other kid asleep here
    have notKid : kid ≠ child := by
      rintro rfl
      rw [gone] at here
      cases here
    rw [others _ notKid] at here ⊢
    rw [table] at asleep
    rcases asleep_of_set asleep with ⟨-, impossible, -⟩ | ⟨-, before⟩
    · cases impossible
    · exact family.awake other kid before here
  · intro pid
    have moved := count_update (livingWith pid) system.table child (system.table child).reap
    have before := family.counted pid
    have lived : livingWith pid (system.table child) = decide ((system.table child).pid = pid) := by
      simp [livingWith, Proc.living, zombie]
    have ended : livingWith pid (system.table child).reap = false := rfl
    rw [lived, ended] at moved
    rw [Bool.toNat_false] at moved
    rw [init, others _ notInit, forks, waits, table, List.map_cons, count_cons_toNat, Table.set]
    dsimp only
    omega
  · rw [waits]
    intro reaped member
    rcases List.mem_cons.mp member with rfl | later
    · exact mine
    · exact family.reaped reaped later

variable {cpu : Cpu}

section

variable (family : Family system) (coherent : Coherent system)
  (on : (system.core cpu).on = some slot)
include family coherent on

/-- `fork` sets the parent. -/
theorem Family.adopt (place : system.location slot = .at (.forking np))
    (table : next.table = system.table.set np { system.table np with parent := some slot })
    (location : next.location = update system.location slot (.at (.forked np)))
    (init : next.initproc = system.initproc) (forks : next.forks = system.forks)
    (waits : next.waits = system.waits) : Family next := by
  have mine : (system.location slot).child = some np := by
    rw [place]
    rfl
  have embryo := coherent.embryo mine
  have runs := coherent.runs on
  have unborn : (system.table np).alive = false := by
    simp [Proc.alive, embryo]
  have notInit := alive_ne_of_state family.init unborn
  have others : ∀ other, other ≠ np → next.table other = system.table other := by
    intro other apart
    rw [table, set_of_ne apart]
  have self : next.table np =
      { system.table np with parent := some slot } := by
    rw [table, set_self]
  have states : ∀ other, (next.table other).alive = (system.table other).alive := by
    intro other
    by_cases same : other = np
    · subst same
      rw [self]
      rfl
    · rw [others _ same]
  refine ⟨?_, ?_, ?_, ?_, ?_, ?_, ?_, ?_⟩
  · rw [init, others _ notInit]
    exact family.init
  · intro other ordinary living
    have apart : other ≠ np := by
      rintro rfl
      rw [self] at living
      simp [Proc.living, Proc.alive, embryo] at living
    rw [init] at ordinary
    rw [others _ apart] at living ⊢
    obtain ⟨parent, here, alive⟩ := family.parent other ordinary living
    exact ⟨parent, here, (states parent).trans alive⟩
  · intro other
    by_cases same : other = np
    · subst same
      rw [self]
      intro same
      rw [Option.some.inj same, embryo] at runs
      cases runs
    · rw [others _ same]
      exact family.self other
  · rw [init, others _ notInit]
    exact family.root
  · intro other entry here
    rw [location] at here
    by_cases same : other = slot
    · subst same
      rw [update_self] at here
      cases here
      rw [self]
    · rw [update_of_ne same] at here
      rw [others]
      · exact family.adopts other entry here
      · rintro rfl
        exact same (coherent.mother (child_of_adopts here) mine)
  · intro other kid asleep here
    have before : AsleepInWait system.table other := by
      rw [table] at asleep
      rcases asleep_of_set asleep with ⟨-, impossible, -⟩ | ⟨-, before⟩
      · rw [embryo] at impossible
        cases impossible
      · exact before
    by_cases same : kid = np
    · subst same
      rw [self]
      simp [embryo]
    · rw [others _ same] at here ⊢
      exact family.awake other kid before here
  · intro pid
    rw [init, others _ notInit, forks, waits, table]
    rw [count_congr fun other => ?_]
    · exact family.counted pid
    · by_cases same : other = np
      · subst same
        rw [set_self]
        rfl
      · rw [set_of_ne same]
  · rw [waits]
    exact family.reaped

/-- `fork` ends. -/
theorem Family.born (place : system.location slot = .at (.forked np))
    (table : next.table = system.table.set np
      { system.table np with state := .runnable, priority := 0 })
    (location : next.location = update system.location slot (.at .user))
    (init : next.initproc = system.initproc)
    (forks : next.forks = (system.table np).pid :: system.forks)
    (waits : next.waits = system.waits) : Family next := by
  have mine : (system.location slot).child = some np := by
    rw [place]
    rfl
  have embryo := coherent.embryo mine
  have runs := coherent.runs on
  have unborn : (system.table np).alive = false := by
    simp [Proc.alive, embryo]
  have notInit := alive_ne_of_state family.init unborn
  have others : ∀ other, other ≠ np → next.table other = system.table other := by
    intro other apart
    rw [table, set_of_ne apart]
  have self : next.table np =
      { system.table np with state := .runnable, priority := 0 } := by
    rw [table, set_self]
  have parents : ∀ other, (next.table other).parent = (system.table other).parent := by
    intro other
    by_cases same : other = np
    · subst same
      rw [self]
    · rw [others _ same]
  have alive : ∀ other, (system.table other).alive = true → (next.table other).alive = true := by
    intro other before
    rwa [others _ (alive_ne_of_state before unborn)]
  refine ⟨?_, ?_, ?_, ?_, ?_, ?_, ?_, ?_⟩
  · rw [init]
    exact alive _ family.init
  · intro other ordinary living
    rw [parents]
    by_cases same : other = np
    · subst same
      refine ⟨slot, family.adopts slot other ?_, alive _ ?_⟩
      · rw [place]
        rfl
      · simp [Proc.alive, runs]
    · rw [init] at ordinary
      rw [others _ same] at living
      obtain ⟨parent, here, before⟩ := family.parent other ordinary living
      exact ⟨parent, here, alive _ before⟩
  · intro other
    rw [parents]
    exact family.self other
  · rw [init, parents]
    exact family.root
  · intro other entry here
    rw [location] at here
    rw [parents]
    exact family.adopts other entry (adopts_of_update rfl here).2
  · intro other kid asleep here
    rw [parents] at here
    have before : AsleepInWait system.table other := by
      rw [table] at asleep
      rcases asleep_of_set asleep with ⟨-, impossible, -⟩ | ⟨-, before⟩
      · cases impossible
      · exact before
    by_cases same : kid = np
    · subst same
      rw [self]
      exact nofun
    · rw [others _ same]
      exact family.awake other kid before here
  · intro pid
    have moved := count_update (livingWith pid) system.table np
      { system.table np with state := .runnable, priority := 0 }
    have before := family.counted pid
    have unlived : livingWith pid (system.table np) = false := by
      simp [livingWith, Proc.living, Proc.alive, embryo]
    have lives : livingWith pid { system.table np with
        state := .runnable, priority := 0 } = decide ((system.table np).pid = pid) := by
      simp [livingWith, Proc.living, Proc.alive]
    rw [unlived, lives, Bool.toNat_false] at moved
    rw [init, others _ notInit, forks, waits, table, count_cons_toNat, Table.set]
    omega
  · rw [waits]
    exact family.reaped

/-- A process ends. -/
theorem Family.exits (ordinary : slot ≠ system.initproc)
    (table : next.table = exitTable system.table slot system.initproc)
    (location : next.location = update system.location slot .exited)
    (init : next.initproc = system.initproc) (forks : next.forks = system.forks)
    (waits : next.waits = system.waits) : Family next := by
  have runs := coherent.runs on
  have others : ∀ other, other ≠ slot → PassedOn slot system.initproc True (system.table other)
        (next.table other) := by
    intro other apart
    rw [table]
    exact exitTable_of_ne system.table slot system.initproc apart
  have zombie : (next.table slot).state = .zombie := by
    rw [table]
    exact exitTable_zombie _ _ _
  obtain ⟨samePid, sameParent⟩ := exitTable_self system.table system.initproc (family.self slot)
  rw [← table] at samePid sameParent
  have alive : ∀ other, other ≠ slot → (next.table other).alive = (system.table other).alive := by
    intro other apart
    unfold Proc.alive
    rcases (others other apart).state with ⟨same, -⟩ | ⟨asleep, runnable⟩
    · rw [same]
    · rw [asleep, runnable]
  have living : ∀ other, (next.table other).living = (system.table other).living := by
    intro other
    unfold Proc.living
    by_cases same : other = slot
    · subst same
      simp [zombie, Proc.alive, runs]
    · rw [alive _ same]
      simp only [(others other same).zombie_iff]
  -- an orphan goes to `init`, and everyone else keeps the parent
  have parents : ∀ other, (system.table other).parent = some slot ∧
          (next.table other).parent = some system.initproc ∨
        (system.table other).parent ≠ some slot ∧
          (next.table other).parent = (system.table other).parent := by
    intro other
    by_cases mine : (system.table other).parent = some slot
    · have apart : other ≠ slot := by
        rintro rfl
        exact family.self other mine
      exact .inl ⟨mine, (others other apart).adopted trivial mine⟩
    · refine .inr ⟨mine, ?_⟩
      by_cases same : other = slot
      · subst same
        exact sameParent
      · exact (others other same).kept fun visited => mine visited.2
  refine ⟨?_, ?_, ?_, ?_, ?_, ?_, ?_, ?_⟩
  · rw [init, alive _ ordinary.symm]
    exact family.init
  · intro other notInit lives
    rw [init] at notInit
    rw [living] at lives
    obtain ⟨parent, here, before⟩ := family.parent other notInit lives
    rcases parents other with ⟨-, adopted⟩ | ⟨apart, same⟩
    · refine ⟨system.initproc, adopted, ?_⟩
      rw [alive _ ordinary.symm]
      exact family.init
    · refine ⟨parent, same.trans here, ?_⟩
      rw [alive]
      · exact before
      · rintro rfl
        exact apart here
  · intro other
    rcases parents other with ⟨mine, adopted⟩ | ⟨-, same⟩
    · rw [adopted]
      intro itself
      rw [← Option.some.inj itself, family.root] at mine
      cases mine
    · rw [same]
      exact family.self other
  · rw [init]
    rcases parents system.initproc with ⟨mine, -⟩ | ⟨-, same⟩
    · rw [family.root] at mine
      cases mine
    · exact same.trans family.root
  · intro other np here
    rw [location] at here
    obtain ⟨apart, before⟩ := adopts_of_update rfl here
    have mine := family.adopts other np before
    rcases parents np with ⟨orphan, -⟩ | ⟨-, same⟩
    · exact absurd (Option.some.inj (mine.symm.trans orphan)) apart
    · exact same.trans mine
  · intro other kid asleep here dead
    have notSlot : other ≠ slot := by
      rintro rfl
      have state := asleep.1
      rw [zombie] at state
      cases state
    have before : AsleepInWait system.table other := by
      by_contra awake
      exact (others other notSlot).not_asleep awake asleep
    rcases parents kid with ⟨mine, adopted⟩ | ⟨apart, same⟩
    · have kidDead : (system.table kid).state = .zombie := by
        refine (others kid ?_).zombie_iff.mp dead
        rintro rfl
        exact family.self kid mine
      have heir := Option.some.inj (adopted.symm.trans here)
      rw [table, ← heir] at asleep
      exact exitTable_init system.initproc mine kidDead asleep
    · rw [same] at here
      by_cases itself : kid = slot
      · subst itself
        rw [table] at asleep
        exact exitTable_parent system.initproc here asleep
      · exact family.awake other kid before here ((others kid itself).zombie_iff.mp dead)
  · intro pid
    have pids : ∀ other, (next.table other).pid = (system.table other).pid := by
      intro other
      by_cases same : other = slot
      · subst same
        exact samePid
      · exact (others other same).pid
    have same : ∀ other, livingWith pid (next.table other) =
        livingWith pid (system.table other) := by
      intro other
      rw [livingWith, livingWith, living, pids]
    rw [init, forks, waits, pids, count_congr same]
    exact family.counted pid
  · rw [waits]
    exact family.reaped

end

variable [DecidableEq Cpu]

/-- Every step keeps the invariant. -/
theorem Family.transition {action : Action Cpu}
    (family : Family system) (coherent : Coherent system)
    (transition : Transition system action next) : Family next := by
  cases transition with
  | shake _ table keeps => exact family.shake keeps
  | move _ cpu target table location mine on keeps child =>
    refine family.congr (fun slot => (keeps slot).alike)
      (fun slot asleep => .inl ((keeps slot).asleep asleep))
      (fun slot np here => ?_) rfl rfl rfl
    exact (child slot).2.symm.trans here
  | dispatch cpu index slot place runnable =>
    refine family.congr (alike_set ⟨rfl, ?_, ?_, fun _ => rfl⟩)
      (fun other asleep => ?_) (fun _ _ => id) rfl rfl rfl
    · simp [Proc.alive, runnable]
    · simp [runnable]
    · rcases asleep_of_set asleep with ⟨-, impossible, -⟩ | ⟨-, before⟩
      · cases impossible
      · exact .inl before
  | stop _ cpu slot proc target mine on pid parent state asleep child =>
    have runs := coherent.runs on
    refine family.congr (alike_set ⟨parent, ?_, ?_, fun _ => pid⟩)
      (fun other sleeps => ?_) (fun other np here => ?_) rfl rfl rfl
    · unfold Proc.alive
      rcases state with same | same <;> rw [same, runs]
    · rw [runs]
      rcases state with same | same <;> rw [same] <;> decide
    · rcases asleep_of_set sleeps with ⟨rfl, sleeping, chan⟩ | ⟨-, before⟩
      · exact .inr (asleep sleeping chan)
      · exact .inl before
    · exact (child_update child other).2.symm.trans here
  | reap _ cpu slot child table mine on keeps zombie parent idle =>
    exact (family.shake keeps).reap (coherent.shake keeps) zombie parent rfl rfl rfl rfl rfl rfl
  | alloc cpu slot np on place unused =>
    refine family.congr (alike_set ⟨rfl, ?_, ?_, fun living => ?_⟩)
      (fun other asleep => ?_) (fun other entry here => ?_) rfl rfl rfl
    · simp [Proc.alive, unused]
    · simp [unused]
    · simp [Proc.living, Proc.alive, unused] at living
    · rcases asleep_of_set asleep with ⟨-, impossible, -⟩ | ⟨-, before⟩
      · cases impossible
      · exact .inl before
    · exact (adopts_of_update rfl (adopts_of_update rfl here).2).2
  | fail cpu slot np place =>
    have embryo : (system.table np).state = .embryo :=
      coherent.embryo (congrArg Location.child place)
    refine family.congr (alike_set ⟨rfl, ?_, ?_, fun _ => rfl⟩)
      (fun other asleep => ?_) (fun other entry here => ?_) rfl rfl rfl
    · simp [Proc.alive, embryo]
    · simp [embryo]
    · rcases asleep_of_set asleep with ⟨-, impossible, -⟩ | ⟨-, before⟩
      · cases impossible
      · exact .inl before
    · exact (adopts_of_update rfl here).2
  | adopt cpu slot np on place => exact family.adopt coherent on place rfl rfl rfl rfl rfl
  | born cpu slot np on place => exact family.born coherent on place rfl rfl rfl rfl rfl
  | exits cpu slot on free place ordinary =>
    exact family.exits coherent on ordinary rfl rfl rfl rfl rfl

end Preservation

theorem family_booted : Family (booted : System Cpu) := by
  have others : ∀ slot : Slot, slot ≠ 0 → (booted : System Cpu).table slot = Proc.zero := by
    intro slot apart
    exact (set_of_ne apart : Table.set (fun _ => Proc.zero) 0 _ slot = _)
  have parents : ∀ slot, ((booted : System Cpu).table slot).parent = none := by
    intro slot
    by_cases same : slot = 0
    · subst same
      rfl
    · rw [others slot same]
      rfl
  refine ⟨rfl, ?_, ?_, parents _, ?_, ?_, ?_, nofun⟩
  · intro slot ordinary living
    rw [others slot ordinary] at living
    cases living
  · intro slot
    rw [parents]
    exact nofun
  · intro slot np here
    unfold booted at here
    dsimp only at here
    split at here <;> cases here
  · intro slot child _ mine
    rw [parents] at mine
    cases mine
  · intro pid
    have moved := count_update (livingWith pid) (fun _ : Slot => Proc.zero) 0
      { Proc.zero with state := .runnable, pid := 1 }
    have none : count (livingWith pid) (fun _ : Slot => Proc.zero) = 0 := by
      simp [count, livingWith, Proc.living, Proc.alive, Proc.zero]
    have one : livingWith pid { Proc.zero with state := .runnable, pid := 1 } =
        decide ((1 : BitVec 32) = pid) := by
      simp [livingWith, Proc.living, Proc.alive]
    have zero : livingWith pid Proc.zero = false := rfl
    rw [none, one, zero, Bool.toNat_false, Nat.add_zero] at moved
    exact moved.symm.trans (Nat.zero_add _).symm

variable [DecidableEq Cpu]

/-- In every state of every run, on any number of CPUs: every process but `init`
has a parent that is alive, no process sleeps in `wait` while it has a zombie,
and each pid is returned by `wait` at most as often as by `fork`, each time to
the process that was the parent. -/
theorem noChildLost_of_run {actions : List (Action Cpu)} {final : System Cpu}
    (ended : run System.step booted actions = some final) :
    (∀ slot, slot ≠ final.initproc → (final.table slot).living = true →
        ∃ parent, (final.table slot).parent = some parent ∧ (final.table parent).alive = true) ∧
      (∀ slot child, AsleepInWait final.table slot → (final.table child).parent = some slot →
        (final.table child).state ≠ .zombie) ∧
      (∀ pid, (final.waits.map Reaped.pid).count pid ≤ final.forks.count pid) ∧
      ∀ reaped ∈ final.waits, reaped.parent = some reaped.reaper := by
  have invariant : Coherent final ∧ Family final :=
    run_invariant (fun system => Coherent system ∧ Family system)
      (fun _ _ _ invariant taken =>
        have transition := transition_of_step invariant.1 taken
        ⟨invariant.1.transition transition, invariant.2.transition invariant.1 transition⟩)
      ⟨coherent_booted, family_booted⟩ ended
  obtain ⟨-, family⟩ := invariant
  refine ⟨family.parent, family.awake, fun pid => ?_, family.reaped⟩
  have counted := family.counted pid
  by_cases same : (final.table final.initproc).pid = pid
  · -- `init` is living and not from a `fork`
    have lives : livingWith pid (final.table final.initproc) = true := by
      simp [livingWith, living_of_alive family.init, same]
    have positive := count_pos lives
    simp only [same, decide_true, Bool.toNat_true] at counted
    omega
  · simp only [same, decide_false, Bool.toNat_false] at counted
    omega

/-- The first process forks and waits, and the child ends. -/
def waitingRun : List (Action (Fin 1)) :=
  [.acquire 0, .scan 0, .resume 0, .allocproc 0, .forkParent 0, .forkEnd 0,
    .wait 0, .scan 0, .resume 0, .exit 0]

theorem noChildLost_waitingRun : ∃ final, run System.step booted waitingRun = some final ∧
      (final.table 1).state = .zombie ∧ final.forks = [2] ∧
      ∃ parent, (final.table 1).parent = some parent ∧ (final.table parent).alive = true := by
  have seen : (run System.step booted waitingRun).map
      (fun final => ((final.table 1).state, final.forks, final.initproc)) =
        some (.zombie, [2], 0) := by
    decide +kernel
  obtain ⟨final, ended, same⟩ := Option.map_eq_some_iff.mp seen
  obtain ⟨zombie, forks, init⟩ : (final.table 1).state = .zombie ∧ final.forks = [2] ∧
        final.initproc = 0 := by
    simpa only [Prod.mk.injEq] using same
  refine ⟨final, ended, zombie, forks, (noChildLost_of_run ended).1 1 ?_ ?_⟩
  · rw [init]
    decide
  · simp [Proc.living, zombie]

end Xv6.Process
