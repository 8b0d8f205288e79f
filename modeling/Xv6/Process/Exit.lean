import Xv6.Process.Table

/-!
# The part of `exit` under the lock

What `exit` does to each entry of the process table, and which processes it
leaves awake.
-/

namespace Xv6.Process

open List

/-- What waking processes and passing on the children of `curproc` does to an
entry; `visited` says that the loop has come upon it. -/
structure PassedOn (curproc initproc : Slot) (visited : Prop) (before after : Proc) : Prop where
  pid : after.pid = before.pid
  killed : after.killed = before.killed
  adopted : visited → before.parent = some curproc → after.parent = some initproc
  kept : ¬ (visited ∧ before.parent = some curproc) → after.parent = before.parent
  state : after.state = before.state ∧ after.chan = before.chan ∨
    before.state = .sleeping ∧ after.state = .runnable

/-- The process sleeps in `wait`. -/
def AsleepInWait (table : Table) (slot : Slot) : Prop :=
  (table slot).state = .sleeping ∧ (table slot).chan = some (.proc slot)

variable {curproc initproc : Slot} {table : Table}

section Loop

variable {visited : Prop}

theorem PassedOn.refl {proc : Proc} (other : ¬ (visited ∧ proc.parent = some curproc)) :
    PassedOn curproc initproc visited proc proc :=
  ⟨rfl, rfl, fun here mine => absurd ⟨here, mine⟩ other, fun _ => rfl, .inl ⟨rfl, rfl⟩⟩

variable {slot : Slot}

theorem PassedOn.wakeup1 {chan : Chan} {after : Proc}
    (passed : PassedOn curproc initproc visited (wakeup1 table chan slot) after) :
    PassedOn curproc initproc visited (table slot) after := by
  rcases wakeup1_apply table chan slot with same | ⟨asleep, -, awake⟩
  · rwa [same] at passed
  · rw [awake] at passed
    refine ⟨passed.pid, passed.killed, passed.adopted, passed.kept, .inr ⟨asleep, ?_⟩⟩
    rcases passed.state with ⟨same, -⟩ | ⟨impossible, -⟩
    · exact same
    · cases impossible

theorem not_asleep_wakeup1 (table : Table) (slot : Slot) :
    ¬ AsleepInWait (wakeup1 table (.proc slot)) slot := by
  rintro ⟨asleep, chan⟩
  unfold wakeup1 at asleep chan
  dsimp only at asleep chan
  split at asleep
  case isTrue => cases asleep
  case isFalse awake =>
    rw [if_neg awake] at chan
    exact awake ⟨asleep, chan⟩

theorem PassedOn.not_asleep
    {after : Table} (passed : PassedOn curproc initproc visited (table slot) (after slot))
    (awake : ¬ AsleepInWait table slot) : ¬ AsleepInWait after slot := by
  rintro ⟨asleep, chan⟩
  rcases passed.state with ⟨same, sameChan⟩ | ⟨-, runnable⟩
  · exact awake ⟨same ▸ asleep, sameChan ▸ chan⟩
  · rw [runnable] at asleep
    cases asleep

/-- Zombies stay zombies, and no process becomes one. -/
theorem PassedOn.zombie_iff {before after : Proc}
    (passed : PassedOn curproc initproc visited before after) :
    after.state = .zombie ↔ before.state = .zombie := by
  rcases passed.state with ⟨same, -⟩ | ⟨asleep, runnable⟩
  · rw [same]
  · rw [asleep, runnable]
    decide

variable {slots : List Slot}

/-- One entry of the loop. -/
theorem PassedOn.cons {head : Slot} {after : Proc} (fresh : head ∉ slots)
    (mine : (table head).parent = some curproc)
    (passed : PassedOn curproc initproc (slot ∈ slots)
      (table.set head { table head with parent := some initproc } slot)
      after) : PassedOn curproc initproc (slot ∈ head :: slots) (table slot) after := by
  by_cases same : slot = head
  · subst same
    rw [set_self] at passed
    have kept := passed.kept fun visited => fresh visited.1
    exact ⟨passed.pid, passed.killed, fun _ _ => kept,
      fun other => absurd ⟨mem_cons_self, mine⟩ other, passed.state⟩
  · rw [set_of_ne same] at passed
    have member : slot ∈ head :: slots ↔ slot ∈ slots := by simp [same]
    exact ⟨passed.pid, passed.killed, fun here => passed.adopted (member.mp here), fun other =>
        passed.kept fun visited => other ⟨member.mpr visited.1, visited.2⟩,
      passed.state⟩

/-- The loop of `exit`. -/
theorem reparent_spec (curproc initproc : Slot) (nodup : slots.Nodup)
    (table : Table) (slot : Slot) :
    PassedOn curproc initproc (slot ∈ slots) (table slot)
      (reparent curproc initproc slots table slot) := by
  induction slots generalizing table with
  | nil => exact .refl (by simp)
  | cons head slots ih =>
    obtain ⟨fresh, rest⟩ := nodup_cons.mp nodup
    unfold reparent
    split
    case isTrue mine =>
      dsimp only
      split
      case isTrue => exact .cons fresh mine (.wakeup1 (ih rest _))
      case isFalse => exact .cons fresh mine (ih rest _)
    case isFalse other =>
      have passed := ih rest table
      refine ⟨passed.pid, passed.killed, fun here mine => ?_,
        fun none => ?_, passed.state⟩
      · rcases mem_cons.mp here with rfl | later
        · exact absurd mine other
        · exact passed.adopted later mine
      · exact passed.kept fun visited =>
          none ⟨mem_cons_of_mem _ visited.1, visited.2⟩

/-- The loop wakes `init` when it passes a zombie on to it. -/
theorem reparent_awake {zombie : Slot} (nodup : slots.Nodup)
    (member : zombie ∈ slots) (mine : (table zombie).parent = some curproc)
    (dead : (table zombie).state = .zombie) :
    ¬ AsleepInWait (reparent curproc initproc slots table) initproc := by
  induction slots generalizing table with
  | nil => cases member
  | cons head slots ih =>
    obtain ⟨fresh, rest⟩ := nodup_cons.mp nodup
    unfold reparent
    by_cases same : zombie = head
    · subst same
      rw [if_pos mine]
      simp only [set_self, dead, if_true]
      exact (reparent_spec curproc initproc rest _ initproc).not_asleep
        (not_asleep_wakeup1 _ initproc)
    · have later : zombie ∈ slots := by simpa [same] using member
      split
      case isFalse => exact ih rest later mine dead
      case isTrue =>
        dsimp only
        split
        case isTrue =>
          exact (reparent_spec curproc initproc rest _ initproc).not_asleep
            (not_asleep_wakeup1 _ initproc)
        case isFalse =>
          refine ih rest later ?_ ?_
          · rwa [set_of_ne same]
          · rwa [set_of_ne same]

end Loop

section Exit

theorem wakeupParent_spec {visited : Prop} {parent : Option Slot} {slot : Slot} {after : Proc}
    (passed : PassedOn curproc initproc visited (wakeupParent table parent slot) after) :
    PassedOn curproc initproc visited (table slot) after := by
  cases parent with
  | none => exact passed
  | some parent => exact passed.wakeup1

/-- The loops of `exit`, before the process becomes a zombie. -/
theorem exitTable_of_ne (table : Table) (curproc initproc : Slot) {slot : Slot}
    (other : slot ≠ curproc) :
    PassedOn curproc initproc True (table slot) (exitTable table curproc initproc slot) := by
  unfold exitTable
  dsimp only
  rw [set_of_ne other]
  have passed := wakeupParent_spec (reparent_spec curproc initproc (nodup_finRange nproc)
    (wakeupParent table (table curproc).parent) slot)
  exact ⟨passed.pid, passed.killed, fun _ => passed.adopted
    (mem_finRange slot), fun other => passed.kept fun visited => other ⟨trivial, visited.2⟩,
    passed.state⟩

theorem exitTable_zombie (table : Table) (curproc initproc : Slot) :
    (exitTable table curproc initproc curproc).state = .zombie := by
  unfold exitTable
  dsimp only
  rw [set_self]

theorem exitTable_pid_killed (table : Table) (curproc initproc slot : Slot) :
    (exitTable table curproc initproc slot).pid = (table slot).pid ∧
      (exitTable table curproc initproc slot).killed = (table slot).killed := by
  by_cases same : slot = curproc
  · subst same
    unfold exitTable
    dsimp only
    rw [set_self]
    have passed := wakeupParent_spec (reparent_spec slot initproc (nodup_finRange nproc)
      (wakeupParent table (table slot).parent) slot)
    exact ⟨passed.pid, passed.killed⟩
  · have passed := exitTable_of_ne table curproc initproc same
    exact ⟨passed.pid, passed.killed⟩

/-- The process that ends keeps its pid and its parent. -/
theorem exitTable_self (table : Table) {curproc : Slot} (initproc : Slot)
    (other : (table curproc).parent ≠ some curproc) :
    (exitTable table curproc initproc curproc).pid = (table curproc).pid ∧
      (exitTable table curproc initproc curproc).parent = (table curproc).parent := by
  unfold exitTable
  dsimp only
  rw [set_self]
  have passed := wakeupParent_spec (reparent_spec curproc initproc (nodup_finRange nproc)
    (wakeupParent table (table curproc).parent) curproc)
  exact ⟨passed.pid, passed.kept fun visited => other visited.2⟩

/-- The process that ends is not asleep, and the others are as they were. -/
theorem not_asleep_set {slot other : Slot} {proc : Proc}
    (dead : proc.state = .zombie) (awake : ¬ AsleepInWait table other) :
    ¬ AsleepInWait (table.set slot proc) other := by
  rintro ⟨asleep, chan⟩
  by_cases same : other = slot
  · subst same
    rw [set_self, dead] at asleep
    cases asleep
  · rw [set_of_ne same] at asleep chan
    exact awake ⟨asleep, chan⟩

theorem exitTable_parent {parent : Slot} (initproc : Slot)
    (mine : (table curproc).parent = some parent) :
    ¬ AsleepInWait (exitTable table curproc initproc) parent := by
  unfold exitTable
  rw [mine]
  apply not_asleep_set rfl
  exact (reparent_spec curproc initproc (nodup_finRange nproc) _
    parent).not_asleep (not_asleep_wakeup1 table parent)

/-- `exit` wakes `init` when it leaves a zombie to it. -/
theorem exitTable_init {zombie : Slot} (initproc : Slot)
    (mine : (table zombie).parent = some curproc) (dead : (table zombie).state = .zombie) :
    ¬ AsleepInWait (exitTable table curproc initproc) initproc := by
  unfold exitTable
  apply not_asleep_set rfl
  have woken : PassedOn curproc initproc False (table zombie)
      (wakeupParent table (table curproc).parent zombie) :=
    wakeupParent_spec (.refl fun visited => visited.1)
  refine reparent_awake (nodup_finRange nproc) (mem_finRange zombie) ?_ (woken.zombie_iff.mpr dead)
  rw [woken.kept fun visited => visited.1]
  exact mine

end Exit

end Xv6.Process
