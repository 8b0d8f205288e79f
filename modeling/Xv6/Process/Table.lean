import Mathlib.Algebra.GroupWithZero.Nat
import Mathlib.Data.Fintype.Basic
import Mathlib.Data.List.FinRange
import Mathlib.Tactic.Common

/-!
# The process table

`struct proc` of `proc.h` and the parts of `proc.c` that run under
`ptable.lock`, as functions on the process table.
-/

namespace Xv6.Process

open List Function

/-- `NPROC`. -/
abbrev nproc : Nat := 64

/-- A pointer to an entry of `ptable.proc`. -/
abbrev Slot := Fin nproc

instance neZero_nproc : NeZero nproc := ⟨by decide⟩

/-- `enum procstate`. -/
inductive State
  | unused
  | embryo
  | sleeping
  | runnable
  | running
  | zombie
  deriving DecidableEq

/-- What a process sleeps on. -/
inductive Chan
  /-- The address of a process, on which it sleeps in `wait`. -/
  | proc (slot : Slot)
  /-- Any other address. -/
  | other (address : Nat)
  deriving DecidableEq

/-- `struct proc`, as far as the functions in this module use it. -/
structure Proc where
  state : State
  pid : BitVec 32
  parent : Option Slot
  chan : Option Chan
  killed : Bool
  priority : Int
  deriving DecidableEq

/-- An entry that was never used. -/
def Proc.zero : Proc where
  state := .unused
  pid := 0
  parent := none
  chan := none
  killed := false
  priority := 0

/-- `ptable.proc`. -/
abbrev Table := Slot → Proc

/-- The first entry of the table that passes a test. -/
def first (test : Slot → Bool) : Option Slot :=
  (List.finRange nproc).find? test

/-- Change one entry of the table. -/
def Table.set (table : Table) (slot : Slot) (proc : Proc) : Table :=
  Function.update table slot proc

/-- `wakeup1`. -/
def wakeup1 (table : Table) (chan : Chan) : Table := fun slot =>
  let proc := table slot
  if proc.state = .sleeping ∧ proc.chan = some chan then
    { proc with state := .runnable }
  else proc

/-- What `kill` does to an entry. -/
def Proc.kill (proc : Proc) : Proc :=
  { proc with
    killed := true
    state := if proc.state = .sleeping then .runnable else proc.state }

/-- `kill`: its result and the table it leaves. -/
def kill (table : Table) (pid : BitVec 32) : Int × Table :=
  match first fun slot => (table slot).pid = pid with
  | none => (-1, table)
  | some slot => (0, table.set slot (table slot).kill)

/-- The part of `allocproc` under the lock, for the entry it finds. -/
def Table.embryo (table : Table) (slot : Slot) (pid : BitVec 32) : Table :=
  table.set slot { table slot with state := .embryo, pid := pid, priority := 0 }

/-- The entry that `allocproc` finds. -/
def allocproc (table : Table) : Option Slot :=
  first fun slot => (table slot).state = .unused

/-- The loop of `exit` that passes children to `init`. -/
def reparent (curproc initproc : Slot) : List Slot → Table → Table
  | [], table => table
  | slot :: slots, table =>
    if (table slot).parent = some curproc then
      let table := table.set slot { table slot with parent := some initproc }
      if (table slot).state = .zombie then
        reparent curproc initproc slots (wakeup1 table (.proc initproc))
      else reparent curproc initproc slots table
    else reparent curproc initproc slots table

/-- `wakeup1` of the address of a process, or of a null pointer, on which
nobody sleeps. -/
def wakeupParent (table : Table) : Option Slot → Table
  | none => table
  | some parent => wakeup1 table (.proc parent)

/-- The part of `exit` under the lock, before it enters the scheduler. -/
def exitTable (table : Table) (curproc initproc : Slot) : Table :=
  let table := wakeupParent table (table curproc).parent
  let table := reparent curproc initproc (List.finRange nproc) table
  table.set curproc { table curproc with state := .zombie }

/-- The zombie that `wait` finds. -/
def zombieChild (table : Table) (curproc : Slot) : Option Slot :=
  first fun slot =>
    (table slot).parent = some curproc ∧ (table slot).state = .zombie

/-- `havekids`. -/
def havekids (table : Table) (curproc : Slot) : Prop :=
  ∃ slot, (table slot).parent = some curproc

instance (table : Table) (curproc : Slot) : Decidable (havekids table curproc) :=
  inferInstanceAs (Decidable (∃ slot, (table slot).parent = some curproc))

/-- The entry of a zombie after `wait`. -/
def Proc.reap (proc : Proc) : Proc :=
  { proc with pid := 0, parent := none, killed := false, state := .unused }

/-- The entry of a process that goes to sleep. -/
def Proc.sleep (proc : Proc) (chan : Chan) : Proc :=
  { proc with chan := some chan, state := .sleeping }

/-- The inner loop of `scheduler`: the process with the smallest priority
among those that are runnable, starting from `highP`. -/
def highP (table : Table) : List Slot → Slot → Slot
  | [], best => best
  | slot :: slots, best =>
    if (table slot).state = .runnable ∧
        (table best).priority > (table slot).priority then
      highP table slots slot
    else highP table slots best

/-! ## What these parts change -/

section Lemmas

variable {table : Table} {slot other : Slot} {test : Slot → Bool}

theorem first_eq_none : first test = none ↔ ∀ slot, test slot = false := by
  unfold first
  rw [find?_eq_none]
  constructor
  · exact fun none slot => Bool.eq_false_iff.mpr (none slot (mem_finRange slot))
  · exact fun none slot _ => Bool.eq_false_iff.mp (none slot)

theorem first_eq_some (found : first test = some slot) : test slot = true :=
  find?_some found

theorem sorted_finRange : (List.finRange nproc).Pairwise (· < ·) :=
  pairwise_lt_finRange nproc

/-- No entry that passes the test comes before the first. -/
theorem first_le (found : first test = some slot) (passes : test other = true) : slot ≤ other := by
  unfold first at found
  obtain ⟨-, before, after, split, none⟩ := find?_eq_some_iff_append.mp found
  have member := mem_finRange other
  have sorted := sorted_finRange
  rw [split] at member sorted
  rcases mem_append.mp member with early | late
  · have fails := none other early
    rw [passes] at fails
    cases fails
  · rcases mem_cons.mp late with same | behind
    · exact same.ge
    · have rest := (pairwise_append.mp sorted).2.1
      exact ((pairwise_cons.mp rest).1 other behind).le

@[simp] theorem set_self (proc : Proc) : table.set slot proc slot = proc :=
  update_self ..

@[simp] theorem set_set (proc proc' : Proc) :
    (table.set slot proc).set slot proc' = table.set slot proc' :=
  update_idem ..

theorem set_of_ne {proc : Proc} (apart : other ≠ slot) : table.set slot proc other = table other :=
  update_of_ne apart ..

/-- `wakeup1` makes sleeping processes runnable and changes nothing else. -/
theorem wakeup1_apply (table : Table) (chan : Chan) (slot : Slot) :
    wakeup1 table chan slot = table slot ∨
      (table slot).state = .sleeping ∧ (table slot).chan = some chan ∧
        wakeup1 table chan slot = { table slot with state := .runnable } := by
  unfold wakeup1
  dsimp only
  split
  case isTrue asleep => exact .inr ⟨asleep.1, asleep.2, rfl⟩
  case isFalse => exact .inl rfl

end Lemmas

end Xv6.Process
