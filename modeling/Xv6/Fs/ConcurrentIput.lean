import Xv6.Foundation.Transition

/-!
# Concurrent calls of `iput`

Several processes drop their references to one cached inode.  A step of a
process is one critical section: `acquiresleep`, the test of `valid` and
`nlink` with the reading of `ref` under `icache.lock`, the freeing of the
inode, `releasesleep`, and `ref--` under `icache.lock`.
-/

namespace Xv6.ConcurrentIput

open Foundation.Transition
open Function (update update_of_ne)

/-- Where a process is in `iput`. -/
inductive Location
  /-- Before `acquiresleep`. -/
  | called
  /-- Holding the sleep lock, before the test of `valid` and `nlink`. -/
  | locked
  /-- Holding the sleep lock, with `r` read. -/
  | counted (r : Nat)
  /-- Holding the sleep lock, before `releasesleep`. -/
  | unlocking
  /-- Before `ref--`. -/
  | dropping
  /-- Returned. -/
  | returned
  deriving DecidableEq

/-- The process holds `ip->lock`. -/
def Location.holdsLock : Location → Bool
  | .locked | .counted _ | .unlocking => true
  | .called | .dropping | .returned => false

/-- The process still has its reference. -/
def Location.refers : Location → Bool
  | .returned => false
  | _ => true

/-- The process has found its reference to be the last one. -/
def Location.decided : Location → Bool
  | .counted r => r = 1
  | _ => false

variable {Process : Type}

/-- The cached inode, its type on disk, and the processes. -/
structure State (Process : Type) where
  /-- `ip->ref`. -/
  ref : Nat
  /-- The holder of `ip->lock`. -/
  lock : Option Process
  /-- `ip->valid`. -/
  valid : Bool
  /-- `ip->nlink`. -/
  nlink : Nat
  /-- `type` of the inode on disk. -/
  type : Nat
  /-- How often `itrunc` has run on the inode. -/
  truncations : Nat
  /-- Where each process is. -/
  location : Process → Location

variable [DecidableEq Process]

/-- Move one process. -/
def State.goto (s : State Process) (proc : Process) (target : Location) : State Process :=
  { s with location := Function.update s.location proc target }

/-- The next critical section of one process. -/
def step (s : State Process) (proc : Process) : Option (State Process) :=
  match s.location proc with
  | .called =>
    -- acquiresleep waits while the lock is taken
    if s.lock = none then
      some { s.goto proc .locked with lock := some proc }
    else none
  | .locked =>
    if s.valid ∧ s.nlink = 0 then
      some (s.goto proc (.counted s.ref))
    else some (s.goto proc .unlocking)
  | .counted r =>
    if r = 1 then
      -- itrunc(ip); ip->type = 0; iupdate(ip); ip->valid = 0
      some { s.goto proc .unlocking with
        truncations := s.truncations + 1
        type := 0
        valid := false }
    else some (s.goto proc .unlocking)
  | .unlocking => some { s.goto proc .dropping with lock := none }
  | .dropping => some { s.goto proc .returned with ref := s.ref - 1 }
  | .returned => none

/-- A valid inode of the given type without links, to which each process holds
one reference. -/
def unlinked [Fintype Process] (type : Nat) : State Process where
  ref := Fintype.card Process
  lock := none
  valid := true
  nlink := 0
  type := type
  truncations := 0
  location := fun _ => .called

/-- The process is about to test `ref` after all others have dropped their
references. -/
def Alone (s : State Process) (proc : Process) : Prop :=
  s.location proc = .locked ∧ ∀ other, other ≠ proc → s.location other = .returned

instance [Fintype Process] (s : State Process) (proc : Process) :
    Decidable (Alone s proc) :=
  inferInstanceAs (Decidable (_ ∧ _))

/-- The inode has been freed exactly once. -/
def FreedOnce (s : State Process) : Prop :=
  s.truncations = 1 ∧ s.type = 0

/-! ## The invariant -/

/-- What holds in every state of every run. -/
structure Invariant [Fintype Process] (type : Nat) (s : State Process) :
    Prop where
  /-- The holder of the sleep lock is the process in the critical section. -/
  lock : Exclusive Location.holdsLock s.location s.lock
  /-- `ref` counts the processes that have not dropped their reference. -/
  ref : s.ref = count Location.refers s.location
  /-- The inode has no links. -/
  nlink : s.nlink = 0
  /-- The inode is untouched until it is freed, and is freed once. -/
  freed : s.truncations = 0 ∧ s.type = type ∧ s.valid = true ∨
    s.truncations = 1 ∧ s.type = 0 ∧ s.valid = false
  /-- Who has found `ref` to be 1 frees an inode that was not freed. -/
  decided : ∀ proc, (s.location proc).decided = true → s.truncations = 0

theorem Location.holdsLock_of_decided {location : Location}
    (decided : location.decided = true) : location.holdsLock = true := by
  cases location <;> first | rfl | cases decided

variable [Fintype Process]

omit [DecidableEq Process] in
/-- The invariant holds when the calls begin. -/
theorem Invariant.unlinked (type : Nat) : Invariant type (unlinked type : State Process) where
  lock := by simp [Exclusive, ConcurrentIput.unlinked, Location.holdsLock]
  ref := by simp [count, ConcurrentIput.unlinked, Location.refers]
  nlink := rfl
  freed := .inl ⟨rfl, rfl, rfl⟩
  decided := nofun

variable {s next : State Process} {proc : Process} {type : Nat}

/-- Every step keeps the invariant. -/
theorem Invariant.preserved (invariant : Invariant type s) (taken : step s proc = some next) :
    Invariant type next := by
  obtain ⟨lock, ref, nlink, freed, decided⟩ := invariant
  unfold step at taken
  cases place : s.location proc with
  | called =>
    simp only [place, Option.ite_none_right_eq_some, Option.some.injEq] at taken
    obtain ⟨free, rfl⟩ := taken
    have unlocked := free ▸ lock
    exact ⟨unlocked.enter rfl, ref.trans (count_move (by rw [place]; rfl)).symm, nlink, freed,
      forall_update decided (by simp [Location.decided])⟩
  | locked =>
    simp only [place] at taken
    split at taken
    case isTrue valid =>
      cases taken
      refine ⟨lock.move (by rw [place]; rfl),
        ref.trans (count_move (by rw [place]; rfl)).symm, nlink, freed,
        forall_update decided fun _ => ?_⟩
      rcases freed with ⟨untouched, _⟩ | ⟨_, _, invalid⟩
      · exact untouched
      · simp [invalid] at valid
    case isFalse =>
      cases taken
      exact ⟨lock.move (by rw [place]; rfl),
        ref.trans (count_move (by rw [place]; rfl)).symm, nlink, freed,
        forall_update decided (by simp [Location.decided])⟩
  | counted r =>
    simp only [place] at taken
    split at taken
    case isTrue last =>
      cases taken
      have untouched : s.truncations = 0 := decided proc (by simp [place, Location.decided, last])
      refine ⟨lock.move (by rw [place]; rfl),
        ref.trans (count_move (by rw [place]; rfl)).symm, nlink,
        .inr ⟨by simp [untouched], rfl, rfl⟩, ?_⟩
      -- nobody else is in the critical section
      refine forall_update_of_ne (fun other apart member => ?_) (by simp [Location.decided])
      exact absurd (lock.unique (Location.holdsLock_of_decided member) (by rw [place]; rfl)) apart
    case isFalse =>
      cases taken
      exact ⟨lock.move (by rw [place]; rfl),
        ref.trans (count_move (by rw [place]; rfl)).symm, nlink, freed,
        forall_update decided (by simp [Location.decided])⟩
  | unlocking =>
    simp only [place, Option.some.injEq] at taken
    subst taken
    exact ⟨lock.leave (by rw [place]; rfl) rfl,
      ref.trans (count_move (by rw [place]; rfl)).symm, nlink, freed,
      forall_update decided (by simp [Location.decided])⟩
  | dropping =>
    simp only [place, Option.some.injEq] at taken
    subst taken
    refine ⟨lock.move (by rw [place]; rfl), ?_, nlink, freed,
      forall_update decided (by simp [Location.decided])⟩
    have counted := count_update Location.refers s.location proc .returned
    rw [place, ← ref] at counted
    change _ + 1 = _ + 0 at counted
    change s.ref - 1 = count Location.refers (update s.location proc .returned)
    omega
  | returned => simp [place] at taken

/-! ## When the inode is freed -/

/-- Some process has found its reference to be the last, or has freed the
inode. -/
def Doomed (s : State Process) : Prop :=
  s.truncations = 1 ∨ ∃ proc, (s.location proc).decided = true

omit [Fintype Process] in
/-- A step that neither frees the inode nor changes whether its process has
decided to. -/
theorem doomed_congr {target : Location} (location : next.location = update s.location proc target)
    (truncations : next.truncations = s.truncations)
    (same : target.decided = (s.location proc).decided) : Doomed next ↔ Doomed s := by
  unfold Doomed
  rw [location, truncations, exists_update same]

omit [Fintype Process] in
/-- What a step does to the fate of the inode: it frees a doomed inode, or it
tests `ref`, or it changes nothing. -/
theorem doomed_cases (taken : step s proc = some next) :
    (s.location proc = .counted 1 ∧ next.truncations = s.truncations + 1) ∨
      (s.location proc = .locked ∧ s.valid = true ∧ next = s.goto proc (.counted s.ref)) ∨
      (s.location proc = .locked → s.valid = true → s.nlink ≠ 0) ∧ (Doomed next ↔ Doomed s) := by
  unfold step at taken
  cases place : s.location proc with
  | called =>
    simp only [place, Option.ite_none_right_eq_some, Option.some.injEq] at taken
    obtain ⟨_, rfl⟩ := taken
    exact .inr (.inr ⟨nofun, doomed_congr rfl rfl (by rw [place]; rfl)⟩)
  | locked =>
    simp only [place] at taken
    split at taken
    case isTrue valid =>
      cases taken
      exact .inr (.inl ⟨rfl, valid.1, rfl⟩)
    case isFalse invalid =>
      cases taken
      exact .inr (.inr ⟨fun _ valid linked => invalid ⟨valid, linked⟩,
        doomed_congr rfl rfl (by rw [place]; rfl)⟩)
  | counted r =>
    simp only [place] at taken
    split at taken
    case isTrue last =>
      cases taken
      exact .inl ⟨by rw [last], rfl⟩
    case isFalse more =>
      cases taken
      exact .inr (.inr ⟨nofun, doomed_congr rfl rfl (by simp [place, Location.decided, more])⟩)
  | unlocking =>
    simp only [place, Option.some.injEq] at taken
    subst taken
    exact .inr (.inr ⟨nofun, doomed_congr rfl rfl (by rw [place]; rfl)⟩)
  | dropping =>
    simp only [place, Option.some.injEq] at taken
    subst taken
    exact .inr (.inr ⟨nofun, doomed_congr rfl rfl (by rw [place]; rfl)⟩)
  | returned => simp [place] at taken

/-- An inode that is doomed stays so. -/
theorem Doomed.preserved (invariant : Invariant type s) (doomed : Doomed s)
    (taken : step s proc = some next) : Doomed next := by
  rcases doomed_cases taken with ⟨place, freed⟩ | ⟨place, valid, rfl⟩ | same
  · have untouched := invariant.decided proc (by rw [place]; rfl)
    exact .inl (by rw [freed, untouched])
  · rcases doomed with freed | ⟨other, decided⟩
    · exact .inl freed
    · refine .inr ⟨other, ?_⟩
      have apart : other ≠ proc := by
        rintro rfl
        rw [place] at decided
        cases decided
      simpa only [State.goto, update_of_ne apart] using decided
  · exact same.2.mpr doomed

variable {s : State Process}

omit [DecidableEq Process] in
/-- The last of the processes finds `ref` to be 1. -/
theorem ref_eq_one_iff (invariant : Invariant type s) (place : s.location proc = .locked) :
    s.ref = 1 ↔ Alone s proc := by
  rw [invariant.ref, count_eq_one_iff (by rw [place]; rfl)]
  unfold Alone
  constructor
  · intro outside
    refine ⟨place, fun other apart => ?_⟩
    have absent := outside other apart
    cases here : s.location other <;> rw [here] at absent <;> first | rfl | cases absent
  · rintro ⟨_, returned⟩ other apart
    rw [returned other apart]
    rfl

/-- A process that tests `ref` while alone dooms the inode; other steps do
not. -/
theorem doomed_iff (invariant : Invariant type s) (untouched : ¬ Doomed s)
    (taken : step s proc = some next) : Doomed next ↔ Alone s proc := by
  rcases doomed_cases taken with ⟨place, _⟩ | ⟨place, valid, rfl⟩ | same
  · exact absurd (.inr ⟨proc, by rw [place]; rfl⟩) untouched
  · rw [← ref_eq_one_iff invariant place]
    constructor
    · rintro (freed | ⟨other, decided⟩)
      · exact absurd (.inl freed) untouched
      · have only : ∀ third, (update s.location proc
            (.counted s.ref) third).decided = true → s.ref = 1 := by
          refine forall_update (fun third decided => ?_) ?_
          · exact absurd (.inr ⟨third, decided⟩) untouched
          · simp [Location.decided]
        exact only other decided
    · intro last
      refine .inr ⟨proc, ?_⟩
      simp [State.goto, Location.decided, last]
  · refine iff_of_false (fun doomed => untouched (same.2.mp doomed)) ?_
    rintro ⟨place, _⟩
    rcases invariant.freed with ⟨_, _, valid⟩ | ⟨freed, _⟩
    · exact same.1 place valid invariant.nlink
    · exact untouched (.inl freed)

/-- Runs of the calls from a state in which the inode is not doomed. -/
theorem doomed_run_iff {s final : State Process} {schedule : List Process}
    (invariant : Invariant type s) (untouched : ¬ Doomed s)
    (ended : run step s schedule = some final) :
    Doomed final ↔ ¬ Along step (fun s proc => ¬ Alone s proc) s schedule := by
  induction schedule generalizing s with
  | nil =>
    cases ended
    exact iff_of_false untouched (fun absent => absent trivial)
  | cons proc schedule ih =>
    obtain ⟨next, taken, rest⟩ := run_cons ended
    have dooms := doomed_iff invariant untouched taken
    have after := invariant.preserved taken
    rw [Along, taken]
    by_cases alone : Alone s proc
    · refine iff_of_true ?_ (fun both => both.1 alone)
      have both : Invariant type final ∧ Doomed final :=
        run_invariant (fun reached => Invariant type reached ∧ Doomed reached)
          (fun _ _ _ before step => ⟨before.1.preserved step, before.2.preserved before.1 step⟩)
          ⟨after, dooms.mpr alone⟩ rest
      exact both.2
    · rw [ih after (fun doomed => alone (dooms.mp doomed)) rest]
      simp [alone]

omit [DecidableEq Process] in
/-- Once all calls have returned, the inode was freed exactly if it is
doomed. -/
theorem freedOnce_iff_doomed (invariant : Invariant type s)
    (returned : ∀ proc, s.location proc = .returned) : FreedOnce s ↔ Doomed s := by
  have undecided : ¬ ∃ proc, (s.location proc).decided = true := by
    simp [returned, Location.decided]
  unfold FreedOnce Doomed
  rw [or_iff_left undecided]
  rcases invariant.freed with ⟨untouched, _⟩ | ⟨freed, unallocated, _⟩
  · simp [untouched]
  · simp [freed, unallocated]

/-- After every interleaving of the calls of `iput`, once all of them have
returned, the inode has been freed exactly once if and only if some process
tested `ref` after all the others had dropped their references. -/
theorem freedOnce_iff (type : Nat) (schedule : List Process) (final : State Process)
    (ended : run step (unlinked type) schedule = some final)
    (returned : ∀ proc, final.location proc = .returned) :
    FreedOnce final ↔ ¬ Along step (fun s proc => ¬ Alone s proc)
        (unlinked type) schedule := by
  have invariant : Invariant type final :=
    run_invariant (Invariant type) (fun _ _ _ before step => before.preserved step)
      (Invariant.unlinked type) ended
  rw [freedOnce_iff_doomed invariant returned]
  refine doomed_run_iff (Invariant.unlinked type) ?_ ended
  rintro (freed | ⟨proc, decided⟩)
  · cases freed
  · cases decided

/-- One call after the other. -/
def inTurn : List (Fin 2) :=
  [0, 0, 0, 0, 0, 1, 1, 1, 1, 1]

theorem freedOnce_inTurn : ∃ final, run step (unlinked 2) inTurn = some final ∧
        (∀ proc, final.location proc = .returned) ∧
        (FreedOnce final ↔ ¬ Along step (fun s proc => ¬ Alone s proc)
            (unlinked 2) inTurn) :=
  ⟨_, rfl, by decide, freedOnce_iff 2 inTurn _ rfl (by decide)⟩

/-- Both calls read `ref` before either lowers it. -/
def bothCounted : List (Fin 2) :=
  [0, 0, 0, 0, 1, 1, 1, 1, 0, 1]

/-- Two calls that both read `ref` before either lowers it leave the inode
allocated on disk. -/
theorem leaked_bothCounted : ∃ final, run step (unlinked 2) bothCounted = some final ∧
        (∀ proc, final.location proc = .returned) ∧
        final.ref = 0 ∧ final.truncations = 0 ∧ final.type = 2 :=
  ⟨_, rfl, by decide, rfl, rfl, rfl⟩

end Xv6.ConcurrentIput
