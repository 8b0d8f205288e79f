import Xv6.Foundation.Tally
import Xv6.Fs.Opening
import Mathlib.Algebra.BigOperators.Pi
import Mathlib.Algebra.Order.BigOperators.Group.Finset

/-!
# Who refers to inodes and open files

Between calls the count of an inode in the cache is the number of live
processes with it as current directory and of open files on it, and the count
of an open file is the number of descriptors for it.  `close`, `dup`, `fork` and
`exit` keep the accounts, and at most give references to inodes up.
-/

namespace Xv6.Fs

open Function Foundation.Program Foundation.Tally
open Finset (mem_univ single_le_sum sum_nonneg)
open Pi (single single_eq_of_ne single_eq_same)

/-- The reference of a process to its current directory. -/
def Proc.grip (proc : Proc) : Slot → Int :=
  if proc.state = .live then Pi.single proc.cwd 1 else 0

/-- The reference of an open file to its inode. -/
def File.grip (file : File) : Slot → Int :=
  if file.type = .inode then Pi.single file.ip 1 else 0

/-- The reference of a descriptor to its open file. -/
def grasp (descriptor : Option (Fin nfile)) : Fin nfile → Int :=
  descriptor.elim 0 (Pi.single · 1)

/-- The references of a process to open files. -/
def Proc.descriptors (proc : Proc) : Fin nfile → Int :=
  ∑ fd, grasp (proc.ofile fd)

/-- The tables of processes and open files account for all references. -/
structure Tables (os : Kernel) (refs : Slot → Int) : Prop where
  closed : Closed os
  grips : refs = ∑ p, (os.procs p).grip + ∑ f, (os.ftable f).grip
  counts : ∀ f, (os.ftable f).ref = (∑ p, (os.procs p).descriptors) f
  ended : ∀ p, (os.procs p).state ≠ .live → (os.procs p).ofile = fun _ => none

/-- No call runs, and all references are accounted for. -/
structure Ready (os : Kernel) : Prop where
  quiet : Quiet os
  tables : Tables os os.refs

variable {os next : Kernel} {fd : Fin nofile} {f : Fin nfile} {file : File}

section Tables

variable {refs refs' : Slot → Int} {proc : Proc} {p : Fin nproc}

theorem descriptors_update (proc : Proc) (fd : Fin nofile) (descriptor : Option (Fin nfile)) :
    Proc.descriptors
        { proc with ofile := update proc.ofile fd descriptor } +
        grasp (proc.ofile fd) =
      proc.descriptors + grasp descriptor :=
  sum_update (mem_univ fd) grasp proc.ofile descriptor

theorem Tables.congr (tables : Tables os refs)
    (procs : next.procs = os.procs) (ftable : next.ftable = os.ftable) : Tables next refs where
  closed := fun f => by
    rw [ftable]
    exact tables.closed f
  grips := by
    rw [procs, ftable]
    exact tables.grips
  counts := by
    rw [procs, ftable]
    exact tables.counts
  ended := by
    rw [procs]
    exact tables.ended

theorem Tables.change (tables : Tables os refs) (procs : next.procs = update os.procs p proc)
    (ftable : next.ftable = update os.ftable f file) (closed : file.ref = 0 → file.type = .none)
    (grips : refs' + ((os.procs p).grip + (os.ftable f).grip) = refs + (proc.grip + file.grip))
    (counts : proc.descriptors + single f (os.ftable f).ref =
      (os.procs p).descriptors + single f file.ref)
    (ended : proc.state ≠ .live → proc.ofile = fun _ => none) : Tables next refs' where
  closed := by
    intro g
    rw [ftable]
    by_cases here : g = f
    · subst here
      rw [update_self]
      exact closed
    · rw [update_of_ne here]
      exact tables.closed g
  grips := by
    have first := sum_update (mem_univ p) Proc.grip os.procs proc
    have second := sum_update (mem_univ f) File.grip os.ftable file
    have before := tables.grips
    rw [procs, ftable]
    funext ip
    have first := congrFun first ip
    have second := congrFun second ip
    have before := congrFun before ip
    have grips := congrFun grips ip
    simp only [Pi.add_apply] at first second before grips ⊢
    omega
  counts := by
    intro g
    have sum := sum_update (mem_univ p) Proc.descriptors os.procs proc
    have sum := congrFun sum g
    have counts := congrFun counts g
    have before := tables.counts g
    rw [procs, ftable]
    simp only [Pi.add_apply] at sum counts
    by_cases here : g = f
    · subst here
      rw [single_eq_same, single_eq_same] at counts
      rw [update_self]
      omega
    · rw [single_eq_of_ne here, single_eq_of_ne here] at counts
      rw [update_of_ne here]
      omega
  ended := by
    intro q
    rw [procs]
    by_cases here : q = p
    · subst here
      rw [update_self]
      exact ended
    · rw [update_of_ne here]
      exact tables.ended q

theorem Proc.descriptors_nonneg (proc : Proc) (f : Fin nfile) : 0 ≤ proc.descriptors f := by
  unfold Proc.descriptors
  rw [Finset.sum_apply]
  refine sum_nonneg fun fd _ => ?_
  cases proc.ofile fd with
  | none => exact Int.le_refl 0
  | some g =>
    by_cases here : f = g
    · subst here
      simp [grasp]
    · simp [grasp, single_eq_of_ne here]

theorem Proc.one_le_descriptors (descriptor : proc.ofile fd = some f) : 1 ≤ proc.descriptors f := by
  have rest := congrFun (descriptors_update proc fd none) f
  have nonneg := Proc.descriptors_nonneg
    { proc with ofile := update proc.ofile fd none } f
  rw [descriptor] at rest
  simp only [Pi.add_apply, grasp, Option.elim_some, Option.elim_none,
    Pi.zero_apply, single_eq_same] at rest
  omega

/-- A file with a descriptor is open. -/
theorem Tables.ref_pos (tables : Tables os refs)
    (descriptor : (os.procs p).ofile fd = some f) : 1 ≤ (os.ftable f).ref := by
  have own := Proc.one_le_descriptors descriptor
  rw [tables.counts f, Finset.sum_apply]
  exact own.trans (single_le_sum (fun q _ => (os.procs q).descriptors_nonneg f) (mem_univ p))

theorem Proc.grip_nonneg (proc : Proc) (ip : Slot) : 0 ≤ proc.grip ip := by
  unfold Proc.grip
  split
  · by_cases here : ip = proc.cwd
    · subst here
      rw [single_eq_same]
      decide
    · rw [single_eq_of_ne here]
  · exact Int.le_refl 0

theorem File.grip_nonneg (file : File) (ip : Slot) : 0 ≤ file.grip ip := by
  unfold File.grip
  split
  · by_cases here : ip = file.ip
    · subst here
      rw [single_eq_same]
      decide
    · rw [single_eq_of_ne here]
  · exact Int.le_refl 0

/-- The references of live processes and of open files are counted. -/
theorem Tables.grip_le (tables : Tables os refs) (ip : Slot) :
    (∀ p, (os.procs p).grip ip ≤ refs ip) ∧ ∀ f, (os.ftable f).grip ip ≤ refs ip := by
  have total := congrFun tables.grips ip
  rw [Pi.add_apply, Finset.sum_apply, Finset.sum_apply] at total
  have procs : 0 ≤ ∑ p, (os.procs p).grip ip := sum_nonneg fun p _ => (os.procs p).grip_nonneg ip
  have files : 0 ≤ ∑ f, (os.ftable f).grip ip := sum_nonneg fun f _ => (os.ftable f).grip_nonneg ip
  constructor
  · intro p
    have one := single_le_sum
      (fun p _ => (os.procs p).grip_nonneg ip) (mem_univ p)
    omega
  · intro f
    have one := single_le_sum
      (fun f _ => (os.ftable f).grip_nonneg ip) (mem_univ f)
    omega

/-- The current directory of a live process is referred to. -/
theorem Tables.cwd_held (tables : Tables os refs)
    (live : (os.procs p).state = .live) : 0 < refs (os.procs p).cwd := by
  have bound := (tables.grip_le (os.procs p).cwd).1 p
  unfold Proc.grip at bound
  rw [if_pos live, single_eq_same] at bound
  omega

/-- The inode of an open file is referred to. -/
theorem Tables.ip_held (tables : Tables os refs)
    (type : (os.ftable f).type = .inode) : 0 < refs (os.ftable f).ip := by
  have bound := (tables.grip_le (os.ftable f).ip).2 f
  unfold File.grip at bound
  rw [if_pos type, single_eq_same] at bound
  omega

/-- A process without the descriptor. -/
def Proc.without (proc : Proc) (fd : Fin nofile) : Proc :=
  { proc with ofile := update proc.ofile fd none }

theorem Tables.close (tables : Tables os refs) (descriptor : (os.procs p).ofile fd = some f)
    (procs : next.procs = update os.procs p ((os.procs p).without fd))
    (ftable : next.ftable = update os.ftable f file)
    (ref : file.ref = (os.ftable f).ref - 1) (closed : file.ref = 0 → file.type = .none)
    (grips : refs' + (os.ftable f).grip = refs + file.grip) : Tables next refs' := by
  refine tables.change procs ftable closed ?_ ?_ fun stopped => ?_
  · have same : ((os.procs p).without fd).grip = (os.procs p).grip := rfl
    rw [same]
    funext ip
    have total := congrFun grips ip
    simp only [Pi.add_apply] at total ⊢
    omega
  · have fewer := descriptors_update (os.procs p) fd none
    rw [descriptor] at fewer
    funext g
    have total := congrFun fewer g
    change ((os.procs p).without fd).descriptors g + _ = _ at total
    simp only [Pi.add_apply, grasp, Option.elim_some, Option.elim_none, Pi.zero_apply] at total ⊢
    by_cases here : g = f
    · subst here
      rw [single_eq_same] at total
      rw [single_eq_same, single_eq_same, ref]
      omega
    · rw [single_eq_of_ne here] at total
      rw [single_eq_of_ne here, single_eq_of_ne here]
      omega
  · have none := tables.ended p stopped
    rw [none] at descriptor
    cases descriptor

end Tables

/-! ## Giving a reference up -/

/-- At most one reference to an inode was given up. -/
def Dropped (os next : Kernel) : Prop :=
  next.store.volume = os.store.volume ∨
    ∃ base ip, os.refs = base + Pi.single ip 1 ∧ (∀ jp, 0 ≤ base jp) ∧ next.refs = base ∧
      next.store.volume = os.store.volume.release (os.used base) (os.inum ip)

section Release

variable {base : Slot → Int} {ip : Slot} {stops : Stop → Prop}

/-- The state is quiet whatever the tables of files and processes hold. -/
theorem Quiet.outer {other : Kernel} (quiet : Quiet os)
    (store : other.store = os.store) (icache : other.icache = os.icache) : Quiet other where
  sound := by
    rw [store]
    exact quiet.sound
  cached := quiet.cached.outer store icache
  unlocked := fun jp => by
    unfold Kernel.locks
    rw [icache]
    exact quiet.unlocked jp
  retained := by
    intro inum node present unlinked
    rw [store] at present
    obtain ⟨jp, held, same, valid⟩ := quiet.retained inum node present unlinked
    refine ⟨jp, ?_, ?_, ?_⟩
    · unfold Kernel.refs
      rw [icache]
      exact held
    · unfold Kernel.inum
      rw [icache]
      exact same
    · rw [icache]
      exact valid

theorem Outcome.quiet {vol : Volume} {refs : Slot → Int}
    (outcome : Outcome base os next vol refs os.locks)
    (quiet : Quiet os) (retained : Retained next refs) : Quiet next where
  sound := outcome.sound
  cached := outcome.cached
  unlocked := by
    rw [outcome.locks]
    exact quiet.unlocked
  retained := by
    rw [outcome.refs]
    exact retained

/-- One reference of an inode in use can be given up. -/
theorem Cached.nonneg_sub_single (cached : Cached os) (held : 0 < os.refs ip) (jp : Slot) :
    0 ≤ (os.refs - single ip 1 : Slot → Int) jp := by
  have nonneg := cached.counted jp
  rw [Pi.sub_apply, Pi.single_apply]
  split
  case isTrue here =>
    rw [here]
    omega
  case isFalse => omega

theorem iput_quiet {begun : Kernel} (quiet : Quiet os)
    (begins : ∀ base, Undone base os begun os.refs os.locks)
    (refs : os.refs = base + single ip 1) (counted : ∀ jp, 0 ≤ base jp) (lenient : Lenient stops) :
    wp (iput ip)
      (fun _ next =>
        Outcome base os next
          (os.store.volume.release (os.used base) (os.inum ip)) base
          os.locks ∧
        Retained next base)
      stops begun := by
  have first := begins os.refs
  have held := pos_of_taken refs (counted ip)
  have number : begun.inum ip = os.inum ip := first.frame.inum ip held
  have retained : Retained begun begun.refs := by
    rw [first.refs]
    exact first.retained quiet.retained
  refine wp_mono (iput_release first.sound first.cached counted
    (first.refs.trans refs) number (fun node present unlinked => ?_)
    (by rw [first.locks]; exact quiet.unlocked ip) lenient) ?_ fun _ => id
  · obtain ⟨jp, jpHeld, same, valid⟩ := retained _ node present unlinked
    have equal : jp = ip := first.cached.unique jp ip jpHeld
      (by rw [first.refs]; exact held) (same.trans number.symm)
    exact equal ▸ valid
  · rintro _ next ⟨outcome, stays, -⟩
    rw [first.volume, (begins base).frame.used, first.locks] at outcome
    exact ⟨{ outcome with frame := (begins base).frame.trans outcome.frame }, stays retained⟩

/-- The end of a transaction. -/
theorem endOp_quiet {middle : Kernel} {vol : Volume} {refs : Slot → Int}
    {locks : Slot → Option Nat} (outcome : Outcome base os middle vol refs locks)
    (retained : Retained middle refs) :
    wp (onStore endOp) (fun _ next => Outcome base os next vol refs locks ∧
        Retained next refs)
      stops middle := by
  refine wp_mono (endOp_spec outcome.sound outcome.cached) ?_ fun _ => id
  intro _ next last
  have ended := (last base).toOutcome
  rw [outcome.volume, outcome.refs, outcome.locks] at ended
  exact ⟨outcome.trans ended fun _ => id, (last refs).retained retained⟩

variable {post : Unit → Kernel → Prop}

theorem fileclose_spec (quiet : Quiet os) (held : 1 ≤ (os.ftable f).ref)
    (referred : (os.ftable f).type = .inode → 0 < os.refs (os.ftable f).ip)
    (lenient : Lenient stops) (asleep : stops .asleep)
    (shared : 1 < (os.ftable f).ref → post () (os.setFile f
        { os.ftable f with ref := (os.ftable f).ref - 1 }))
    (plain : (os.ftable f).ref = 1 → (os.ftable f).type ≠ .inode →
      post () (os.setFile f { os.ftable f with ref := 0, type := .none }))
    (released : (os.ftable f).ref = 1 → (os.ftable f).type = .inode → ∀ base next,
      os.refs = base + single (os.ftable f).ip 1 →
      (∀ jp, 0 ≤ base jp) →
      Outcome base (os.setFile f { os.ftable f with ref := 0, type := .none }) next
        (os.store.volume.release (os.used base) (os.inum (os.ftable f).ip)) base os.locks →
      Retained next base → post () next) : wp (fileclose f) post stops os := by
  unfold fileclose
  simp only [wp_bind, wp_get]
  rw [wp_ite]
  refine ⟨fun few => absurd few (by omega), fun _ => ?_⟩
  rw [wp_ite]
  refine ⟨fun many => ?_, fun few => ?_⟩
  · rw [wp_set]
    exact shared (by omega)
  have last : (os.ftable f).ref = 1 := by omega
  rw [wp_bind, wp_set, wp_ite]
  refine ⟨fun inode => ?_, fun other => ?_⟩
  · have after : Quiet (os.setFile f { os.ftable f with ref := 0, type := .none }) :=
      quiet.outer rfl rfl
    have refs : os.refs = (os.refs - single (os.ftable f).ip 1) +
        single (os.ftable f).ip 1 := (sub_add_cancel _ _).symm
    have counted := quiet.cached.nonneg_sub_single (referred inode)
    refine wp_bind_of (beginOp_spec after.sound after.cached fun _ => asleep) ?_
    intro _ begun begins
    refine wp_bind_of (iput_quiet after begins refs counted lenient) ?_
    rintro _ middle ⟨outcome, retained⟩
    refine wp_mono (endOp_quiet outcome retained) ?_ fun _ => id
    rintro _ next ⟨ended, stays⟩
    exact released last inode _ next refs counted ended stays
  · rw [wp_pure]
    exact plain last other

/-- A descriptor of the current process was closed. -/
structure ClosedAt (os next : Kernel) (fd : Fin nofile) : Prop where
  ready : Ready next
  dropped : Dropped os next
  procs : next.procs = update os.procs os.cur
    ((os.procs os.cur).without fd)
  cur : next.cur = os.cur
  sb : next.store.sb = os.store.sb

theorem grip_of_ne (other : file.type ≠ .inode) : file.grip = 0 :=
  if_neg other

theorem grip_of_inode (inode : file.type = .inode) : file.grip = single file.ip 1 :=
  if_pos inode

/-- Closing a descriptor of an open file that keeps its inode, or has none. -/
theorem ClosedAt.of_same (ready : Ready os) (descriptor : (os.procs os.cur).ofile fd = some f)
    (store : next.store = os.store) (icache : next.icache = os.icache)
    (procs : next.procs = update os.procs os.cur ((os.procs os.cur).without fd))
    (cur : next.cur = os.cur) (ftable : next.ftable = update os.ftable f file)
    (ref : file.ref = (os.ftable f).ref - 1) (closed : file.ref = 0 → file.type = .none)
    (grip : (os.ftable f).grip = file.grip) : ClosedAt os next fd where
  ready := by
    have refs : next.refs = os.refs := by
      unfold Kernel.refs
      rw [icache]
    refine ⟨ready.quiet.outer store icache, ?_⟩
    rw [refs]
    exact ready.tables.close descriptor procs ftable ref closed (by rw [grip])
  dropped := .inl (by rw [store])
  procs := procs
  cur := cur
  sb := by rw [store]

/-- Closing the last descriptor of an open file, which gives its inode up. -/
theorem ClosedAt.of_released (ready : Ready os) (descriptor : (os.procs os.cur).ofile fd = some f)
    (inode : (os.ftable f).type = .inode) (refs : os.refs = base + single (os.ftable f).ip 1)
    (counted : ∀ jp, 0 ≤ base jp) (quiet : Quiet next) (left : next.refs = base)
    (vol : next.store.volume = os.store.volume.release (os.used base) (os.inum (os.ftable f).ip))
    (procs : next.procs = update os.procs os.cur ((os.procs os.cur).without fd))
    (cur : next.cur = os.cur) (sb : next.store.sb = os.store.sb)
    (ftable : next.ftable = update os.ftable f file) (ref : file.ref = (os.ftable f).ref - 1)
    (closed : file.type = .none) : ClosedAt os next fd where
  ready := by
    have none : file.grip = 0 := grip_of_ne (by rw [closed]; decide)
    refine ⟨quiet, ?_⟩
    rw [left]
    refine ready.tables.close descriptor procs ftable ref (fun _ => closed) ?_
    rw [grip_of_inode inode, ← refs, none, add_zero]
  dropped := .inr ⟨base, _, refs, counted, left, vol⟩
  procs := procs
  cur := cur
  sb := sb

theorem sysClose_spec {fd : Nat} {post : Int → Kernel → Prop}
    (ready : Ready os) (lenient : Lenient stops) (asleep : stops .asleep)
    (failed : post (-1) os) (closed : ∀ fd next, ClosedAt os next fd → post 0 next) :
    wp (sysClose fd) post stops os := by
  unfold sysClose
  split
  case isFalse => exact failed
  case isTrue inside =>
    simp only [wp_bind, wp_get]
    cases descriptor : (os.procs os.cur).ofile ⟨fd, inside⟩ with
    | none => exact failed
    | some f =>
      simp only [wp_bind, wp_set]
      have tables := ready.tables
      have quiet : Quiet (os.setProc ((os.procs os.cur).without ⟨fd, inside⟩)) :=
        ready.quiet.outer rfl rfl
      refine fileclose_spec quiet (tables.ref_pos descriptor)
        (fun type => tables.ip_held type) lenient asleep ?_ ?_ ?_
      · intro more
        change 1 < (os.ftable f).ref at more
        refine closed ⟨fd, inside⟩ _ (.of_same ready descriptor rfl rfl rfl
          rfl rfl rfl (fun zero => ?_) rfl)
        change (os.ftable f).ref - 1 = 0 at zero
        omega
      · intro last other
        change (os.ftable f).ref = 1 at last
        exact closed ⟨fd, inside⟩ _ (.of_same ready descriptor rfl rfl rfl
          rfl rfl (by dsimp only; omega) (fun _ => rfl)
          (grip_of_ne other))
      · intro last inode base next refs counted outcome retained
        change (os.ftable f).ref = 1 at last
        exact closed ⟨fd, inside⟩ next (.of_released ready descriptor inode
          refs counted (outcome.quiet (quiet.outer rfl rfl) retained)
          outcome.refs outcome.volume outcome.frame.procs outcome.frame.cur
          outcome.frame.sb outcome.frame.ftable (by dsimp only; omega) rfl)

theorem exitFiles_one {fds : List (Fin nofile)}
    (ready : Ready os) (lenient : Lenient stops) (asleep : stops .asleep)
    (unused : (os.procs os.cur).ofile fd = none → wp (exitFiles fds) post stops os)
    (closed : ∀ next, ClosedAt os next fd → wp (exitFiles fds) post stops next) :
    wp (exitFiles (fd :: fds)) post stops os := by
  unfold exitFiles
  simp only [wp_bind, wp_get]
  cases descriptor : (os.procs os.cur).ofile fd with
  | none => exact unused descriptor
  | some f =>
    have tables := ready.tables
    have quiet := ready.quiet
    simp only [wp_bind]
    refine fileclose_spec quiet (tables.ref_pos descriptor)
      (fun type => tables.ip_held type) lenient asleep ?_ ?_ ?_
    · intro more
      rw [wp_modify]
      refine closed _ (.of_same ready descriptor rfl rfl rfl rfl rfl rfl (fun zero => ?_) rfl)
      change (os.ftable f).ref - 1 = 0 at zero
      omega
    · intro last other
      rw [wp_modify]
      exact closed _ (.of_same ready descriptor rfl rfl rfl rfl rfl
        (by dsimp only; omega) (fun _ => rfl)
        (grip_of_ne other))
    · intro last inode base next refs counted outcome retained
      have procs : next.procs = os.procs := outcome.frame.procs
      have cur : next.cur = os.cur := outcome.frame.cur
      rw [wp_modify]
      have after := outcome.quiet (quiet.outer rfl rfl) retained
      have table : (next.setProc { next.procs next.cur with
          ofile := update (next.procs next.cur).ofile fd none }).procs
          = update os.procs os.cur ((os.procs os.cur).without fd) := by
        change update next.procs next.cur ((next.procs next.cur).without fd) = _
        rw [procs, cur]
      exact closed _ (.of_released ready descriptor inode refs counted
        (after.outer rfl rfl) outcome.refs outcome.volume table cur
        outcome.frame.sb outcome.frame.ftable (by dsimp only; omega) rfl)

end Release

end Xv6.Fs
