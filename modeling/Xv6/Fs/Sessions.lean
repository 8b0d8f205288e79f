import Xv6.Fs.FailedCalls
import Xv6.Fs.Reachability
import Xv6.Fs.Writing

/-!
# Sequences of calls that lose no inode

Calls of any processes, one after another, keep the accounts of references.  As
long as no call removes the last link of an inode that is in use, and no link
count overflows, every allocated inode has links and can be reached from the
root.
-/

namespace Xv6.Fs

open Function Foundation.Program Foundation.Tally Foundation.Transition
open Pi (single)

/-- All references are accounted for, and all allocated inodes can be
reached. -/
structure Fit (os : Kernel) : Prop where
  ready : Ready os
  rooted : Rooted os.store.volume os.store.sb.ninodes

section Fit

variable {os next : Kernel} {volume : Volume} {n : Nat}

/-- With links, nothing is freed when a reference is given up. -/
theorem Rooted.release_eq (rooted : Rooted volume n) (used : Finset Nat) (inum : Nat) :
    volume.release used inum = volume := by
  cases present : volume inum with
  | none =>
    unfold Volume.release
    rw [present]
  | some node => exact Volume.release_of_linked present (rooted.linked present)

theorem Rooted.retained {base : Slot → Int} (rooted : Rooted next.store.volume n) :
    Retained next base :=
  fun _ _ present unlinked => absurd unlinked (rooted.linked present)

/-- The tables are as before, and so are the counts of inodes. -/
theorem Fit.of_outcome (fit : Fit os) (outcome : Outcome os.refs os next volume os.refs os.locks)
    (rooted : Rooted volume os.store.sb.ninodes) : Fit next := by
  have kept : Rooted next.store.volume next.store.sb.ninodes := by
    rw [outcome.volume, outcome.frame.sb]
    exact rooted
  refine ⟨⟨outcome.quiet fit.ready.quiet kept.retained, ?_⟩, kept⟩
  rw [outcome.refs]
  exact fit.ready.tables.congr outcome.frame.procs outcome.frame.ftable

theorem Fit.of_undone (fit : Fit os)
    (undone : Undone os.refs os next os.refs os.locks) : Fit next :=
  fit.of_outcome undone.toOutcome fit.rooted

theorem Fit.dropped (fit : Fit os) (ready : Ready next)
    (dropped : Dropped os next) (sb : next.store.sb = os.store.sb) : Fit next := by
  refine ⟨ready, ?_⟩
  rw [sb]
  rcases dropped with same | ⟨base, ip, -, -, -, released⟩
  · rw [same]
    exact fit.rooted
  · rw [released, fit.rooted.release_eq]
    exact fit.rooted

/-- Another process runs. -/
theorem Fit.switch (fit : Fit os) (p : Fin nproc) : Fit { os with cur := p } where
  ready := ⟨fit.ready.quiet.outer rfl rfl, fit.ready.tables.congr rfl rfl⟩
  rooted := fit.rooted

theorem Fit.created {d i : Nat} {dir : Node} {name path : List Byte} {type : BitVec 16}
    (fit : Fit os) (creatable : Creatable os os.refs path d dir name)
    (absent : os.store.volume i = none) (inside : i < os.store.sb.ninodes) (number : 0 < i)
    (room : type = tDir → dir.nlink + 1 ≠ 0) :
    Rooted ((os.store.volume.created d i dir name type).release
      (os.used os.refs) d) os.store.sb.ninodes := by
  have made : Rooted (os.store.volume.created d i dir name type)
      os.store.sb.ninodes :=
    fit.rooted.created creatable.present creatable.isDirectory absent number inside room
  rw [made.release_eq]
  exact made

end Fit

/-! ## Calls on paths -/

/-- The call does not remove the last link of an inode in use, and no link count
overflows. -/
def PathCall.Safe (os : Kernel) : PathCall → Prop
  | unlink path => ∀ name d dir i index node, argstr path = some name →
      Unlinkable os name d dir i index →
      os.store.volume i = some node → node.nlink = 1 →
      i ∉ os.used os.refs
  | link old _ => ∀ name i node, argstr old = some name →
      Linkable os name i node → node.nlink + 1 ≠ 0
  | mkdir path => ∀ name d dir last, argstr path = some name →
      Creatable os os.refs name d dir last →
      dir.nlink + 1 ≠ 0
  | _ => True

variable {os : Kernel} {refs : Slot → Int}

section Paths

variable {fd : Fin nofile} {before : Kernel} {f : Fin nfile}

theorem assign_procs (procs : before.procs = os.procs) (cur : before.cur = os.cur) :
    (before.assign f fd).procs = update os.procs os.cur
      { os.procs os.cur with
        ofile := update (os.procs os.cur).ofile fd (some f) } := by
  rw [← procs, ← cur]
  rfl

variable {ip : Slot} {next : Kernel}

/-- An open file for an inode is set up, with a descriptor for it. -/
theorem Tables.opens {omode : Nat}
    (tables : Tables os refs) (live : (os.procs os.cur).state = .live)
    (free : (os.ftable f).ref = 0) (empty : (os.procs os.cur).ofile fd = none)
    (procs : next.procs = update os.procs os.cur { os.procs os.cur with
        ofile := update (os.procs os.cur).ofile fd (some f) })
    (ftable : next.ftable = update os.ftable f (openedFile ip omode)) :
    Tables next (refs + single ip 1) := by
  refine tables.change procs ftable (fun zero => absurd zero one_ne_zero) ?_ ?_
    (fun dead => absurd live dead)
  · have untyped := tables.closed f free
    have old : (os.ftable f).grip = 0 := grip_of_ne (by rw [untyped]; decide)
    have new : (openedFile ip omode).grip = single ip 1 := grip_of_inode rfl
    rw [old, new]
    change refs + single ip 1 + ((os.procs os.cur).grip + 0) =
      refs + ((os.procs os.cur).grip + single ip 1)
    rw [add_zero, add_assoc, add_comm (single ip 1)]
  · have moved := descriptors_update (os.procs os.cur) fd (some f)
    rw [empty] at moved
    have none : grasp none = 0 := rfl
    rw [none, add_zero] at moved
    rw [moved, free, Pi.single_zero, add_zero]
    rfl

/-- The current directory of a process is changed. -/
theorem Tables.moves {refs refs' : Slot → Int} (tables : Tables os refs)
    (live : (os.procs os.cur).state = .live)
    (procs : next.procs = update os.procs os.cur { os.procs os.cur with cwd := ip })
    (ftable : next.ftable = os.ftable)
    (moved : refs' + single os.cwd 1 = refs + single ip 1) : Tables next refs' := by
  have same : next.ftable = update os.ftable 0 (os.ftable 0) := by
    rw [update_eq_self]
    exact ftable
  refine tables.change procs same (tables.closed 0) ?_ rfl (fun dead => absurd live dead)
  have old : (os.procs os.cur).grip = single os.cwd 1 := if_pos live
  have new : Proc.grip { os.procs os.cur with cwd := ip } = single ip 1 := if_pos live
  rw [old, new, ← add_assoc, ← add_assoc, moved]

theorem Tables.duplicates {fd' : Fin nofile}
    (tables : Tables os refs) (live : (os.procs os.cur).state = .live)
    (descriptor : (os.procs os.cur).ofile fd = some f) (empty : (os.procs os.cur).ofile fd' = none)
    (procs : next.procs = update os.procs os.cur { os.procs os.cur with
        ofile := update (os.procs os.cur).ofile fd' (some f) })
    (ftable : next.ftable = update os.ftable f
      { os.ftable f with ref := (os.ftable f).ref + 1 }) : Tables next refs := by
  have referred := tables.ref_pos descriptor
  refine tables.change procs ftable (fun zero => ?_) rfl ?_ (fun dead => absurd live dead)
  · change (os.ftable f).ref + 1 = 0 at zero
    omega
  · have moved := descriptors_update (os.procs os.cur) fd' (some f)
    rw [empty] at moved
    change _ + 0 = _ + single f 1 at moved
    rw [add_zero] at moved
    change _ = _ + (single f ((os.ftable f).ref + 1) : Fin nfile → Int)
    rw [moved, add_assoc, ← Pi.single_add, add_comm (1 : Int)]

theorem Tables.ends (tables : Tables os refs) (live : (os.procs os.cur).state = .live)
    (closed : ∀ fd, (os.procs os.cur).ofile fd = none)
    (procs : next.procs = update os.procs os.cur { os.procs os.cur with state := .zombie })
    (ftable : next.ftable = os.ftable) : Tables next (refs - single os.cwd 1) := by
  have same : next.ftable = update os.ftable 0 (os.ftable 0) := by
    rw [update_eq_self]
    exact ftable
  refine tables.change procs same (tables.closed 0) ?_ rfl
    fun _ => funext closed
  have old : (os.procs os.cur).grip = single os.cwd 1 := if_pos live
  have new : Proc.grip { os.procs os.cur with state := .zombie } = 0 :=
    if_neg (fun alive => (by cases alive))
  rw [old, new, ← add_assoc, sub_add_cancel, zero_add]

theorem Fit.opened {middle : Kernel} {volume : Volume} {omode : Nat}
    (fit : Fit os) (live : (os.procs os.cur).state = .live)
    (openable : Openable os before ip volume)
    (rooted : Rooted volume os.store.sb.ninodes) (free : (os.ftable f).ref = 0)
    (empty : (os.procs os.cur).ofile fd = none)
    (undone : Undone before.refs ((before.take f).assign f fd) middle
      before.refs os.locks) : Fit (middle.setFile f (openedFile ip omode)) := by
  have kept : Rooted middle.store.volume middle.store.sb.ninodes := by
    have sb : middle.store.sb = before.store.sb := undone.frame.sb
    have same : middle.store.volume = before.store.volume := undone.volume
    rw [same, sb, openable.volume, openable.frame.sb]
    exact rooted
  have quiet : Quiet middle :=
    { sound := undone.sound
      cached := undone.cached
      unlocked := by
        rw [undone.locks]
        exact fit.ready.quiet.unlocked
      retained := kept.retained }
  have cur : before.cur = os.cur := openable.frame.cur
  have procs := undone.frame.procs.trans (assign_procs openable.frame.procs cur)
  have ftable : update middle.ftable f (openedFile ip omode) =
      update os.ftable f (openedFile ip omode) := by
    rw [undone.frame.ftable]
    change update (update before.ftable f _) f _ = _
    rw [update_idem, openable.frame.ftable]
  refine ⟨⟨quiet.outer rfl rfl, ?_⟩, kept⟩
  have refs : (middle.setFile f (openedFile ip omode)).refs =
      os.refs + single ip 1 := undone.refs.trans openable.refs
  rw [refs]
  exact fit.ready.tables.opens live free empty procs ftable

/-- `sys_chdir` has changed the current directory. -/
theorem Fit.moved {base : Slot → Int} {used : Finset Nat}
    (fit : Fit os) (live : (os.procs os.cur).state = .live)
    (undone : Undone os.refs os before (os.refs + single ip 1) os.locks)
    (refs : base + single os.cwd 1 = os.refs + single ip 1)
    (outcome : Outcome base before next (os.store.volume.release used (os.inum os.cwd)) base
      os.locks) : Fit (next.setProc { next.procs next.cur with cwd := ip }) := by
  have kept : Rooted next.store.volume next.store.sb.ninodes := by
    rw [outcome.volume, fit.rooted.release_eq, outcome.frame.sb, undone.frame.sb]
    exact fit.rooted
  have quiet : Quiet next :=
    { sound := outcome.sound
      cached := outcome.cached
      unlocked := by
        rw [outcome.locks]
        exact fit.ready.quiet.unlocked
      retained := kept.retained }
  have procs : next.procs = os.procs := outcome.frame.procs.trans undone.frame.procs
  have cur : next.cur = os.cur := outcome.frame.cur.trans undone.frame.cur
  have ftable : next.ftable = os.ftable := outcome.frame.ftable.trans undone.frame.ftable
  refine ⟨⟨quiet.outer rfl rfl, ?_⟩, kept⟩
  change Tables _ next.refs
  rw [outcome.refs]
  have moved : (next.setProc { next.procs next.cur with cwd := ip }).procs =
      update os.procs os.cur
        { os.procs os.cur with cwd := ip } := by
    change update next.procs next.cur
      { next.procs next.cur with cwd := ip } = _
    rw [procs, cur]
  exact fit.ready.tables.moves live moved ftable refs

/-- A call on paths that is safe. -/
theorem PathCall.fit (fit : Fit os) (live : (os.procs os.cur).state = .live) (call : PathCall)
    (safe : call.Safe os) : wp call.perform (fun _ next => Fit next) Anyhow os := by
  have quiet := fit.ready.quiet
  have current : 0 < os.refs os.cwd := fit.ready.tables.cwd_held live
  have closed := fit.ready.tables.closed
  have anyhow : ∀ reason, Anyhow reason := fun _ => trivial
  have undone : ∀ next, Undone os.refs os next os.refs os.locks → Fit next :=
    fun next => fit.of_undone
  cases call with
  | openPath argument omode =>
    cases string : argstr argument with
    | none =>
      change wp (sysOpen argument omode) _ _ _
      rw [sysOpen_of_none string]
      exact fit
    | some path =>
      refine sysOpen_spec quiet current closed string lenient_anyhow
        (anyhow _) (anyhow _) (fun _ _ _ => anyhow _)
        (fun _ _ _ _ _ => anyhow _) (fun _ _ _ _ _ _ _ _ _ _ => anyhow _)
        (fun next _ same _ => undone next same) ?_ ?_
      · intro d dir name i next _ creatable absent inside number outcome _
        exact fit.of_outcome outcome (fit.created creatable absent inside
          number fun impossible => absurd impossible (by decide))
      · intro volume before ip f fd middle openable found free empty same _
        refine fit.opened live openable ?_ free empty same
        rcases found with rfl | ⟨d, dir, name, i, -, creatable, absent, inside, number, rfl⟩
        · exact fit.rooted
        · exact fit.created creatable absent inside number
            fun impossible => absurd impossible (by decide)
  | link old new =>
    cases oldString : argstr old with
    | none =>
      change wp (sysLink old new) _ _ _
      rw [sysLink_of_none (.inl oldString)]
      exact fit
    | some oldPath =>
      cases newString : argstr new with
      | none =>
        change wp (sysLink old new) _ _ _
        rw [sysLink_of_none (.inr newString)]
        exact fit
      | some newPath =>
        refine sysLink_spec quiet current oldString newString
          lenient_anyhow (anyhow _) (anyhow _) (fun _ _ _ => anyhow _)
          (fun _ _ _ _ => anyhow _) (fun _ _ _ _ _ _ => anyhow _)
          (fun _ _ _ _ _ _ _ _ _ _ => anyhow _)
          (fun next same _ => undone next same) ?_
        intro i node d name dir next linkable _ present isDirectory _ outcome _
        have made : Rooted (os.store.volume.linked d i dir node name)
            os.store.sb.ninodes :=
          fit.rooted.linked_step present isDirectory linkable.present
            linkable.notDirectory (safe oldPath i node oldString linkable)
        rw [made.release_eq] at outcome
        exact fit.of_outcome outcome made
  | unlink argument =>
    cases string : argstr argument with
    | none =>
      change wp (sysUnlink argument) _ _ _
      rw [sysUnlink_of_none string]
      exact fit
    | some path =>
      refine sysUnlink_spec quiet current string lenient_anyhow (anyhow _)
        (anyhow _) (fun _ _ _ => anyhow _) (fun _ _ _ _ => anyhow _)
        (fun _ _ _ _ _ _ => anyhow _) (fun _ _ _ _ _ _ _ _ => anyhow _)
        (fun next same _ => undone next same) ?_
      intro d dir i index node next unlinkable apart target _ vacant outcome _
      obtain ⟨name, -, notDot, notDotdot, found⟩ := unlinkable.found
      obtain ⟨dirent, there, -, refers⟩ := lookup_eq_some found
      refine fit.of_outcome outcome (fit.rooted.unlinked unlinkable.present
        unlinkable.isDirectory target apart ?_ there refers ?_ ?_)
      · by_cases isDirectory : node.type = tDir
        · exact vacant isDirectory
        · rw [fit.rooted.plain target isDirectory]
          exact fun dirent member => absurd member List.not_mem_nil
      · exact (fit.rooted.dotted unlinkable.present
          unlinkable.isDirectory).late notDot notDotdot found
      · exact safe path d dir i index node string unlinkable target
  | mkdir argument =>
    cases string : argstr argument with
    | none =>
      change wp (makeNode argument tDir 0 0) _ _ _
      rw [makeNode_of_none string]
      exact beginOp_endOp quiet (anyhow _) undone
    | some path =>
      refine makeNode_spec quiet current string (by decide) (by decide)
        lenient_anyhow (anyhow _) (anyhow _) (fun _ _ _ => anyhow _)
        (fun _ _ _ _ _ _ _ _ _ => anyhow _)
        (fun next same _ => undone next same) ?_
      intro d dir name i next creatable absent inside number outcome _
      exact fit.of_outcome outcome (fit.created creatable absent inside
        number fun _ => safe path d dir name string creatable)
  | mknod argument major minor =>
    cases string : argstr argument with
    | none =>
      change wp (makeNode argument tDev _ _) _ _ _
      rw [makeNode_of_none string]
      exact beginOp_endOp quiet (anyhow _) undone
    | some path =>
      refine makeNode_spec quiet current string (by decide) (by decide)
        lenient_anyhow (anyhow _) (anyhow _) (fun _ _ _ => anyhow _)
        (fun _ _ _ _ _ _ _ _ _ => anyhow _)
        (fun next same _ => undone next same) ?_
      intro d dir name i next creatable absent inside number outcome _
      exact fit.of_outcome outcome (fit.created creatable absent inside
        number fun impossible => absurd impossible (by decide))
  | chdir argument =>
    cases string : argstr argument with
    | none =>
      change wp (sysChdir argument) _ _ _
      rw [sysChdir_of_none string]
      exact beginOp_endOp quiet (anyhow _) undone
    | some path =>
      refine sysChdir_spec quiet current string lenient_anyhow (anyhow _)
        (fun _ _ _ => anyhow _) (fun _ _ _ _ => anyhow _)
        (fun next same _ => undone next same) ?_
      intro ip node base before next same _ _ refs _ outcome _
      exact fit.moved live same refs outcome

end Paths

/-! ## Descriptors -/

/-- `sys_dup`. -/
def sysDup (fd : Nat) : KernelM Int := do
  if inside : fd < nofile then
    match ((← get).procs (← get).cur).ofile ⟨fd, inside⟩ with
    | none => return -1
    | some f =>
      match ← fdalloc f with
      | none => return -1
      | some fd =>
        discard (filedup f)
        return fd.val
  else return -1

section Descriptors

theorem sysClose_fit (fit : Fit os) (fd : Nat) :
    wp (sysClose fd) (fun _ next => Fit next) Anyhow os :=
  sysClose_spec fit.ready lenient_anyhow trivial fit
    fun _ _ closed => fit.dropped closed.ready closed.dropped closed.sb

theorem exitFiles_fit (fit : Fit os) (fd : Fin nofile) :
    wp (exitFiles [fd]) (fun _ next => Fit next) Anyhow os :=
  exitFiles_one fit.ready lenient_anyhow trivial (fun _ => fit)
    fun _ closed => fit.dropped closed.ready closed.dropped closed.sb

variable {stops : Stop → Prop}

theorem wp_filedup {f : Fin nfile} {post : Fin nfile → Kernel → Prop}
    (referred : 1 ≤ (os.ftable f).ref)
    (done : post f (os.setFile f { os.ftable f with ref := (os.ftable f).ref + 1 })) :
    wp (filedup f) post stops os := by
  unfold filedup
  simp only [wp_bind, wp_get, wp_ite, wp_throw, wp_pure, wp_set]
  exact ⟨fun none => absurd none (by omega), fun _ => done⟩

/-- `dup` fails, or a second descriptor refers to the open file. -/
theorem sysDup_rule {post : Kernel → Prop} (tables : Tables os refs) (fd : Nat) (failed : post os)
    (done : ∀ fd f fd', (os.procs os.cur).ofile fd = some f → (os.procs os.cur).ofile fd' = none →
      post ((os.assign f fd').setFile f { os.ftable f with ref := (os.ftable f).ref + 1 })) :
    wp (sysDup fd) (fun _ next => post next) Anyhow os := by
  unfold sysDup
  split
  case isFalse => exact failed
  case isTrue inside =>
    simp only [wp_bind, wp_get]
    cases descriptor : (os.procs os.cur).ofile ⟨fd, inside⟩ with
    | none => exact failed
    | some f =>
      simp only [wp_bind]
      refine fdalloc_spec failed fun fd' empty => ?_
      have referred : 1 ≤ ((os.assign f fd').ftable f).ref := tables.ref_pos descriptor
      refine (wp_bind ..).mpr ((wp_discard _).mpr (wp_filedup referred ?_))
      exact done _ f fd' descriptor empty

theorem sysDup_fit (fit : Fit os) (live : (os.procs os.cur).state = .live) (fd : Nat) :
    wp (sysDup fd) (fun _ next => Fit next) Anyhow os := by
  refine sysDup_rule fit.ready.tables fd fit fun _ f fd' descriptor empty => ?_
  refine ⟨⟨fit.ready.quiet.outer rfl rfl, ?_⟩, fit.rooted⟩
  exact fit.ready.tables.duplicates live descriptor empty rfl rfl

theorem exitEnd_fit (fit : Fit os) (live : (os.procs os.cur).state = .live)
    (closed : ∀ fd, (os.procs os.cur).ofile fd = none) :
    wp exitEnd (fun _ next => Fit next) Anyhow os := by
  have quiet := fit.ready.quiet
  have current : 0 < os.refs os.cwd := fit.ready.tables.cwd_held live
  have refs : os.refs = (os.refs - single os.cwd 1) +
      single os.cwd 1 := (sub_add_cancel _ _).symm
  have counted := quiet.cached.nonneg_sub_single current
  unfold exitEnd
  refine wp_bind_of (beginOp_spec quiet.sound quiet.cached fun _ => trivial) ?_
  intro _ begun begins
  have first := (begins os.refs).frame
  simp only [wp_bind, wp_get]
  rw [first.procs, first.cur]
  refine wp_mono (iput_quiet quiet begins refs counted lenient_anyhow) ?_
    fun _ => id
  rintro _ middle ⟨released, stays⟩
  refine wp_mono (endOp_quiet released stays) ?_ fun _ => id
  rintro _ next ⟨outcome, -⟩
  rw [wp_modify]
  rw [fit.rooted.release_eq] at outcome
  have kept : Rooted next.store.volume next.store.sb.ninodes := by
    rw [outcome.volume, outcome.frame.sb]
    exact fit.rooted
  have procs : (next.setProc { next.procs next.cur with
      state := .zombie }).procs = update os.procs os.cur
        { os.procs os.cur with state := .zombie } := by
    change update next.procs next.cur
      { next.procs next.cur with state := .zombie } = _
    rw [outcome.frame.procs, outcome.frame.cur]
  refine ⟨⟨(outcome.quiet quiet kept.retained).outer rfl rfl, ?_⟩, kept⟩
  change Tables _ next.refs
  rw [outcome.refs]
  exact fit.ready.tables.ends live closed procs outcome.frame.ftable

/-! ## Children -/

/-- The open files after a process has taken references to them. -/
def Kernel.referFiles (os : Kernel) (more : Fin nfile → Int) : Kernel :=
  { os with ftable := fun f =>
      { os.ftable f with ref := (os.ftable f).ref + more f } }

/-- The loop of `fork` takes a reference for each descriptor. -/
theorem forkFiles_spec {ofile : Fin nofile → Option (Fin nfile)}
    (fds : List (Fin nofile)) (referred : ∀ fd f, ofile fd = some f → 1 ≤ (os.ftable f).ref) :
    wp (forkFiles ofile fds) (fun _ next => next =
        os.referFiles (fds.map fun fd => grasp (ofile fd)).sum)
      stops os := by
  induction fds generalizing os with
  | nil =>
    change os = os.referFiles 0
    unfold Kernel.referFiles
    simp only [Pi.zero_apply, add_zero]
  | cons fd fds ih =>
    unfold forkFiles
    cases descriptor : ofile fd with
    | none =>
      refine wp_mono (ih referred) ?_ fun _ => id
      rintro _ next rfl
      rw [List.map_cons, List.sum_cons, descriptor]
      change _ = os.referFiles (0 + _)
      rw [zero_add]
    | some f =>
      refine (wp_bind ..).mpr ((wp_discard _).mpr (wp_filedup (referred fd f descriptor) ?_))
      refine wp_mono (ih fun fd' g stored => ?_) ?_ fun _ => id
      · have before := referred fd' g stored
        change 1 ≤ (update os.ftable f _ g).ref
        rw [update_apply]
        split
        case isTrue same =>
          rw [same] at before
          change 1 ≤ (os.ftable f).ref + 1
          omega
        case isFalse => exact before
      · rintro _ next rfl
        rw [List.map_cons, List.sum_cons, descriptor]
        unfold Kernel.referFiles Kernel.setFile
        refine congrArg (fun table : Fin nfile → File =>
          { os with ftable := table }) (funext fun g => ?_)
        change _ = { os.ftable g with ref := (os.ftable g).ref +
          ((single f 1 : Fin nfile → Int) g + (fds.map fun fd => grasp (ofile fd)).sum g) }
        dsimp only
        by_cases same : g = f
        · subst same
          rw [update_self, Pi.single_eq_same, add_assoc]
        · rw [update_of_ne same, Pi.single_eq_of_ne same, zero_add]

theorem sum_grasp (proc : Proc) : ((List.finRange nofile).map fun fd => grasp (proc.ofile fd)).sum =
      proc.descriptors := by
  unfold Proc.descriptors
  rw [Fin.sum_univ_def]

theorem Tables.ref_nonneg (tables : Tables os refs) (f : Fin nfile) : 0 ≤ (os.ftable f).ref := by
  rw [tables.counts f, Finset.sum_apply]
  exact Finset.sum_nonneg fun p _ => (os.procs p).descriptors_nonneg f

/-- A child has the descriptors of its parent, and its current directory. -/
theorem Tables.fork {next : Kernel} {np : Fin nproc} {child : Proc}
    (tables : Tables os refs) (unused : (os.procs np).state = .unused)
    (alive : child.state = .live) (cwd : child.cwd = os.cwd)
    (descriptors : child.descriptors = (os.procs os.cur).descriptors)
    (procs : next.procs = update os.procs np child)
    (ftable : next.ftable = (os.referFiles (os.procs os.cur).descriptors).ftable) :
    Tables next (refs + single os.cwd 1) where
  closed := by
    intro f zero
    have nonneg := tables.ref_nonneg f
    have more := (os.procs os.cur).descriptors_nonneg f
    rw [ftable] at zero ⊢
    change (os.ftable f).ref + _ = 0 at zero
    exact tables.closed f (by omega)
  grips := by
    have old : (os.procs np).grip = 0 := if_neg (by rw [unused]; decide)
    have new : child.grip = single os.cwd 1 := by
      rw [← cwd]
      exact if_pos alive
    have moved := sum_update (Finset.mem_univ np) Proc.grip os.procs child
    rw [old, new, add_zero] at moved
    have same : ∑ f, (next.ftable f).grip = ∑ f, (os.ftable f).grip := by
      rw [ftable]
      rfl
    rw [procs, moved, same, tables.grips, add_right_comm]
  counts := by
    intro f
    have old : (os.procs np).descriptors = 0 := by
      have none := tables.ended np (by rw [unused]; decide)
      unfold Proc.descriptors
      rw [none]
      exact Finset.sum_eq_zero fun fd _ => rfl
    have moved := sum_update (Finset.mem_univ np) Proc.descriptors os.procs child
    rw [old, add_zero, descriptors] at moved
    rw [procs, moved, ftable, Pi.add_apply, ← tables.counts f]
    rfl
  ended := by
    intro p dead
    rw [procs, update_apply] at dead ⊢
    split at dead
    case isTrue => exact absurd alive dead
    case isFalse other =>
      rw [if_neg other]
      exact tables.ended p dead

/-- `fork` takes references to the open files and to the current directory, and
fills a process in. -/
theorem fork_rule {memory : Bool} {post : Int → Kernel → Prop}
    (cached : Cached os) (tables : Tables os os.refs) (live : (os.procs os.cur).state = .live)
    (refused : ∀ next, next.store = os.store → next.icache = os.icache → next.procs = os.procs →
      next.ftable = os.ftable → post (-1) next)
    (forked : ∀ referred duplicated next, referred.store = os.store → referred.icache = os.icache →
      Shift os.refs referred duplicated (os.refs + single os.cwd 1) os.locks →
      next.store = duplicated.store → next.icache = duplicated.icache →
      next.ftable = (os.referFiles (os.procs os.cur).descriptors).ftable →
      Tables next (os.refs + single os.cwd 1) →
      post os.nextpid next) : wp (fork memory) post stops os := by
  unfold fork
  simp only [wp_bind, wp_get]
  split
  case h_1 => exact refused os rfl rfl rfl rfl
  case h_2 np found =>
    have test := List.find?_some found
    have unused : (os.procs np).state = .unused := of_decide_eq_true test
    rw [wp_bind, wp_set]
    split
    case isFalse => exact refused _ rfl rfl rfl rfl
    case isTrue =>
      refine (wp_bind ..).mpr (wp_mono (forkFiles_spec (List.finRange nofile)
        fun fd f stored => tables.ref_pos stored) ?_ fun _ => id)
      intro _ middle referred
      rw [sum_grasp] at referred
      have icache : middle.icache = os.icache := by
        rw [referred]
        rfl
      have store : middle.store = os.store := by
        rw [referred]
        rfl
      have refs : middle.refs = os.refs := by
        unfold Kernel.refs
        rw [icache]
      have locks : middle.locks = os.locks := by
        unfold Kernel.locks
        rw [icache]
      refine (wp_bind ..).mpr (wp_mono (idup_spec (cached.outer store icache) ?_) ?_ fun _ => id)
      · rw [refs]
        exact tables.cwd_held live
      rintro _ duplicated ⟨rfl, shift⟩
      rw [refs, locks] at shift
      simp only [wp_bind, wp_modify, wp_pure]
      have procs : duplicated.procs = os.procs := by
        rw [shift.frame.procs, referred]
        rfl
      have ftable : duplicated.ftable = (os.referFiles (os.procs os.cur).descriptors).ftable := by
        rw [shift.frame.ftable, referred]
        rfl
      have none := tables.ended np (by rw [unused]; decide)
      refine forked middle duplicated _ store icache shift rfl rfl ftable ?_
      refine tables.fork unused ?_ ?_ ?_ (congrArg (fun table => update table np _) procs) ftable
      · rfl
      · rfl
      · unfold Proc.descriptors
        dsimp only
        rw [none]
        refine Finset.sum_congr rfl fun fd _ => ?_
        rw [Option.or_none]

theorem fork_fit (fit : Fit os) (live : (os.procs os.cur).state = .live) (memory : Bool) :
    wp (fork memory) (fun _ next => Fit next) Anyhow os := by
  have quiet := fit.ready.quiet
  refine fork_rule quiet.cached fit.ready.tables live ?_ ?_
  · intro next store icache procs ftable
    refine ⟨⟨quiet.outer store icache, ?_⟩, ?_⟩
    · unfold Kernel.refs
      rw [icache]
      exact fit.ready.tables.congr procs ftable
    · rw [store]
      exact fit.rooted
  · intro referred duplicated next store icache shift store' icache' _ tables
    have outcome := shift.outcome (by rw [store]; exact quiet.sound)
    have kept : Rooted duplicated.store.volume duplicated.store.sb.ninodes := by
      rw [shift.store, store]
      exact fit.rooted
    have after : Quiet duplicated :=
      { sound := outcome.sound
        cached := outcome.cached
        unlocked := by
          rw [outcome.locks]
          exact quiet.unlocked
        retained := kept.retained }
    refine ⟨⟨after.outer store' icache', ?_⟩, ?_⟩
    · have refs : next.refs = duplicated.refs := by
        unfold Kernel.refs
        rw [icache']
      rw [refs, outcome.refs]
      exact tables
    · rw [store']
      exact kept

end Descriptors

/-! ## Writing -/

/-- A round of `write` to a descriptor. -/
def writeRound (fd : Fin nofile) (src : List Byte) : KernelM Unit := do
  let os ← get
  match (os.procs os.cur).ofile fd with
  | none => return
  | some f =>
    if (os.ftable f).writable = true ∧ (os.ftable f).type = .inode then
      discard (filewriteChunk f src)
    else return

/-- An open file that is written to has an inode that exists and is not a
directory; `sys_open` opens directories for reading only. -/
def Kernel.Plain (os : Kernel) (fd : Fin nofile) : Prop :=
  ∀ f, (os.procs os.cur).ofile fd = some f →
    (os.store.dinode (os.inum (os.ftable f).ip)).type ≠ 0 ∧
    (os.store.dinode (os.inum (os.ftable f).ip)).type ≠ tDir

section Write

theorem File.advance_same (file : File) (r : Int) :
    (file.advance r).grip = file.grip ∧ (file.advance r).ref = file.ref ∧
      (file.advance r).type = file.type := by
  unfold File.advance
  split
  case isTrue => exact ⟨rfl, rfl, rfl⟩
  case isFalse => exact ⟨rfl, rfl, rfl⟩

/-- Only the offset of an open file is changed. -/
theorem Tables.advance {refs : Slot → Int} (tables : Tables os refs) (f : Fin nfile) (r : Int) :
    Tables (os.setFile f ((os.ftable f).advance r)) refs := by
  obtain ⟨grip, ref, type⟩ := File.advance_same (os.ftable f) r
  have same : update os.procs os.cur (os.procs os.cur) = os.procs := update_eq_self ..
  refine tables.change same.symm rfl ?_ ?_ ?_ (tables.ended os.cur)
  · rw [ref, type]
    exact tables.closed f
  · rw [grip]
  · rw [ref]

/-- A round of `filewrite` to an inode that is not a directory. -/
theorem filewriteChunk_plain {f : Fin nfile} (sound : Sound os.store)
    (cached : Cached os) (unlocked : ∀ ip, os.locks ip = none) (held : 0 < os.refs (os.ftable f).ip)
    (allocated : (os.store.dinode (os.inum (os.ftable f).ip)).type ≠ 0)
    (notDirectory : (os.store.dinode (os.inum (os.ftable f).ip)).type ≠ tDir) (src : List Byte) :
    wp (filewriteChunk f src) (fun r next => Outcome os.refs
        (os.setFile f ((os.ftable f).advance r)) next
        os.store.volume os.refs os.locks)
      Anyhow os := by
  have chunk := @filewriteChunk_rule os f src Anyhow (fun _ _ => True)
    sound cached unlocked held allocated fun _ => trivial
  refine wp_mono (chunk fun locked undone opened => ?_) (fun _ _ after => after.1) fun _ => id
  have copy := opened.copy undone.cached
  have number := undone.frame.inum _ held
  obtain ⟨nlink, same⟩ := undone.relinked.dinode (os.inum (os.ftable f).ip)
  have type : (locked.icache (os.ftable f).ip).dinode.type =
      (os.store.dinode (os.inum (os.ftable f).ip)).type := by
    rw [copy, number, same]
  by_cases device : (locked.icache (os.ftable f).ip).dinode.type = tDev
  · exact wp_mono (writei_device_spec undone.sound undone.cached opened
      device fun _ => trivial) (fun _ _ outcome => ⟨outcome, trivial⟩)
      fun _ => id
  · exact wp_mono (writei_file_spec undone.sound undone.cached opened
      device (by rw [type]; exact notDirectory) lenient_anyhow)
      (fun _ _ outcome => ⟨outcome, trivial⟩) fun _ => id

theorem writeRound_fit {fd : Fin nofile} (fit : Fit os) (plain : os.Plain fd) (src : List Byte) :
    wp (writeRound fd src) (fun _ next => Fit next) Anyhow os := by
  unfold writeRound
  simp only [wp_bind, wp_get]
  cases descriptor : (os.procs os.cur).ofile fd with
  | none => exact fit
  | some f =>
    dsimp only
    split
    case isFalse => exact fit
    case isTrue able =>
      have quiet := fit.ready.quiet
      obtain ⟨allocated, notDirectory⟩ := plain f descriptor
      have held := fit.ready.tables.ip_held able.2
      refine (wp_discard _).mpr (wp_mono (filewriteChunk_plain quiet.sound
        quiet.cached quiet.unlocked held allocated notDirectory src) ?_
        fun _ => id)
      intro r next outcome
      have kept : Rooted next.store.volume next.store.sb.ninodes := by
        rw [outcome.volume, outcome.frame.sb]
        exact fit.rooted
      refine ⟨⟨outcome.quiet_advance quiet, ?_⟩, kept⟩
      rw [outcome.refs]
      exact (fit.ready.tables.advance f r).congr outcome.frame.procs outcome.frame.ftable

end Write

/-! ## Runs -/

/-- What a process does next.  The loop of `exit` and its end are apart, since
they are different transactions; a `write` is one round of its loop. -/
inductive SystemCall
  | path (call : PathCall)
  | close (fd : Nat)
  | dup (fd : Nat)
  | write (fd : Fin nofile) (src : List Byte)
  | fork (memory : Bool)
  | exitFile (fd : Fin nofile)
  | exitEnd

namespace SystemCall

/-- The code. -/
def perform : SystemCall → KernelM Unit
  | path call => discard call.perform
  | close fd => discard (sysClose fd)
  | dup fd => discard (sysDup fd)
  | write fd src => writeRound fd src
  | fork memory => discard (Fs.fork memory)
  | exitFile fd => exitFiles [fd]
  | exitEnd => Fs.exitEnd

/-- What the code before it ensures. -/
def Possible (os : Kernel) : SystemCall → Prop
  | write fd _ => os.Plain fd
  | exitEnd => os.cur ≠ os.initproc ∧ ∀ fd, (os.procs os.cur).ofile fd = none
  | _ => True

instance decidablePossible (os : Kernel) : ∀ call, Decidable (Possible os call)
  | write _ _ => inferInstanceAs (Decidable (∀ _, _ → _ ∧ _))
  | exitEnd => inferInstanceAs (Decidable (_ ∧ ∀ _, _))
  | path _ | close _ | dup _ | fork _ | exitFile _ => isTrue trivial

/-- A live process makes a call, which returns. -/
def step (os : Kernel) (action : Fin nproc × SystemCall) : Option Kernel :=
  let os := { os with cur := action.1 }
  if (os.procs action.1).state = .live ∧ Possible os action.2 then
    match action.2.perform os with
    | .ok (_, next) => some next
    | .error _ => none
  else none

/-- The call does not remove the last link of an inode in use, and no link count
overflows. -/
def Safe (os : Kernel) (action : Fin nproc × SystemCall) : Prop :=
  match action.2 with
  | path call => call.Safe { os with cur := action.1 }
  | _ => True

theorem fit {os : Kernel} (fit : Fit os)
    (live : (os.procs os.cur).state = .live) (call : SystemCall)
    (possible : Possible os call) (safe : ∀ calls, call = .path calls → calls.Safe os) :
    wp call.perform (fun _ next => Fit next) Anyhow os := by
  cases call with
  | path call => exact (wp_discard _).mpr (call.fit fit live (safe call rfl))
  | close fd => exact (wp_discard _).mpr (sysClose_fit fit fd)
  | dup fd => exact (wp_discard _).mpr (sysDup_fit fit live fd)
  | write fd src => exact writeRound_fit fit possible src
  | fork memory => exact (wp_discard _).mpr (fork_fit fit live memory)
  | exitFile fd => exact exitFiles_fit fit fd
  | exitEnd => exact exitEnd_fit fit live possible.2

theorem fit_step {os next : Kernel} {action : Fin nproc × SystemCall}
    (fit : Fit os) (safe : Safe os action) (taken : step os action = some next) : Fit next := by
  obtain ⟨able, taken⟩ := Option.ite_none_right_eq_some.mp taken
  split at taken
  case h_2 => cases taken
  case h_1 next returned =>
    cases taken
    refine (wp_of_ok returned).mp (action.2.fit (fit.switch action.1) able.1
      able.2 fun call same => ?_)
    unfold Safe at safe
    rw [same] at safe
    exact safe

end SystemCall

end Xv6.Fs
