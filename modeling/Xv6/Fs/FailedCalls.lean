import Xv6.Fs.Boot
import Xv6.Fs.Opening

/-!
# Calls that fail

A call on paths that returns -1 leaves the files, the open files, the processes
and all reference counts as they were, with one exception: `sys_open` keeps the
file that it has made.
-/

namespace Xv6.Fs

open Foundation.Program Foundation.Transition

/-- The calls of `sysfile.c` on paths. -/
inductive PathCall
  | openPath (path : StringArgument) (omode : Nat)
  | link (old new : StringArgument)
  | unlink (path : StringArgument)
  | mkdir (path : StringArgument)
  | mknod (path : StringArgument) (major minor : BitVec 32)
  | chdir (path : StringArgument)

namespace PathCall

/-- The code of the call. -/
def perform : PathCall → KernelM Int
  | openPath path omode => sysOpen path omode
  | link old new => sysLink old new
  | unlink path => sysUnlink path
  | mkdir path => sysMkdir path
  | mknod path major minor => sysMknod path major minor
  | chdir path => sysChdir path

/-- The call is an `open` that makes a file. -/
def Creates (os : Kernel) : PathCall → Prop
  | openPath path omode => omode.testBit 9 = true ∧
      ∃ name, argstr path = some name ∧ os.Creates os.refs name
  | _ => False

/-- The call, if it returns. -/
def step (os : Kernel) (call : PathCall) : Option Kernel :=
  match call.perform os with
  | .ok (_, next) => some next
  | .error _ => none

end PathCall

/-- The files, the processes and all reference counts are the same. -/
structure Unchanged (os next : Kernel) : Prop where
  file : next.store.file = os.store.file
  procs : next.procs = os.procs
  ftable : ∀ f, (next.ftable f).ref = (os.ftable f).ref
  refs : next.refs = os.refs

section Failed

variable {os next : Kernel} {stops : Stop → Prop}

theorem file_isSome {store : Store} {inum : Nat} :
    (store.file inum).isSome = (store.volume inum).isSome := by
  unfold Store.file Store.volume Dinode.node?
  by_cases inside : inum < store.sb.ninodes
  · by_cases allocated : (store.dinode inum).type = 0
    · rw [if_neg fun both => both.2 allocated, if_pos inside, if_pos allocated]
      rfl
    · rw [if_pos ⟨inside, allocated⟩, if_pos inside, if_neg allocated]
      rfl
  · rw [if_neg fun both => inside both.1, if_neg inside]
    rfl

theorem Undone.unchanged (undone : Undone os.refs os next os.refs os.locks)
    (sound : Sound os.store) : Unchanged os next where
  file := undone.relinked.file_eq sound undone.volume
  procs := undone.frame.procs
  ftable := fun f => by rw [undone.frame.ftable]
  refs := undone.refs

/-- Every reason to stop, for specifications of calls that return. -/
def Anyhow (_ : Stop) : Prop :=
  True

theorem lenient_anyhow : Lenient Anyhow :=
  ⟨trivial, trivial, trivial, trivial, trivial⟩

/-! ### Strings that cannot be read -/

section Strings

variable {argument old new : StringArgument} {omode : Nat} {type major minor : BitVec 16}

theorem sysOpen_of_none (string : argstr argument = none) : sysOpen argument omode = pure (-1) := by
  unfold sysOpen
  rw [string]

theorem sysLink_of_none (string : argstr old = none ∨ argstr new = none) :
    sysLink old new = pure (-1) := by
  unfold sysLink
  rcases string with string | string
  · rw [string]
  · rw [string]
    cases argstr old <;> rfl

theorem sysUnlink_of_none (string : argstr argument = none) : sysUnlink argument = pure (-1) := by
  unfold sysUnlink
  rw [string]

theorem makeNode_of_none (string : argstr argument = none) :
    makeNode argument type major minor = (do
      onStore beginOp
      onStore endOp
      return -1) := by
  unfold makeNode
  rw [string]

theorem sysChdir_of_none (string : argstr argument = none) :
    sysChdir argument = (do
      onStore beginOp
      onStore endOp
      return -1) := by
  unfold sysChdir
  rw [string]

end Strings

variable {post : Int → Kernel → Prop}

/-- A call with nothing to do after `begin_op` is undone by `end_op`. -/
theorem beginOp_endOp (quiet : Quiet os) (asleep : stops .asleep)
    (failed : ∀ next, Undone os.refs os next os.refs os.locks → post (-1) next) :
    wp (do onStore beginOp; onStore endOp; return -1) post stops os := by
  refine wp_bind_of (beginOp_spec quiet.sound quiet.cached fun _ => asleep) ?_
  intro _ begun begins
  have first := begins os.refs
  exact endOp_undone first (first.toOutcome.retained quiet.retained)
    fun next undone _ => failed next undone

theorem makeNode_failed {argument : StringArgument} {type major minor : BitVec 16}
    (quiet : Quiet os) (current : 0 < os.refs os.cwd) (typed : type ≠ 0) (notFile : type ≠ tFile)
    (failed : ∀ next, Undone os.refs os next os.refs os.locks → post (-1) next)
    (made : ∀ next, post 0 next) : wp (makeNode argument type major minor) post Anyhow os := by
  cases string : argstr argument with
  | none =>
    rw [makeNode_of_none string]
    exact beginOp_endOp quiet trivial failed
  | some path =>
    exact makeNode_spec quiet current string typed notFile lenient_anyhow
      trivial trivial (fun _ _ _ => trivial)
      (fun _ _ _ _ _ _ _ _ _ => trivial) (fun next undone _ =>
        failed next undone)
      fun _ _ _ _ next _ _ _ _ _ _ => made next

/-- A call that fails changes nothing unless it made a file. -/
theorem PathCall.perform_spec (quiet : Quiet os)
    (current : 0 < os.refs os.cwd) (closed : Closed os) (call : PathCall) :
    wp call.perform (fun result next => result = -1 →
        (Unchanged os next ↔ ¬ call.Creates os))
      Anyhow os := by
  have same : ∀ next, ¬ call.Creates os →
      Undone os.refs os next os.refs os.locks →
      ((-1 : Int) = -1 → (Unchanged os next ↔ ¬ call.Creates os)) :=
    fun next none undone _ =>
      iff_of_true (undone.unchanged quiet.sound) none
  have returned : ∀ (next : Kernel), (0 : Int) = -1 →
      (Unchanged os next ↔ ¬ call.Creates os) :=
    fun _ impossible => absurd impossible (by decide)
  have anyhow : ∀ reason, Anyhow reason := fun _ => trivial
  cases call with
  | openPath argument omode =>
    cases string : argstr argument with
    | none =>
      change wp (sysOpen argument omode) _ _ _
      rw [sysOpen_of_none string]
      refine same os ?_ ⟨.refl _ quiet.sound quiet.cached, .of_blocks rfl rfl⟩
      rintro ⟨_, name, found, _⟩
      rw [string] at found
      cases found
    | some path =>
      refine sysOpen_spec quiet current closed string lenient_anyhow
        (anyhow _) (anyhow _) (fun _ _ _ => anyhow _)
        (fun _ _ _ _ _ => anyhow _)
        (fun _ _ _ _ _ _ _ _ _ _ => anyhow _) ?_ ?_ ?_
      · intro next old undone _
        refine same next ?_ undone
        rintro ⟨creating, name, found, creates⟩
        cases string.symm.trans found
        exact old creating creates
      · intro d dir name i next creating creatable unused _ _ outcome _ _
        refine iff_of_false (fun unchanged => ?_) fun none => none
          ⟨creating, path, string, d, dir, name, creatable⟩
        -- the inode that was made is still there
        have apart : i ≠ d := by
          rintro rfl
          rw [creatable.present] at unused
          cases unused
        have gone : (os.store.file i).isSome = false := by
          rw [file_isSome, unused]
          rfl
        rw [← unchanged.file, file_isSome, outcome.volume,
          Volume.release_of_ne apart, Volume.created,
          Function.update_of_ne apart, Function.update_self] at gone
        cases gone
      · intro _ _ _ _ fd _ _ _ _ _ _ _ impossible
        exact absurd impossible (by omega)
  | link old new =>
    cases oldString : argstr old with
    | none =>
      change wp (sysLink old new) _ _ _
      rw [sysLink_of_none (.inl oldString)]
      exact same os id ⟨.refl _ quiet.sound quiet.cached, .of_blocks rfl rfl⟩
    | some oldPath =>
      cases newString : argstr new with
      | none =>
        change wp (sysLink old new) _ _ _
        rw [sysLink_of_none (.inr newString)]
        exact same os id ⟨.refl _ quiet.sound quiet.cached, .of_blocks rfl rfl⟩
      | some newPath =>
        exact sysLink_spec quiet current oldString newString
          lenient_anyhow (anyhow _) (anyhow _) (fun _ _ _ => anyhow _)
          (fun _ _ _ _ => anyhow _) (fun _ _ _ _ _ _ => anyhow _)
          (fun _ _ _ _ _ _ _ _ _ _ => anyhow _)
          (fun next undone _ => same next id undone)
          fun _ _ _ _ _ next _ _ _ _ _ _ _ => returned next
  | unlink argument =>
    cases string : argstr argument with
    | none =>
      change wp (sysUnlink argument) _ _ _
      rw [sysUnlink_of_none string]
      exact same os id ⟨.refl _ quiet.sound quiet.cached, .of_blocks rfl rfl⟩
    | some path =>
      exact sysUnlink_spec quiet current string lenient_anyhow (anyhow _)
        (anyhow _) (fun _ _ _ => anyhow _) (fun _ _ _ _ => anyhow _)
        (fun _ _ _ _ _ _ => anyhow _) (fun _ _ _ _ _ _ _ _ => anyhow _)
        (fun next undone _ => same next id undone)
        fun _ _ _ _ _ next _ _ _ _ _ _ _ => returned next
  | mkdir argument =>
    exact makeNode_failed quiet current (by decide) (by decide) (fun next => same next id) returned
  | mknod argument major minor =>
    exact makeNode_failed quiet current (by decide) (by decide) (fun next => same next id) returned
  | chdir argument =>
    cases string : argstr argument with
    | none =>
      change wp (sysChdir argument) _ _ _
      rw [sysChdir_of_none string]
      exact beginOp_endOp quiet (anyhow _) fun next => same next id
    | some path =>
      exact sysChdir_spec quiet current string lenient_anyhow (anyhow _)
        (fun _ _ _ => anyhow _) (fun _ _ _ _ => anyhow _)
        (fun next undone _ => same next id undone)
        fun _ _ _ _ next _ _ _ _ _ _ _ => returned _

/-- A call that returns -1 has changed nothing exactly if it is not an `open`
that has made a file. -/
theorem unchanged_iff {call : PathCall} (quiet : Quiet os)
    (current : 0 < os.refs os.cwd) (closed : Closed os)
    (returned : call.perform os = .ok (-1, next)) : Unchanged os next ↔ ¬ call.Creates os :=
  (wp_of_ok returned).mp (call.perform_spec quiet current closed) rfl

end Failed

section Boot

variable {store : Store} {devsw : Nat → Option Driver}

/-- The state in which the first process starts is quiet. -/
theorem boot_quiet (sound : Sound store)
    (linked : ∀ inum node, store.volume inum = some node → node.nlink ≠ 0) :
    Quiet (boot store devsw) where
  sound := sound
  cached := boot_cached sound.valid
  unlocked := boot_locks
  retained := fun inum node present unlinked =>
    absurd unlinked (linked inum node present)

theorem boot_current : 0 < (boot store devsw).refs (boot store devsw).cwd := by
  have root : (boot store devsw).cwd = 0 := rfl
  rw [boot_refs, root, Pi.single_eq_same]
  exact one_pos

theorem boot_closed : Closed (boot store devsw) :=
  fun _ _ => rfl

end Boot

/-- The links of allocated inodes are those on the disk. -/
theorem linked_of_dinodes {store : Store}
    (checked : ∀ inum < store.sb.ninodes, (store.dinode inum).type ≠ 0 →
      (store.dinode inum).nlink ≠ 0)
    (inum : Nat) (node : Node)
    (present : store.volume inum = some node) : node.nlink ≠ 0 := by
  obtain ⟨inside, allocated, rfl⟩ := volume_eq_some.mp present
  exact checked inum inside allocated

theorem quiet_emptyStore : Quiet (boot emptyStore fun _ => none) :=
  boot_quiet (sound_iff.mpr ⟨checked_emptyStore.1.wellFormed, checked_emptyStore.2⟩)
    (linked_of_dinodes (by decide +kernel))

theorem unchanged_missingName : ∃ next, (PathCall.unlink (some [slash, 0x61])).perform
          (boot emptyStore fun _ => none) = .ok (-1, next) ∧
        Unchanged (boot emptyStore fun _ => none) next := by
  have seen : (match (PathCall.unlink (some [slash, 0x61])).perform
      (boot emptyStore fun _ => none) with
      | .ok (result, _) => decide (result = -1)
      | .error _ => false) = true := by
    decide +kernel
  split at seen
  case h_1 result next returned =>
    rw [of_decide_eq_true seen] at returned
    exact ⟨next, returned, (unchanged_iff quiet_emptyStore boot_current
      boot_closed returned).mpr id⟩
  case h_2 => cases seen

/-- All descriptors are in use, and `open` makes a file that it then cannot
open. -/
def fullTable : List PathCall :=
  List.replicate nofile (.openPath (some [slash]) 0)

theorem changed_fullTable : ∃ os next,
      run PathCall.step (boot emptyStore fun _ => none) fullTable = some os ∧
      (PathCall.openPath (some [slash, 0x61]) 0x202).perform os = .ok (-1, next) ∧
      ¬ Unchanged os next := by
  have seen : ((run PathCall.step (boot emptyStore fun _ => none)
      fullTable).map fun os =>
        match (PathCall.openPath (some [slash, 0x61]) 0x202).perform os with
        | .ok (result, next) => decide (result = -1 ∧ (os.store.file 2).isSome = false ∧
            (next.store.file 2).isSome = true)
        | .error _ => false) = some true := by
    decide +kernel
  obtain ⟨os, ended, same⟩ := Option.map_eq_some_iff.mp seen
  split at same
  case h_1 result next returned =>
    obtain ⟨failed, before, after⟩ := of_decide_eq_true same
    rw [failed] at returned
    refine ⟨os, next, ended, returned, fun unchanged => ?_⟩
    rw [unchanged.file, before] at after
    cases after
  case h_2 => cases same

end Xv6.Fs
