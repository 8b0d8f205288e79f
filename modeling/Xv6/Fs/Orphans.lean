import Xv6.Fs.Sessions
import Xv6.Log.CrashAtomicity

/-!
# Inodes that a crash leaves behind

Every call on paths, every `close`, every round of `write` and every file that
`exit` closes is one transaction.  Wherever a crash stops its commit, recovery
leaves the disk as it was before the call or as it is after it.  An inode that
has lost its last link while it was in use is then allocated for ever.
-/

namespace Xv6.Fs

open Foundation.Tally Foundation.Transition
open SystemCall (fit_step step)

section Boot

variable {store : Store} {devsw : Nat → Option Driver}

theorem boot_grip (p : Fin nproc) :
    ((boot store devsw).procs p).grip = if p = 0 then Pi.single 0 1 else 0 := by
  unfold boot
  dsimp only
  rw [Function.update_apply]
  split
  case isTrue => rfl
  case isFalse => rfl

theorem boot_ofile (p : Fin nproc) : ((boot store devsw).procs p).ofile = fun _ => none := by
  unfold boot
  dsimp only
  rw [Function.update_apply]
  split
  case isTrue => rfl
  case isFalse => rfl

/-- The accounts when the first process starts. -/
theorem boot_tables : Tables (boot store devsw) (boot store devsw).refs where
  closed := boot_closed
  grips := by
    have files : ∑ f, ((boot store devsw).ftable f).grip = 0 := Finset.sum_eq_zero fun f _ => rfl
    rw [files, add_zero, boot_refs]
    simp only [boot_grip, Finset.sum_ite_eq', Finset.mem_univ, if_true]
  counts := by
    intro f
    have none : ∀ p, ((boot store devsw).procs p).descriptors = 0 := by
      intro p
      unfold Proc.descriptors
      rw [boot_ofile]
      exact Finset.sum_eq_zero fun fd _ => rfl
    simp only [none, Finset.sum_const_zero]
    rfl
  ended := fun p _ => boot_ofile p

theorem boot_fit (sound : Sound store) (rooted : Rooted store.volume store.sb.ninodes) :
    Fit (boot store devsw) where
  ready := ⟨boot_quiet sound fun _ _ present => rooted.linked present, boot_tables⟩
  rooted := rooted

theorem fit_of_run {calls : List (Fin nproc × SystemCall)} {final : Kernel}
    (sound : Sound store) (rooted : Rooted store.volume store.sb.ninodes)
    (safe : Along step SystemCall.Safe (boot store devsw) calls)
    (ended : run step (boot store devsw) calls = some final) : Fit final :=
  run_invariant_along Fit (fun _ _ _ fit isSafe taken => fit_step fit isSafe taken)
    (boot_fit sound rooted) safe ended

end Boot

/-- No allocated inode is lost: each can be reached from the root and has
links. -/
def Store.Kept (store : Store) : Prop :=
  ∀ inum < store.sb.ninodes, (store.dinode inum).type ≠ 0 →
    Reachable store.volume inum ∧ (store.dinode inum).nlink ≠ 0

theorem Fit.kept {os : Kernel} (fit : Fit os) : os.store.Kept := by
  intro inum inside allocated
  have present := volume_eq_some.mpr ⟨inside, allocated, rfl⟩
  exact ⟨(fit.rooted.descends present).reachable, fit.rooted.linked present⟩

/-- The part of the disk that holds the log. -/
def Superblock.log (sb : Superblock) : Log.Area :=
  ⟨sb.logstart, sb.nlog⟩

/-- What is lost can be seen in the blocks of the file system. -/
theorem Store.Kept.congr {store next : Store} (kept : store.Kept) (sound : Sound store)
    (sb : next.sb = store.sb) (bitmap : store.sb.bmapstart ≤ store.sb.size)
    (same : ∀ number < store.sb.size, store.sb.inodestart ≤ number →
      next.blocks number = store.blocks number) : next.Kept := by
  have dinode : ∀ inum < store.sb.ninodes, next.dinode inum = store.dinode inum := by
    intro inum inside
    unfold Store.dinode
    rw [sb, same _ ((sound.valid.inodes inum inside).trans_le bitmap) (Nat.le_add_left _ _)]
  have vol : next.volume = store.volume := by
    funext inum
    unfold Store.volume
    rw [sb]
    split
    case isFalse => rfl
    case isTrue inside =>
      rw [dinode inum inside]
      unfold Dinode.node?
      split
      case isTrue => rfl
      case isFalse allocated =>
        unfold Dinode.node
        rw [(contents_congr fun pos within mapped => ?_).2]
        obtain ⟨data, small⟩ := sound.balanced.data
          ((sound.tracked inside allocated).owned within mapped)
        have high := sound.valid.bitmap _ small
        have low := store.sb.bblock_ge (reference store.blocks (store.dinode inum) pos).toNat
        have first : store.sb.inodestart ≤ store.sb.iblock inum := Nat.le_add_left _ _
        have last := sound.valid.inodes inum inside
        unfold Superblock.dataStart at data
        exact same _ small (by omega)
  intro inum inside allocated
  rw [sb] at inside
  rw [dinode inum inside] at allocated ⊢
  rw [vol]
  exact kept inum inside allocated

/-- After every such run children of directories are allocated, link counts are
right, inodes can be reached, and references are accounted for. -/
theorem rooted_of_run {store : Store} {devsw : Nat → Option Driver}
    {calls : List (Fin nproc × SystemCall)} {final : Kernel}
    (sound : Sound store) (rooted : Rooted store.volume store.sb.ninodes)
    (safe : Along step SystemCall.Safe (boot store devsw) calls)
    (ended : run step (boot store devsw) calls = some final) :
    Rooted final.store.volume final.store.sb.ninodes ∧ Tables final final.refs := by
  have fit := fit_of_run sound rooted safe ended
  exact ⟨fit.rooted, fit.ready.tables⟩

/-! ## The small disk -/

/-- A volume that has nothing but an empty root directory. -/
theorem Rooted.of_empty {vol : Volume} {n : Nat} {node : Node}
    (small : n ≤ 2 ^ 16) (inside : rootino < n) (present : vol rootino = some node)
    (only : ∀ i, i ≠ rootino → vol i = none) (type : node.type = tDir)
    (nlink : node.nlink = 1) (dotted : Dotted node.entries)
    (empty : children node.entries = []) : Rooted vol n := by
  have root : ∀ {i other}, vol i = some other → i = rootino ∧ other = node := by
    intro i other there
    by_cases same : i = rootino
    · subst same
      rw [present] at there
      exact ⟨rfl, (Option.some.inj there).symm⟩
    · rw [only i same] at there
      cases there
  have none : ∀ i, vol.referrers n i = 0 := by
    intro i
    refine Finset.sum_eq_zero fun d _ => ?_
    cases there : vol d with
    | none => rfl
    | some other =>
      obtain ⟨-, rfl⟩ := root there
      change Node.refers other i = 0
      unfold Node.refers
      rw [empty]
      rfl
  refine
    { small := small
      inside := fun there => ?_
      dotted := fun there _ => ?_
      plain := fun there other => ?_
      absent := fun _ _ => none _
      root := ?_
      top := none _
      links := fun there => ?_
      linked := fun there => ?_
      descends := fun there => ?_ }
  · rw [(root there).1]
    exact ⟨by decide, inside⟩
  · rw [(root there).2]
    exact dotted
  · rw [(root there).2] at other
    exact absurd type other
  · unfold Volume.isDirectory
    rw [present]
    exact decide_eq_true type
  · obtain ⟨rfl, rfl⟩ := root there
    rw [none, nlink, if_pos rfl]
    unfold Volume.subdirectories
    rw [empty]
    rfl
  · rw [(root there).2, nlink]
    decide
  · rw [(root there).1]
    exact .root

theorem rooted_emptyStore : Rooted emptyStore.volume emptyStore.sb.ninodes := by
  have only : ∀ inum < emptyStore.sb.ninodes, inum ≠ rootino →
      (emptyStore.dinode inum).type = 0 := by
    decide +kernel
  have root : rootino < emptyStore.sb.ninodes ∧ (emptyStore.dinode rootino).type = tDir ∧
      (emptyStore.dinode rootino).nlink = 1 := by
    decide +kernel
  have entries : ((emptyStore.dinode rootino).node emptyStore.blocks).entries =
      [linkEntry dot rootino, linkEntry dotdot rootino] := by
    decide +kernel
  obtain ⟨inside, type, nlink⟩ := root
  refine Rooted.of_empty (by decide) inside (volume_eq_some.mpr
    ⟨inside, by rw [type]; decide, rfl⟩) (fun i other => ?_) type nlink ?_ ?_
  · cases there : emptyStore.volume i with
    | none => rfl
    | some node =>
      obtain ⟨within, allocated, -⟩ := volume_eq_some.mp there
      exact absurd (only i within other) allocated
  · rw [entries]
    exact ⟨⟨_, rfl, by decide⟩, ⟨_, rfl, by decide⟩⟩
  · rw [entries]
    rfl

theorem sound_emptyStore : Sound emptyStore :=
  sound_iff.mpr ⟨checked_emptyStore.1.wellFormed, checked_emptyStore.2⟩

/-- The inode that `sys_unlink` finds. -/
def Kernel.unlinks (os : Kernel) (path : List Byte) : Option Nat :=
  match os.walk os.refs path true with
  | .ok (some (d, name)) => (os.store.volume d).bind fun dir =>
      (lookup dir.entries name).map Prod.fst
  | _ => none

theorem Unlinkable.unlinks {os : Kernel} {path : List Byte} {d i index : Nat} {dir : Node}
    (unlinkable : Unlinkable os path d dir i index) : os.unlinks path = some i := by
  obtain ⟨⟨name, walked, -, -, found⟩, present, -⟩ := unlinkable
  simp [Kernel.unlinks, walked, present, found]

/-- A test that shows a call to be safe. -/
def SystemCall.passes (os : Kernel) (action : Fin nproc × SystemCall) : Bool :=
  let os : Kernel := { os with cur := action.1 }
  match action.2 with
  | .path (.unlink argument) => decide (∀ name ∈ argstr argument, ∀ i ∈ os.unlinks name,
      ∀ node ∈ os.store.volume i, node.nlink = 1 → i ∉ os.used os.refs)
  | .path _ => decide (∀ i < os.store.sb.ninodes, (os.store.dinode i).nlink + 1 ≠ 0)
  | _ => true

theorem SystemCall.safe_of_passes {os : Kernel} {action : Fin nproc × SystemCall}
    (passed : passes os action = true) : Safe os action := by
  have counts : ∀ {os : Kernel} {i node}, (∀ i < os.store.sb.ninodes,
      (os.store.dinode i).nlink + 1 ≠ 0) → os.store.volume i = some node → node.nlink + 1 ≠ 0 := by
    intro os i node all present
    obtain ⟨inside, -, rfl⟩ := volume_eq_some.mp present
    exact all i inside
  obtain ⟨p, call⟩ := action
  cases call with
  | path call =>
    cases call with
    | unlink path =>
      intro name d dir i index node string unlinkable present
      exact of_decide_eq_true passed name string i unlinkable.unlinks node present
    | link old new =>
      intro name i node _ linkable
      exact counts (of_decide_eq_true passed) linkable.present
    | mkdir path =>
      intro name d dir last _ creatable
      exact counts (of_decide_eq_true passed) creatable.present
    | _ => trivial
  | _ => trivial

/-- A file is made, a child links it under a second name, and a directory is
made. -/
def makingRun : List (Fin nproc × SystemCall) :=
  [(0, .path (.openPath (some [slash, 0x61]) 0x202)), (0, .dup 0), (0, .fork true), (0, .close 0),
    (1, .path (.link (some [slash, 0x61]) (some [slash, 0x62]))),
    (0, .path (.mkdir (some [slash, 0x64])))]

/-- The child removes the first name while the file is open. -/
def removal : Fin nproc × SystemCall :=
  (1, .path (.unlink (some [slash, 0x61])))

theorem safe_makingRun : Along step SystemCall.Safe (boot emptyStore fun _ => none)
    (makingRun ++ [removal]) := by
  have passed : Along step (fun os action => SystemCall.passes os action = true)
      (boot emptyStore fun _ => none) (makingRun ++ [removal]) := by
    decide +kernel
  exact passed.mono fun _ _ => SystemCall.safe_of_passes

theorem rooted_makingRun : ∃ final, run step (boot emptyStore fun _ => none)
        (makingRun ++ [removal]) = some final ∧
      Rooted final.store.volume final.store.sb.ninodes := by
  have seen : (run step (boot emptyStore fun _ => none) (makingRun ++ [removal])).isSome = true := by
    decide +kernel
  obtain ⟨final, ended⟩ := Option.isSome_iff_exists.mp seen
  exact ⟨final, ended, (rooted_of_run sound_emptyStore rooted_emptyStore safe_makingRun ended).1⟩

end Xv6.Fs
