import Xv6.Fs.Boot
import Xv6.Fs.Quiet

/-!
# Block accounting

Sequences of operations on inodes keep the disk well formed, provided that
directories consist of whole entries for inodes that exist.
-/

namespace Xv6.Fs

open Foundation.Program
open Foundation.Transition (run run_invariant)

/-- The operations of `fs.c` and `create`, with those that are needed around
them.  `switch` lets another process run. -/
inductive Operation
  | beginOp
  | endOp
  | switch (proc : Fin nproc)
  | iget (inum : Nat)
  | idup (ip : Slot)
  | ilock (ip : Slot)
  | iunlock (ip : Slot)
  | readi (ip : Slot) (off n : Nat)
  | writei (ip : Slot) (src : List Byte) (off : Nat)
  | dirlink (dp : Slot) (name : List Byte) (inum : Nat)
  | create (path : List Byte) (type major minor : BitVec 16)
  | iput (ip : Slot)
  | itrunc (ip : Slot)

/-- Carry an operation out. -/
def perform : Operation → KernelM Unit
  | .beginOp => onStore beginOp
  | .endOp => onStore endOp
  | .switch proc => modify fun os => { os with cur := proc }
  | .iget inum => discard (iget rootdev inum)
  | .idup ip => discard (idup ip)
  | .ilock ip => ilock ip
  | .iunlock ip => iunlock ip
  | .readi ip off n => discard (readi ip off n)
  | .writei ip src off => discard (writei ip src off)
  | .dirlink dp name inum => discard (dirlink dp name inum)
  | .create path type major minor => discard (create path type major minor)
  | .iput ip => iput ip
  | .itrunc ip => itrunc ip

instance (os : Kernel) (ip : Slot) : Decidable (Open os ip) :=
  decidable_of_iff (0 < os.refs ip ∧ (os.icache ip).valid = true)
    ⟨fun both => ⟨both.1, both.2⟩, fun opened => ⟨opened.held, opened.valid⟩⟩

/-- The first `count` directory entries in a sequence of bytes. -/
def entriesOf : Nat → List Byte → List Dirent
  | 0, _ => []
  | count + 1, src => .ofBytes (src.take direntSize) :: entriesOf count (src.drop direntSize)

/-- The bytes are whole entries for inodes that exist, and are stored in the
place of entries. -/
def EntriesAt (ninodes : Nat) (src : List Byte) (off : Nat) : Prop :=
  off % direntSize = 0 ∧ src.length % direntSize = 0 ∧
    ∀ dirent ∈ entriesOf (src.length / direntSize) src, dirent.inum.toNat < ninodes

instance (ninodes : Nat) (src : List Byte) (off : Nat) : Decidable (EntriesAt ninodes src off) :=
  inferInstanceAs (Decidable (_ ∧ _ ∧ _))

/-- The operation is called as the kernel calls it: on inodes that exist, that
are referred to, and that were locked once if their fields are used.  To
directories only entries are written. -/
def Callable (os : Kernel) : Operation → Prop
  | .beginOp | .endOp | .switch _ => True
  | .iget inum => inum < os.store.sb.ninodes
  | .idup ip | .ilock ip | .iunlock ip | .iput ip => 0 < os.refs ip
  | .readi ip _ _ | .itrunc ip => Open os ip
  | .writei ip src off => Open os ip ∧
      ((os.icache ip).dinode.type = tDir → EntriesAt os.store.sb.ninodes src off)
  | .dirlink dp _ inum => Open os dp ∧ inum < os.store.sb.ninodes
  | .create path type _ _ => type ≠ 0 ∧ (path.head? ≠ some slash → 0 < os.refs os.cwd)

instance (os : Kernel) (operation : Operation) : Decidable (Callable os operation) := by
  cases operation <;> unfold Callable <;> infer_instance

/-- Complete an operation that is called as the kernel calls it. -/
def complete (os : Kernel) (operation : Operation) : Option Kernel :=
  if Callable os operation then
    match perform operation os with
    | .ok (_, next) => some next
    | .error _ => none
  else none

section Step

variable {os : Kernel} {stops : Stop → Prop}

theorem toBytes_ofBytes {bytes : List Byte} (whole : bytes.length = direntSize) :
    (Dirent.ofBytes bytes).toBytes = bytes ∧ (Dirent.ofBytes bytes).Padded := by
  match bytes with
  | low :: high :: name =>
    have lower : (high ++ low).extractLsb' 0 8 = low := by
      rw [BitVec.extractLsb'_append_eq_right]
    have upper : (high ++ low).extractLsb' 8 8 = high := by
      rw [BitVec.extractLsb'_append_eq_left]
    refine ⟨?_, ?_⟩
    · change (high ++ low).extractLsb' 0 8 :: (high ++ low).extractLsb' 8 8 :: name = _
      rw [lower, upper]
    · exact Nat.succ.inj (Nat.succ.inj whole)
  | [_] => cases whole
  | [] => cases whole

/-- Bytes of whole entries are the bytes of the entries in them. -/
theorem flatMap_entriesOf
    {count : Nat} {src : List Byte} (whole : src.length = direntSize * count) :
    (entriesOf count src).flatMap Dirent.toBytes = src ∧
      ∀ dirent ∈ entriesOf count src, dirent.Padded := by
  induction count generalizing src with
  | zero =>
    rw [List.length_eq_zero_iff.mp whole]
    exact ⟨rfl, nofun⟩
  | succ count ih =>
    have first : (src.take direntSize).length = direntSize := by
      rw [List.length_take, whole]
      simp only [direntSize]
      omega
    have rest := @ih (src.drop direntSize) (by
      rw [List.length_drop, whole, Nat.mul_succ, Nat.add_sub_cancel])
    obtain ⟨same, padded⟩ := toBytes_ofBytes first
    refine ⟨?_, ?_⟩
    · rw [entriesOf, List.flatMap_cons, same, rest.1, List.take_append_drop]
    · exact List.forall_mem_cons.mpr ⟨padded, rest.2⟩

/-- The stops that do not tell of a block freed twice. -/
def NotFreedTwice (reason : Stop) : Prop :=
  reason ≠ .panic "freeing free block"

instance : DecidablePred NotFreedTwice :=
  fun reason => inferInstanceAs (Decidable (reason ≠ _))

theorem notFreedTwice_lenient : Lenient NotFreedTwice := by
  constructor <;> (unfold NotFreedTwice; decide)

theorem notFreedTwice_waits (ip : Slot) : Waits NotFreedTwice os ip := by
  intro holder _
  split
  · exact nofun
  · exact nofun

/-- What operations preserve. -/
def Consistent (os : Kernel) : Prop :=
  Sound os.store ∧ Cached os

variable {locks : Slot → Option Nat} {base refs : Slot → Int} {next : Kernel}

theorem Outcome.consistent {volume : Volume}
    (outcome : Outcome base os next volume refs locks) : Consistent next :=
  ⟨outcome.sound, outcome.cached⟩

theorem Shift.consistent
    (shift : Shift base os next refs locks) (sound : Sound os.store) : Consistent next :=
  (shift.outcome sound).consistent

theorem Visit.consistent (visit : Visit base os next refs locks) : Consistent next :=
  ⟨visit.sound, visit.cached⟩

theorem writei_consistent {ip : Slot} {src : List Byte} {off : Nat}
    (consistent : Consistent os) (opened : Open os ip)
    (entries : (os.icache ip).dinode.type = tDir → EntriesAt os.store.sb.ninodes src off) :
    wp (writei ip src off) (fun _ next => Consistent next) NotFreedTwice os := by
  obtain ⟨sound, cached⟩ := consistent
  by_cases device : (os.icache ip).dinode.type = tDev
  · refine wp_mono (writei_device_spec sound cached opened device ?_)
      (fun _ next outcome => outcome.consistent) fun _ => id
    exact fun _ => nofun
  by_cases dir : (os.icache ip).dinode.type = tDir
  · obtain ⟨aligned, whole, within⟩ := entries dir
    obtain ⟨same, padded⟩ := @flatMap_entriesOf (src.length / direntSize) src (by
      simp only [direntSize] at whole ⊢
      omega)
    have start : off = direntSize * (off / direntSize) := by
      simp only [direntSize] at aligned ⊢
      omega
    rw [← same, start]
    refine wp_mono (writei_dirents_spec sound cached ⟨opened, dir⟩ padded
      within notFreedTwice_lenient) ?_ fun _ => id
    rintro result next (⟨-, rfl⟩ | ⟨-, -, outcome⟩)
    · exact ⟨sound, cached⟩
    · exact outcome.consistent
  · exact wp_mono (writei_file_spec sound cached opened device dir
      notFreedTwice_lenient) (fun _ next outcome => outcome.consistent)
      fun _ => id

/-- `dirlink`, which stops if the inode is not a directory. -/
theorem dirlink_consistent {dp : Slot} {name : List Byte} {inum : Nat}
    (consistent : Consistent os) (opened : Open os dp) (inside : inum < os.store.sb.ninodes) :
    wp (dirlink dp name inum) (fun _ next => Consistent next) NotFreedTwice os := by
  obtain ⟨sound, cached⟩ := consistent
  by_cases dir : (os.icache dp).dinode.type = tDir
  · refine dirlink_spec sound cached opened (opened.volume cached) dir
      inside notFreedTwice_lenient (by decide)
      (fun jp _ _ _ _ => notFreedTwice_waits jp) ?_ ?_
    · exact fun _ _ _ _ shift _ => shift.consistent sound
    · exact fun _ _ outcome => outcome.consistent
  · unfold dirlink dirlookup
    simp only [wp_bind, wp_getInode, wp_ite, wp_throw]
    exact ⟨fun _ => by decide, fun other => absurd dir other⟩

variable {operation : Operation}

/-- Every operation keeps the disk sound and the cache right, and frees no
block twice. -/
theorem perform_spec (consistent : Consistent os) (callable : Callable os operation) :
    wp (perform operation) (fun _ next => Consistent next) NotFreedTwice os := by
  obtain ⟨sound, cached⟩ := id consistent
  cases operation with
  | beginOp =>
    exact wp_mono (beginOp_spec sound cached fun _ => by decide)
      (fun _ next outcome => (outcome os.refs).toOutcome.consistent)
      fun _ => id
  | endOp =>
    exact wp_mono (endOp_spec sound cached)
      (fun _ next outcome => (outcome os.refs).toOutcome.consistent)
      fun _ => id
  | switch proc =>
    exact ⟨sound, ⟨cached.counted, cached.device, cached.inside, cached.unique, cached.agrees⟩⟩
  | iget inum =>
    refine (wp_discard _).mpr (wp_mono (iget_spec cached callable fun _ => by decide) ?_
      fun _ => id)
    exact fun _ next got => got.1.consistent sound
  | idup ip =>
    refine (wp_discard _).mpr (wp_mono (idup_spec cached callable) ?_ fun _ => id)
    exact fun _ next got => got.2.consistent sound
  | ilock ip =>
    refine wp_mono (ilock_spec cached callable (notFreedTwice_waits ip)
      fun _ => by decide) ?_ fun _ => id
    exact fun _ next got => got.1.consistent sound
  | iunlock ip =>
    by_cases locked : os.locks ip = some os.pid
    · exact wp_mono (iunlock_spec cached callable locked)
        (fun _ next shift => shift.consistent sound) fun _ => id
    · simp only [perform, iunlock, wp_bind, wp_get, wp_ite, wp_throw]
      exact ⟨fun _ => by decide, fun ours => absurd (.inl locked) ours⟩
  | readi ip off n =>
    refine (wp_discard _).mpr (wp_mono (readi_spec sound cached callable ?_) ?_ fun _ => id)
    · exact fun _ => by decide
    · exact fun _ next outcome => outcome.consistent
  | writei ip src off =>
    exact (wp_discard _).mpr (writei_consistent consistent callable.1 callable.2)
  | dirlink dp name inum =>
    exact (wp_discard _).mpr (dirlink_consistent consistent callable.1 callable.2)
  | create path type major minor =>
    refine (wp_discard _).mpr (create_spec sound cached rfl callable.2
      callable.1 notFreedTwice_waits notFreedTwice_lenient (by decide) ?_
      ?_ ?_ ?_ ?_)
    · rintro reason (rfl | rfl) _ <;> decide
    · exact fun _ _ _ _ _ _ _ => by decide
    · exact fun next visit => visit.consistent
    · exact fun _ next visit _ _ => visit.consistent
    · exact fun _ _ _ _ _ _ _ next _ _ _ _ _ _ _ _ _ _ _ outcome =>
        outcome.consistent
  | iput ip =>
    exact wp_mono (iput_spec sound cached callable (notFreedTwice_waits ip)
      fun _ => notFreedTwice_lenient) (fun _ next got => got.1.consistent)
      fun _ => id
  | itrunc ip =>
    exact wp_mono (itrunc_spec sound cached callable notFreedTwice_lenient)
      (fun _ next got => got.1.consistent) fun _ => id

theorem complete_consistent
    (consistent : Consistent os) (ended : complete os operation = some next) : Consistent next := by
  unfold complete at ended
  obtain ⟨callable, ended⟩ := Option.ite_none_right_eq_some.mp ended
  have ensured := perform_spec consistent callable
  unfold wp at ensured
  split at ended
  case h_1 result =>
    rw [result] at ensured
    cases ended
    exact ensured
  case h_2 => cases ended

end Step

/-- Completed operations keep the disk well formed, and no block can be freed
twice. -/
theorem wellFormed_of_run {os final : Kernel} {operations : List Operation}
    (wellFormed : WellFormed os.store) (entries : WholeEntries os.store)
    (cached : Cached os) (ended : run complete os operations = some final) :
    WellFormed final.store ∧ WholeEntries final.store ∧ Cached final ∧
      ∀ operation, Callable final operation →
        perform operation final ≠ .error (.panic "freeing free block") := by
  have consistent := run_invariant Consistent (fun _ _ _ => complete_consistent)
    ⟨sound_iff.mpr ⟨wellFormed, entries⟩, cached⟩ ended
  obtain ⟨formed, whole⟩ := sound_iff.mp consistent.1
  refine ⟨formed, whole, consistent.2, fun operation callable failed => ?_⟩
  have ensured := perform_spec consistent callable
  unfold wp at ensured
  rw [failed] at ensured
  exact ensured rfl

/-- A file is made, written, and truncated. -/
def writtenFile : List Operation :=
  [.beginOp, .create [slash, 0x61] tFile 0 0,
    .writei 1 (List.replicate 600 0x78) 0, .readi 1 0 600, .itrunc 1,
    .iunlock 1, .iput 1, .endOp]

theorem wellFormed_writtenFile : ∃ final, run complete (boot emptyStore fun _ => none) writtenFile =
        some final ∧
      WellFormed final.store ∧ WholeEntries final.store ∧ Cached final ∧
      ∀ operation, Callable final operation →
        perform operation final ≠ .error (.panic "freeing free block") := by
  have returns : (run complete (boot emptyStore fun _ => none) writtenFile).isSome = true := by
    decide +kernel
  obtain ⟨final, ended⟩ := Option.isSome_iff_exists.mp returns
  have wellFormed := checked_emptyStore.1.wellFormed
  exact ⟨final, ended, wellFormed_of_run wellFormed checked_emptyStore.2
    (boot_cached wellFormed.layout) ended⟩

/-! ## A directory entry for an inode that does not exist -/

/-- A small disk whose root directory has an entry for inode number 24.  Its
place on the disk is the data block of a file, which looks like an inode of a
directory. -/
def strayStore : Store :=
  smallStore [.zero, smallDinode tDir 48 34, smallDinode tFile 512 35]
    [direntBlock [linkEntry dot rootino, linkEntry dotdot rootino, linkEntry [0x78] 24],
      inodeBlock [{ Dinode.zero with type := tDir, nlink := 1 }] 0]

/-- Without whole entries a block can be lost: `create` in a directory that is
no inode takes a block that no inode refers to. -/
theorem not_wellFormed_strayStore : WellFormed strayStore ∧ Cached (boot strayStore fun _ => none) ∧
      ∃ final, run complete (boot strayStore fun _ => none)
          [.beginOp, .create [slash, 0x78, slash, 0x79] tFile 0 0] = some final ∧
        ¬ WellFormed final.store := by
  have wellFormed : WellFormed strayStore := Checked.wellFormed (by decide +kernel)
  have lost : ((run complete (boot strayStore fun _ => none)
      [.beginOp, .create [slash, 0x78, slash, 0x79] tFile 0 0]).map fun final =>
        decide (36 < final.store.sb.size ∧ final.store.bit 36 = true ∧
          ¬ 36 < final.store.sb.dataStart ∧ 36 ∉ final.store.referenced)) =
      some true := by
    decide +kernel
  obtain ⟨final, ended, facts⟩ := Option.map_eq_some_iff.mp lost
  obtain ⟨inside, used, data, unreferenced⟩ := of_decide_eq_true facts
  refine ⟨wellFormed, boot_cached wellFormed.layout, final, ended, fun formed => ?_⟩
  rcases (formed.bitmap 36 inside).mp used with early | referenced
  · exact data early
  · exact unreferenced (mem_referenced.mpr referenced)

end Xv6.Fs
