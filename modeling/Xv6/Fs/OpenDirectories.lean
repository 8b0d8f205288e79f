import Xv6.Fs.Moves

/-!
# Directories are open for reading only

An open file on an inode has it in the cache, and an open file that can be
written to is not a directory.  Each call keeps this, since inodes that are
referred to keep their types, whatever happens to their links.
-/

namespace Xv6.Fs

open Function Foundation.Program

/-- The inode of an open file is read in, and is not a directory if the file can
be written to. -/
def File.Guarded (os : Kernel) (file : File) : Prop :=
  file.type = .inode → ∃ type, OpenAs os file.ip type ∧ (file.writable = true → type ≠ tDir)

/-- No call runs, all references are accounted for, and directories are open for
reading only. -/
structure Sealed (os : Kernel) : Prop where
  sound : Sound os.store
  cached : Cached os
  unlocked : ∀ ip, os.locks ip = none
  tables : Tables os os.refs
  guarded : ∀ f, (os.ftable f).Guarded os

/-- An open file before and after a call: it is still on its inode, or it was
not open. -/
inductive Continues (next : Kernel) (before after : File) : Prop
  | same (type : before.type = .inode) (ip : after.ip = before.ip)
      (writable : after.writable = before.writable)
  | other (closed : after.type ≠ .inode)
  | opened (untyped : before.type ≠ .inode) (guarded : after.Guarded next)

/-- A call keeps what is guarded, and inodes that are in use before and after it
are the same. -/
structure Passes (os next : Kernel) : Prop where
  later : Sealed next
  settles : Settles (os.refs ⊓ next.refs) os next
  continues : ∀ f, Continues next (os.ftable f) (next.ftable f)

section Passes

variable {os next : Kernel} {base : Slot → Int}

/-- An open file of which only the count or the offset changes. -/
theorem Continues.of_same {before after : File}
    (type : after.type = before.type) (ip : after.ip = before.ip)
    (writable : after.writable = before.writable) : Continues next before after := by
  by_cases inode : before.type = .inode
  · exact .same inode ip writable
  · exact .other (by rw [type]; exact inode)

theorem Continues.refl (file : File) : Continues next file file :=
  .of_same rfl rfl rfl

/-- One open file is changed. -/
theorem Continues.of_update {f : Fin nfile} {file : File} {table : Fin nfile → File}
    (changed : Continues next (table f) file) (g : Fin nfile) :
    Continues next (table g) (update table f file g) := by
  by_cases here : g = f
  · subst here
    rw [update_self]
    exact changed
  · rw [update_of_ne here]
    exact .refl _

/-- Open files are guarded after a call if no inode in use changes. -/
theorem Sealed.passes (before : Sealed os) (settles : Settles base os next)
    (based : ∀ jp, 0 < os.refs jp → 0 < next.refs jp → 0 < base jp)
    (locks : next.locks = os.locks) (tables : Tables next next.refs)
    (continues : ∀ f, Continues next (os.ftable f) (next.ftable f)) : Passes os next where
  later :=
    { sound := settles.sound
      cached := settles.cached
      unlocked := by
        rw [locks]
        exact before.unlocked
      tables := tables
      guarded := by
        intro f inode
        cases continues f with
        | same type ip writable =>
          obtain ⟨kind, opened, plain⟩ := before.guarded f type
          have held := tables.ip_held inode
          rw [ip] at held ⊢
          rw [writable]
          exact ⟨kind, settles.keeps _ kind (based _ opened.held held) opened, plain⟩
        | other closed => exact absurd inode closed
        | opened untyped guarded => exact guarded inode }
  settles := settles.mono fun jp both =>
    based jp (lt_inf_iff.mp both).1 (lt_inf_iff.mp both).2
  continues := continues

/-- A call that leaves the tables alone. -/
theorem Moves.passes (moves : Moves os.refs os next os.refs os.locks)
    (before : Sealed os) : Passes os next := by
  refine before.passes moves.toSettles (fun _ held _ => held) moves.locks ?_ ?_
  · rw [moves.refs]
    exact before.tables.congr moves.frame.procs moves.frame.ftable
  · rw [moves.frame.ftable]
    exact fun f => .refl _

theorem Sealed.refl (before : Sealed os) : Passes os os :=
  (Moves.refl before.sound before.cached).passes before

theorem Sealed.passes_of_moves {α : Type} {code : KernelM α} {middle : Kernel} (before : Sealed os)
    (moves : wp code (fun _ next =>
      Moves os.refs os next os.refs os.locks) Anyhow middle) :
    wp code (fun _ next => Passes os next) Anyhow middle :=
  wp_mono moves (fun _ _ after => after.passes before) fun _ => id

end Passes

/-! ## Opening -/

section Opening

variable {os before : Kernel} {ip : Slot} {omode : Nat}

theorem Sealed.opened {middle : Kernel} {f : Fin nfile} {fd : Fin nofile} {type : BitVec 16}
    (start : Sealed os) (live : (os.procs os.cur).state = .live)
    (moves : Moves os.refs os before (os.refs + Pi.single ip 1) (update os.locks ip (some os.pid)))
    (isOpen : OpenAs before ip type)
    (plain : (omode.testBit 0 || omode.testBit 1) = true → type ≠ tDir)
    (free : (os.ftable f).ref = 0) (empty : (os.procs os.cur).ofile fd = none)
    (last : Moves before.refs ((before.take f).assign f fd) middle before.refs
      os.locks) : Passes os (middle.setFile f (openedFile ip omode)) := by
  have taken : Settles before.refs before ((before.take f).assign f fd) :=
    .of_outer moves.sound moves.cached rfl rfl
  have filed : Settles before.refs middle (middle.setFile f (openedFile ip omode)) :=
    .of_outer last.sound last.cached rfl rfl
  have after := (taken.trans last.toSettles).trans filed
  have weaken := pos_of_taken_base moves.refs
  have untyped := start.tables.closed f free
  have procs := last.frame.procs.trans (assign_procs moves.frame.procs moves.frame.cur)
  have ftable : update middle.ftable f (openedFile ip omode) =
      update os.ftable f (openedFile ip omode) := by
    rw [last.frame.ftable]
    change update (update before.ftable f _) f _ = _
    rw [update_idem, moves.frame.ftable]
  refine start.passes (moves.toSettles.trans (after.mono weaken))
    (fun _ held _ => held) last.locks ?_ fun g => ?_
  · have refs : (middle.setFile f (openedFile ip omode)).refs =
        os.refs + Pi.single ip 1 := last.refs.trans moves.refs
    rw [refs]
    exact start.tables.opens live free empty procs ftable
  · change Continues _ _ (update middle.ftable f _ g)
    rw [ftable]
    refine .of_update (.opened (by rw [untyped]; decide) fun _ => ?_) g
    exact ⟨type, after.keeps ip type isOpen.held isOpen, plain⟩

/-- The current directory is changed, and the old one given up. -/
theorem Sealed.changesDirectory {middle : Kernel} (start : Sealed os)
    (live : (os.procs os.cur).state = .live)
    (first : Moves os.refs os before (os.refs + Pi.single ip 1) os.locks)
    (last : Moves (os.refs + Pi.single ip 1 - Pi.single os.cwd 1)
      before middle (os.refs + Pi.single ip 1 - Pi.single os.cwd 1)
      os.locks) : Passes os (middle.setProc { middle.procs middle.cur with cwd := ip }) := by
  have procs : middle.procs = os.procs := last.frame.procs.trans first.frame.procs
  have cur : middle.cur = os.cur := last.frame.cur.trans first.frame.cur
  have ftable : middle.ftable = os.ftable := last.frame.ftable.trans first.frame.ftable
  have changed : Settles middle.refs middle
      (middle.setProc { middle.procs middle.cur with cwd := ip }) :=
    .of_outer last.sound last.cached rfl rfl
  have second := last.toSettles
  rw [← last.refs] at second
  refine @Sealed.passes _ _ (os.refs ⊓ middle.refs) start
    ((first.toSettles.mono fun jp both => (lt_inf_iff.mp both).1).trans
      ((second.trans changed).mono fun jp both => (lt_inf_iff.mp both).2))
    (fun jp held after => lt_inf_iff.mpr ⟨held, after⟩) last.locks ?_ ?_
  · change Tables _ middle.refs
    rw [last.refs]
    refine start.tables.moves live ?_ ftable (sub_add_cancel _ _)
    change update middle.procs middle.cur
      { middle.procs middle.cur with cwd := ip } = _
    rw [procs, cur]
  · intro f
    change Continues _ _ (middle.ftable f)
    rw [ftable]
    exact .refl _

theorem openFile_passes {type : BitVec 16} (start : Sealed os)
    (live : (os.procs os.cur).state = .live)
    (moves : Moves os.refs os before (os.refs + Pi.single ip 1) (update os.locks ip (some os.pid)))
    (isOpen : OpenAs before ip type)
    (plain : (omode.testBit 0 || omode.testBit 1) = true → type ≠ tDir) :
    wp (openFile ip omode) (fun _ next => Passes os next) Anyhow before := by
  have free := start.unlocked ip
  have bad : wp (do iunlockput ip; onStore endOp; return -1)
      (fun _ next => Passes os next) Anyhow before :=
    start.passes_of_moves (moves.leave (fun _ => id) (start.cached.counted ip) free)
  unfold openFile
  rw [wp_bind]
  refine filealloc_spec bad fun f unused => ?_
  have closed : (before.ftable f).type = .none := by
    rw [moves.frame.ftable] at unused ⊢
    exact start.tables.closed f unused
  dsimp only
  rw [wp_bind]
  refine fdalloc_spec ?_ fun fd empty => ?_
  · dsimp only
    rw [wp_bind]
    exact fileclose_take unused closed bad
  dsimp only
  have claimed : Cached ((before.take f).assign f fd) := moves.cached.outer rfl rfl
  have pid : ((before.take f).assign f fd).pid = before.pid := by
    simp [Kernel.take, Kernel.assign, Kernel.setProc, Kernel.setFile, Kernel.pid]
  have file : ((before.take f).assign f fd).ftable f =
      { before.ftable f with ref := 1 } := update_self ..
  refine wp_bind_of (iunlock_moves moves.sound claimed isOpen.held ?_) ?_
  · rw [pid, moves.frame.pid]
    change before.locks ip = _
    rw [moves.locks, update_self]
  intro _ released first
  refine wp_bind_of (endOp_moves first.sound first.cached) ?_
  intro _ ended second
  rw [first.refs, first.locks] at second
  have last : Moves before.refs ((before.take f).assign f fd) ended before.refs
      (update before.locks ip none) := first.trans second
  rw [moves.locks, unlock_eq free] at last
  rw [wp_bind, wp_modify, last.frame.ftable, file]
  rw [moves.frame.ftable] at unused
  change (before.procs before.cur).ofile fd = none at empty
  rw [moves.frame.procs, moves.frame.cur] at empty
  exact start.opened live moves isOpen plain unused empty last

variable {path : StringArgument}

theorem sysOpen_passes (start : Sealed os) (live : (os.procs os.cur).state = .live) :
    wp (sysOpen path omode) (fun _ next => Passes os next) Anyhow os := by
  have current : 0 < os.refs os.cwd := start.tables.cwd_held live
  unfold sysOpen
  cases argstr path with
  | none => exact start.refl
  | some path =>
    dsimp only
    refine beginOp_then start.sound start.cached fun begun first => ?_
    have failed : ∀ {middle : Kernel}, Moves os.refs os middle os.refs os.locks →
        wp (do onStore endOp; return -1) (fun _ next => Passes os next)
          Anyhow middle :=
      fun moves => start.passes_of_moves (moves.endOp fun _ => id)
    rw [wp_ite]
    refine ⟨fun _ => ?_, fun _ => ?_⟩
    · refine wp_bind_of (create_moves first.sound first.cached
        (by rw [first.refs, first.cwd]; exact current) (by decide)) ?_
      intro result middle made
      rw [first.refs] at made
      cases result with
      | none =>
        have second : Moves os.refs begun middle os.refs begun.locks := made
        rw [first.locks] at second
        exact failed (first.trans second)
      | some ip =>
        obtain ⟨second, opened, -⟩ := made
        rw [first.locks, first.frame.pid] at second
        exact openFile_passes start live (first.trans second) opened
          fun _ => by decide
    · rw [wp_bind]
      refine first.namei current (fun _ => failed) ?_
      intro ip middle second
      refine second.ilock (start.cached.counted ip) ?_
      intro locked third opened free
      rw [wp_bind, wp_getInode, wp_ite]
      refine ⟨fun _ => ?_, fun allowed => ?_⟩
      · exact start.passes_of_moves (third.leave (fun _ => id) (start.cached.counted ip) free)
      · refine openFile_passes start live third ⟨opened, rfl⟩ ?_
        -- a directory is opened with mode 0 only, which has no bits set
        intro writes dir
        have mode : omode = 0 := by
          by_contra some
          exact allowed ⟨dir, some⟩
        rw [mode] at writes
        exact absurd writes (by decide)

theorem sysChdir_passes (start : Sealed os) (live : (os.procs os.cur).state = .live) :
    wp (sysChdir path) (fun _ next => Passes os next) Anyhow os := by
  have current : 0 < os.refs os.cwd := start.tables.cwd_held live
  unfold sysChdir
  refine beginOp_then start.sound start.cached fun begun first => ?_
  have failed : ∀ {middle : Kernel}, Moves os.refs os middle os.refs os.locks →
      wp (do onStore endOp; return -1) (fun _ next => Passes os next)
        Anyhow middle :=
    fun moves => start.passes_of_moves (moves.endOp fun _ => id)
  cases argstr path with
  | none => exact failed first
  | some path =>
    dsimp only
    rw [wp_bind]
    refine first.namei current (fun _ => failed) ?_
    intro ip middle second
    refine second.ilock (start.cached.counted ip) ?_
    intro locked third opened free
    rw [wp_bind, wp_getInode, wp_ite]
    refine ⟨fun _ => ?_, fun _ => ?_⟩
    · exact start.passes_of_moves (third.leave (fun _ => id) (start.cached.counted ip) free)
    refine wp_bind_of (iunlock_moves third.sound third.cached opened.held
      (by rw [third.locks, update_self, third.frame.pid])) ?_
    intro _ released fourth
    rw [third.refs, third.locks, unlock_eq free] at fourth
    have fifth := third.trans (fourth.mono fun jp => pos_add_single)
    rw [wp_bind, wp_get, fifth.frame.procs, fifth.frame.cur]
    refine wp_bind_of (iput_moves fifth.sound fifth.cached ?_) ?_
    · rw [fifth.refs]
      exact pos_add_single current
    intro _ put sixth
    rw [fifth.refs, fifth.locks] at sixth
    refine wp_bind_of (endOp_moves sixth.sound sixth.cached) ?_
    intro _ ended last
    rw [sixth.refs, sixth.locks] at last
    have rest := sixth.trans last
    rw [wp_bind, wp_modify]
    exact start.changesDirectory live fifth rest

end Opening

/-! ## Descriptors -/

/-- `fileclose` gives one reference to an open file up. -/
structure Released (os next : Kernel) (f : Fin nfile) (file : File) :
    Prop where
  settles : Settles next.refs os next
  locks : next.locks = os.locks
  procs : next.procs = os.procs
  cur : next.cur = os.cur
  ftable : next.ftable = Function.update os.ftable f file
  ref : file.ref = (os.ftable f).ref - 1
  closed : file.ref = 0 → file.type = .none
  grips : next.refs + (os.ftable f).grip = os.refs + file.grip
  continues : Continues next (os.ftable f) file

section Descriptors

variable {os : Kernel}

theorem grip_of_none {file : File} (none : file.type = .none) : file.grip = 0 :=
  grip_of_ne (by rw [none]; decide)

variable {f : Fin nfile}

theorem fileclose_released (sound : Sound os.store) (cached : Cached os)
    (referred : (os.ftable f).type = .inode → 0 < os.refs (os.ftable f).ip)
    (counted : 1 ≤ (os.ftable f).ref) :
    wp (fileclose f) (fun _ next => ∃ file, Released os next f file) Anyhow os := by
  have set : ∀ file, Settles os.refs os (os.setFile f file) :=
    fun file => .of_outer sound cached rfl rfl
  unfold fileclose
  simp only [wp_bind, wp_get]
  rw [wp_ite]
  refine ⟨fun _ => trivial, fun _ => ?_⟩
  rw [wp_ite]
  refine ⟨fun many => ?_, fun few => ?_⟩
  · rw [wp_set]
    exact ⟨_, {
      settles := set _
      locks := rfl
      procs := rfl
      cur := rfl
      ftable := rfl
      ref := rfl
      closed := fun zero => absurd zero (by dsimp only; omega)
      grips := rfl
      continues := .of_same rfl rfl rfl }⟩
  have last : (os.ftable f).ref = 1 := by omega
  rw [wp_bind, wp_set, wp_ite]
  refine ⟨fun inode => ?_, fun other => ?_⟩
  · refine beginOp_then (set _).sound (set _).cached fun begun first => ?_
    refine wp_bind_of (iput_moves first.sound first.cached ?_) ?_
    · rw [first.refs]
      exact referred inode
    intro _ put second
    rw [first.refs, first.locks] at second
    refine wp_mono (endOp_moves second.sound second.cached) ?_ fun _ => id
    intro _ next third
    rw [second.refs, second.locks] at third
    have moves := (first.mono fun _ => pos_of_sub_single).trans (second.trans third)
    have left : next.refs = os.refs - Pi.single (os.ftable f).ip 1 := moves.refs
    refine ⟨_, {
      settles := ?_
      locks := moves.locks
      procs := moves.frame.procs
      cur := moves.frame.cur
      ftable := moves.frame.ftable
      ref := by dsimp only; omega
      closed := fun _ => rfl
      grips := ?_
      continues := .other fun typed => (by cases typed) }⟩
    · rw [moves.refs]
      exact ((set _).mono fun _ => pos_of_sub_single).trans moves.toSettles
    · rw [left, grip_of_inode inode, grip_of_none rfl, sub_add_cancel, add_zero]
  · exact ⟨_, {
      settles := set _
      locks := rfl
      procs := rfl
      cur := rfl
      ftable := rfl
      ref := by dsimp only; omega
      closed := fun _ => rfl
      grips := by rw [grip_of_ne other, grip_of_none rfl]; rfl
      continues := .other fun typed => (by cases typed) }⟩

/-- A descriptor is removed and its open file given up. -/
theorem Released.passes {before closed next : Kernel} {file : File}
    {fd : Fin nofile} (released : Released before closed f file) (start : Sealed os)
    (descriptor : (os.procs os.cur).ofile fd = some f)
    (store : before.store = os.store) (icache : before.icache = os.icache)
    (ftable : before.ftable = os.ftable)
    (store' : next.store = closed.store) (icache' : next.icache = closed.icache)
    (ftable' : next.ftable = closed.ftable)
    (procs : next.procs = update os.procs os.cur
      ((os.procs os.cur).without fd)) : Passes os next := by
  have refs : before.refs = os.refs := by
    unfold Kernel.refs
    rw [icache]
  have refs' : next.refs = closed.refs := by
    unfold Kernel.refs
    rw [icache']
  have first : Settles closed.refs os before := .of_outer start.sound start.cached store icache
  have last : Settles closed.refs closed next :=
    .of_outer released.settles.sound released.settles.cached store' icache'
  have table : next.ftable = update os.ftable f file := by
    rw [ftable', released.ftable, ftable]
  refine start.passes ((first.trans released.settles).trans last)
    (fun jp _ held => by rw [← refs']; exact held) ?_ ?_ fun g => ?_
  · have locks : next.locks = closed.locks := by
      unfold Kernel.locks
      rw [icache']
    rw [locks, released.locks]
    unfold Kernel.locks
    rw [icache]
  · have ref := released.ref
    have grips := released.grips
    rw [ftable] at ref grips
    rw [refs] at grips
    rw [refs']
    exact start.tables.close descriptor procs table ref released.closed grips
  · rw [table]
    have continues := released.continues
    rw [ftable] at continues
    refine .of_update ?_ g
    cases continues with
    | same type ip writable => exact .same type ip writable
    | other closed => exact .other closed
    | opened untyped guarded =>
      exact .opened untyped fun typed => by
        obtain ⟨type, opened, plain⟩ := guarded typed
        exact ⟨type, last.keeps _ type opened.held opened, plain⟩

theorem sysClose_passes (start : Sealed os) (fd : Nat) :
    wp (sysClose fd) (fun _ next => Passes os next) Anyhow os := by
  unfold sysClose
  split
  case isFalse => exact start.refl
  case isTrue inside =>
    simp only [wp_bind, wp_get]
    cases descriptor : (os.procs os.cur).ofile ⟨fd, inside⟩ with
    | none => exact start.refl
    | some f =>
      rw [wp_bind, wp_set]
      refine wp_bind_of (fileclose_released start.sound
        (start.cached.outer rfl rfl) (fun type => start.tables.ip_held type)
        (start.tables.ref_pos descriptor)) ?_
      rintro _ next ⟨file, released⟩
      exact released.passes start descriptor rfl rfl rfl rfl rfl rfl released.procs

theorem exitFiles_passes (start : Sealed os) (fd : Fin nofile) :
    wp (exitFiles [fd]) (fun _ next => Passes os next) Anyhow os := by
  unfold exitFiles
  simp only [wp_bind, wp_get]
  cases descriptor : (os.procs os.cur).ofile fd with
  | none => exact start.refl
  | some f =>
    simp only [wp_bind]
    refine wp_mono (fileclose_released start.sound start.cached
      (fun type => start.tables.ip_held type)
      (start.tables.ref_pos descriptor)) ?_ fun _ => id
    rintro _ next ⟨file, released⟩
    rw [wp_modify]
    refine released.passes start descriptor rfl rfl rfl rfl rfl rfl ?_
    change update next.procs next.cur ((next.procs next.cur).without fd) = _
    rw [released.procs, released.cur]

section

variable (start : Sealed os) (live : (os.procs os.cur).state = .live)
include start live

theorem sysDup_passes (fd : Nat) : wp (sysDup fd) (fun _ next => Passes os next) Anyhow os := by
  refine sysDup_rule start.tables fd start.refl
    fun _ f fd' descriptor empty => ?_
  exact start.passes (.of_outer start.sound start.cached rfl rfl) (fun _ held _ => held) rfl
    (start.tables.duplicates live descriptor empty rfl rfl)
    (.of_update (.of_same rfl rfl rfl))

theorem exitEnd_passes (closed : ∀ fd, (os.procs os.cur).ofile fd = none) :
    wp exitEnd (fun _ next => Passes os next) Anyhow os := by
  have current : 0 < os.refs os.cwd := start.tables.cwd_held live
  unfold exitEnd
  refine beginOp_then start.sound start.cached fun begun first => ?_
  rw [wp_bind, wp_get, first.frame.procs, first.frame.cur]
  refine wp_bind_of (iput_moves first.sound first.cached ?_) ?_
  · rw [first.refs]
    exact current
  intro _ put second
  rw [first.refs, first.locks] at second
  refine wp_bind_of (endOp_moves second.sound second.cached) ?_
  intro _ next third
  rw [second.refs, second.locks] at third
  have moves := (first.mono fun _ => pos_of_sub_single).trans (second.trans third)
  have ended : Settles (os.refs - Pi.single os.cwd 1) next
      (next.setProc { next.procs next.cur with state := .zombie }) :=
    .of_outer moves.sound moves.cached rfl rfl
  rw [wp_modify]
  refine start.passes (moves.toSettles.trans ended) (fun jp _ held => ?_) moves.locks ?_ fun f => ?_
  · rw [← moves.refs]
    exact held
  · change Tables _ next.refs
    rw [moves.refs]
    refine start.tables.ends live closed ?_ moves.frame.ftable
    change update next.procs next.cur
      { next.procs next.cur with state := .zombie } = _
    rw [moves.frame.procs, moves.frame.cur]
  · change Continues _ _ (next.ftable f)
    rw [moves.frame.ftable]
    exact .refl _

theorem fork_passes (memory : Bool) :
    wp (fork memory) (fun _ next => Passes os next) Anyhow os := by
  refine fork_rule start.cached start.tables live ?_ ?_
  · intro next store icache procs ftable
    refine start.passes (.of_outer start.sound start.cached store icache)
      (fun _ held _ => held) ?_ ?_ ?_
    · unfold Kernel.locks
      rw [icache]
    · unfold Kernel.refs
      rw [icache]
      exact start.tables.congr procs ftable
    · rw [ftable]
      exact fun f => .refl _
  · intro referred duplicated next store icache shift store' icache' ftable tables
    have first : Settles os.refs os referred := .of_outer start.sound start.cached store icache
    have second := shift.moves first.sound first.cached fun _ => pos_add_single
    have last : Settles os.refs duplicated next :=
      .of_outer second.sound second.cached store' icache'
    have refs : next.refs = duplicated.refs := by
      unfold Kernel.refs
      rw [icache']
    have locks : next.locks = duplicated.locks := by
      unfold Kernel.locks
      rw [icache']
    refine start.passes ((first.trans second.toSettles).trans last)
      (fun _ held _ => held) (locks.trans second.locks) ?_ fun f => ?_
    · rw [refs, second.refs]
      exact tables
    · rw [ftable]
      exact .of_same rfl rfl rfl

end

theorem File.advance_inode (file : File) (r : Int) :
    (file.advance r).type = file.type ∧ (file.advance r).ip = file.ip ∧
      (file.advance r).writable = file.writable := by
  unfold File.advance
  split
  case isTrue => exact ⟨rfl, rfl, rfl⟩
  case isFalse => exact ⟨rfl, rfl, rfl⟩

/-- Only the offset of an open file and inodes are changed. -/
theorem Sealed.advanced {next : Kernel} {r : Int}
    (start : Sealed os) (settles : Settles os.refs os next)
    (refs : next.refs = os.refs) (locks : next.locks = os.locks) (procs : next.procs = os.procs)
    (ftable : next.ftable = update os.ftable f ((os.ftable f).advance r)) : Passes os next := by
  refine start.passes settles (fun _ held _ => held) locks ?_ ?_
  · rw [refs]
    exact (start.tables.advance f r).congr procs ftable
  · rw [ftable]
    obtain ⟨type, ip, writable⟩ := File.advance_inode (os.ftable f) r
    exact .of_update (.of_same type ip writable)

theorem writeRound_passes (start : Sealed os) (fd : Fin nofile) (src : List Byte) :
    wp (writeRound fd src) (fun _ next => Passes os next) Anyhow os := by
  unfold writeRound
  simp only [wp_bind, wp_get]
  cases (os.procs os.cur).ofile fd with
  | none => exact start.refl
  | some f =>
    dsimp only
    split
    case isFalse => exact start.refl
    case isTrue able =>
      obtain ⟨writable, inode⟩ := able
      obtain ⟨type, opened, plain⟩ := start.guarded f inode
      obtain ⟨copy, allocated⟩ := start.cached.agrees _ opened.held opened.valid
      have notDirectory : (os.store.dinode (os.inum (os.ftable f).ip)).type ≠ tDir := by
        rw [← copy, opened.type]
        exact plain writable
      refine (wp_discard _).mpr (wp_mono (filewriteChunk_plain start.sound
        start.cached start.unlocked opened.held allocated notDirectory src)
        ?_ fun _ => id)
      intro r next outcome
      have set : Settles os.refs os (os.setFile f ((os.ftable f).advance r)) :=
        .of_outer start.sound start.cached rfl rfl
      have moves := outcome.moves set.cached (fun _ => id) fun _ _ _ => rfl
      exact start.advanced (set.trans moves.toSettles) moves.refs moves.locks
        moves.frame.procs moves.frame.ftable

end Descriptors

end Xv6.Fs
