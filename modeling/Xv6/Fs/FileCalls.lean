import Xv6.Fs.Exec
import Xv6.Fs.OpenDirectories
import Xv6.Fs.Orphans

/-!
# Runs of file system calls

From a well-formed disk any sequence of calls by any processes keeps the inode
cache equal to the disk, and no open file that can be written to is ever a
directory.
-/

namespace Xv6.Fs

open Foundation.Program Foundation.Transition
open Function (update update_self)

/-! ## Reading -/

/-- `fileread`; reading from a pipe does not concern the file system. -/
def fileread (f : Fin nfile) (n : Nat) : KernelM (Option (List Byte)) := do
  let file := (← get).ftable f
  if file.readable = false then return none
  else
    match file.type with
    | .pipe => return none
    | .inode =>
      ilock file.ip
      let bytes ← readi file.ip ((← get).ftable f).off n
      let r : Int := bytes.elim (-1) fun bytes => bytes.length
      modify fun os =>
        os.setFile f ((os.ftable f).advance r)
      iunlock file.ip
      return bytes
    | .none => throw (.panic "fileread")

/-- `struct stat`. -/
structure Stat where
  dev : Nat
  ino : Nat
  type : BitVec 16
  nlink : BitVec 16
  size : BitVec 32

/-- `stati`. -/
def stati (ip : Slot) : KernelM Stat := do
  let inode ← getInode ip
  return {
    dev := inode.dev
    ino := inode.inum
    type := inode.dinode.type
    nlink := inode.dinode.nlink
    size := inode.dinode.size }

/-- `filestat`. -/
def filestat (f : Fin nfile) : KernelM (Option Stat) := do
  let file := (← get).ftable f
  if file.type = .inode then
    ilock file.ip
    let stat ← stati file.ip
    iunlock file.ip
    return some stat
  else return none

/-- `argfd`. -/
def argfd (fd : Nat) : KernelM (Option (Fin nfile)) := do
  if inside : fd < nofile then
    return ((← get).procs (← get).cur).ofile ⟨fd, inside⟩
  else return none

/-- `sys_read`; `buffer` says whether `argptr` accepts the buffer. -/
def sysRead (fd n : Nat) (buffer : Bool) : KernelM (Option (List Byte)) := do
  match ← argfd fd with
  | none => return none
  | some f => if buffer then fileread f n else return none

/-- `sys_fstat`. -/
def sysFstat (fd : Nat) (buffer : Bool) : KernelM (Option Stat) := do
  match ← argfd fd with
  | none => return none
  | some f => if buffer then filestat f else return none

section Reading

variable {os : Kernel} {ip : Slot}

theorem readi_moves {off n : Nat} (sound : Sound os.store) (cached : Cached os)
    (opened : Open os ip) :
    wp (readi ip off n) (fun _ next => Moves os.refs os next os.refs os.locks)
      Anyhow os :=
  wp_mono (readi_spec sound cached opened fun _ => trivial)
    (fun _ _ outcome => outcome.moves cached (fun _ => id) fun _ _ _ => rfl)
    fun _ => id

/-- The open file of a descriptor. -/
theorem wp_argfd {fd : Nat} {post : Option (Fin nfile) → Kernel → Prop}
    {stops : Stop → Prop} (any : ∀ result, post result os) : wp (argfd fd) post stops os := by
  unfold argfd
  split
  case isTrue inside => exact any _
  case isFalse => exact any _

theorem fileread_passes (start : Sealed os) (f : Fin nfile) (n : Nat) :
    wp (fileread f n) (fun _ next => Passes os next) Anyhow os := by
  unfold fileread
  simp only [wp_bind, wp_get]
  rw [wp_ite]
  refine ⟨fun _ => start.refl, fun _ => ?_⟩
  split
  case h_1 => exact start.refl
  case h_3 => trivial
  case h_2 inode =>
    have held := start.tables.ip_held inode
    refine wp_bind_of (ilock_moves start.sound start.cached held) ?_
    rintro _ locked ⟨first, opened, free⟩
    simp only [wp_bind, wp_get]
    refine wp_mono (readi_moves first.sound first.cached opened) ?_ fun _ => id
    intro bytes read second
    rw [first.refs, first.locks] at second
    have both := first.trans second
    rw [wp_modify]
    refine wp_mono (iunlock_moves both.sound (both.cached.outer rfl rfl) ?_ ?_) ?_ fun _ => id
    · change 0 < read.refs _
      rw [both.refs]
      exact held
    · change read.locks _ = some read.pid
      rw [both.locks, update_self, both.frame.pid]
    · intro _ next third
      change Moves read.refs _ next read.refs (update read.locks _ none) at third
      rw [both.refs, both.locks, unlock_eq free] at third
      have set : ∀ file, Settles os.refs read (read.setFile f file) :=
        fun file => .of_outer both.sound both.cached rfl rfl
      have ftable := third.frame.ftable
      change next.ftable = update read.ftable f ((read.ftable f).advance _) at ftable
      rw [both.frame.ftable] at ftable
      exact start.advanced ((both.toSettles.trans (set _)).trans third.toSettles) third.refs
        third.locks (third.frame.procs.trans both.frame.procs) ftable

theorem filestat_passes (start : Sealed os) (f : Fin nfile) :
    wp (filestat f) (fun _ next => Passes os next) Anyhow os := by
  unfold filestat
  simp only [wp_bind, wp_get]
  rw [wp_ite]
  refine ⟨fun inode => ?_, fun _ => start.refl⟩
  have held := start.tables.ip_held inode
  refine wp_bind_of (ilock_moves start.sound start.cached held) ?_
  rintro _ locked ⟨first, opened, free⟩
  unfold stati
  simp only [wp_bind, wp_getInode, wp_pure]
  refine wp_mono (iunlock_moves first.sound first.cached opened.held ?_) ?_
    fun _ => id
  · rw [first.locks, update_self, first.frame.pid]
  · intro _ next second
    rw [first.refs, first.locks, unlock_eq free] at second
    exact (first.trans second).passes start

theorem sysRead_passes (start : Sealed os) (fd n : Nat) (buffer : Bool) :
    wp (sysRead fd n buffer) (fun _ next => Passes os next) Anyhow os := by
  unfold sysRead
  rw [wp_bind]
  refine wp_argfd fun result => ?_
  cases result with
  | none => exact start.refl
  | some f =>
    dsimp only
    rw [wp_ite]
    exact ⟨fun _ => fileread_passes start f n, fun _ => start.refl⟩

theorem sysFstat_passes (start : Sealed os) (fd : Nat) (buffer : Bool) :
    wp (sysFstat fd buffer) (fun _ next => Passes os next) Anyhow os := by
  unfold sysFstat
  rw [wp_bind]
  refine wp_argfd fun result => ?_
  cases result with
  | none => exact start.refl
  | some f =>
    dsimp only
    rw [wp_ite]
    exact ⟨fun _ => filestat_passes start f, fun _ => start.refl⟩

section

variable (sound : Sound os.store) (cached : Cached os)
include sound cached

theorem loaduvmLoop_moves {fuel offset left : Nat} (opened : Open os ip) :
    wp (loaduvmLoop ip fuel offset left)
      (fun _ next => Moves os.refs os next os.refs os.locks)
      Anyhow os := by
  induction fuel generalizing os offset left with
  | zero => exact .refl sound cached
  | succ fuel ih =>
    unfold loaduvmLoop
    rw [wp_ite]
    refine ⟨fun _ => .refl sound cached, fun _ => ?_⟩
    refine wp_bind_of (readi_moves sound cached opened) ?_
    intro result read first
    cases result with
    | none => exact first
    | some bytes =>
      dsimp only
      rw [wp_ite]
      refine ⟨fun _ => first, fun _ => ?_⟩
      have still : OpenAs read ip _ := first.keeps ip _ opened.held ⟨opened, rfl⟩
      refine wp_mono (ih first.sound first.cached still.toOpen) ?_
        fun _ => id
      intro _ next second
      rw [first.refs, first.locks] at second
      exact first.trans second

variable {memory : Memory}

theorem execLoop_moves {left off sz : Nat} (opened : Open os ip) :
    wp (execLoop memory ip left off sz)
      (fun _ next => Moves os.refs os next os.refs os.locks)
      Anyhow os := by
  induction left generalizing os off sz with
  | zero => exact .refl sound cached
  | succ left ih =>
    unfold execLoop
    refine wp_bind_of (readi_moves sound cached opened) ?_
    intro result read first
    have rest : ∀ {middle : Kernel} {off sz : Nat},
        Moves os.refs os middle os.refs os.locks →
        wp (execLoop memory ip left off sz) (fun _ next =>
          Moves os.refs os next os.refs os.locks) Anyhow
          middle := by
      intro middle off sz moves
      have still : OpenAs middle ip _ := moves.keeps ip _ opened.held ⟨opened, rfl⟩
      refine wp_mono (ih moves.sound moves.cached still.toOpen) ?_
        fun _ => id
      intro _ next second
      rw [moves.refs, moves.locks] at second
      exact moves.trans second
    cases result with
    | none => exact first
    | some bytes =>
      dsimp only
      rw [wp_ite]
      refine ⟨fun _ => first, fun _ => ?_⟩
      rw [wp_ite]
      refine ⟨fun _ => rest first, fun _ => ?_⟩
      rw [wp_ite]
      refine ⟨fun _ => first, fun _ => ?_⟩
      rw [wp_ite]
      refine ⟨fun _ => first, fun _ => ?_⟩
      rw [wp_ite]
      refine ⟨fun _ => first, fun _ => ?_⟩
      rw [wp_ite]
      refine ⟨fun _ => first, fun _ => ?_⟩
      have still : OpenAs read ip _ := first.keeps ip _ opened.held ⟨opened, rfl⟩
      refine wp_bind_of (loaduvmLoop_moves first.sound first.cached still.toOpen) ?_
      intro loaded middle second
      rw [first.refs, first.locks] at second
      rw [wp_ite]
      exact ⟨fun _ => rest (first.trans second),
        fun _ => first.trans second⟩

theorem execRead_moves (opened : Open os ip) :
    wp (execRead memory ip) (fun _ next => Moves os.refs os next os.refs os.locks)
      Anyhow os := by
  unfold execRead
  refine wp_bind_of (readi_moves sound cached opened) ?_
  intro result read first
  cases result with
  | none => exact first
  | some bytes =>
    dsimp only
    rw [wp_ite]
    refine ⟨fun _ => first, fun _ => ?_⟩
    rw [wp_ite]
    refine ⟨fun _ => first, fun _ => ?_⟩
    rw [wp_ite]
    refine ⟨fun _ => first, fun _ => ?_⟩
    have still : OpenAs read ip _ := first.keeps ip _ opened.held ⟨opened, rfl⟩
    refine wp_mono (execLoop_moves first.sound first.cached still.toOpen) ?_
      fun _ => id
    intro _ next second
    rw [first.refs, first.locks] at second
    exact first.trans second

theorem exec_moves {path : List Byte} (current : 0 < os.refs os.cwd) :
    wp (exec memory path) (fun _ next => Moves os.refs os next os.refs os.locks)
      Anyhow os := by
  unfold exec
  refine beginOp_then sound cached fun begun first => ?_
  rw [wp_bind]
  refine first.namei current (fun _ missed => missed.endOp fun _ => id) ?_
  intro ip found second
  refine second.ilock (cached.counted ip) ?_
  intro locked third opened free
  refine wp_bind_of (execRead_moves third.sound third.cached opened) ?_
  intro loaded read fourth
  rw [third.refs, third.locks] at fourth
  exact (third.trans (fourth.mono fun jp => pos_add_single)).leave
    (fun _ => id) (cached.counted ip) free

end

end Reading

/-! ## Runs -/

/-- A call of a process: those that change the disk or references, and those
that read files. -/
inductive FileCall
  | change (call : SystemCall)
  | read (fd n : Nat) (buffer : Bool)
  | fstat (fd : Nat) (buffer : Bool)
  | exec (memory : Memory) (path : List Byte)

namespace FileCall

/-- The code. -/
def perform : FileCall → KernelM Unit
  | change call => call.perform
  | read fd n buffer => discard (sysRead fd n buffer)
  | fstat fd buffer => discard (sysFstat fd buffer)
  | exec memory path => discard (Fs.exec memory path)

/-- The end of `exit` comes after its loop, and not in the first process. -/
def Due (os : Kernel) : FileCall → Prop
  | change .exitEnd => os.cur ≠ os.initproc ∧
      ∀ fd, (os.procs os.cur).ofile fd = none
  | _ => True

instance decidableDue (os : Kernel) : ∀ call, Decidable (Due os call)
  | change .exitEnd => inferInstanceAs (Decidable (_ ∧ ∀ _, _))
  | change (.path _) | change (.close _) | change (.dup _)
  | change (.write _ _) | change (.fork _) | change (.exitFile _)
  | read _ _ _ | fstat _ _ | exec _ _ => isTrue trivial

/-- A live process makes a call, which returns. -/
def step (os : Kernel) (action : Fin nproc × FileCall) : Option Kernel :=
  let os := { os with cur := action.1 }
  if (os.procs action.1).state = .live ∧ Due os action.2 then
    match action.2.perform os with
    | .ok (_, next) => some next
    | .error _ => none
  else none

end FileCall

variable {os next : Kernel}

section Runs

variable {action : Fin nproc × FileCall}

theorem PathCall.passes (call : PathCall) (start : Sealed os)
    (live : (os.procs os.cur).state = .live) :
    wp call.perform (fun _ next => Passes os next) Anyhow os := by
  have current : 0 < os.refs os.cwd := start.tables.cwd_held live
  cases call with
  | openPath path omode => exact sysOpen_passes start live
  | link old new => exact start.passes_of_moves (sysLink_moves start.sound start.cached current)
  | unlink path => exact start.passes_of_moves (sysUnlink_moves start.sound start.cached current)
  | mkdir path =>
    exact start.passes_of_moves (makeNode_moves start.sound start.cached current (by decide))
  | mknod path major minor =>
    exact start.passes_of_moves (makeNode_moves start.sound start.cached current (by decide))
  | chdir path => exact sysChdir_passes start live

theorem FileCall.passes (call : FileCall) (start : Sealed os)
    (live : (os.procs os.cur).state = .live) (due : call.Due os) :
    wp call.perform (fun _ next => Passes os next) Anyhow os := by
  cases call with
  | change call =>
    cases call with
    | path call => exact (wp_discard _).mpr (call.passes start live)
    | close fd => exact (wp_discard _).mpr (sysClose_passes start fd)
    | dup fd => exact (wp_discard _).mpr (sysDup_passes start live fd)
    | write fd src => exact writeRound_passes start fd src
    | fork memory => exact (wp_discard _).mpr (fork_passes start live memory)
    | exitFile fd => exact exitFiles_passes start fd
    | exitEnd => exact exitEnd_passes start live due.2
  | read fd n buffer => exact (wp_discard _).mpr (sysRead_passes start fd n buffer)
  | fstat fd buffer => exact (wp_discard _).mpr (sysFstat_passes start fd buffer)
  | exec memory path =>
    exact (wp_discard _).mpr (start.passes_of_moves
      (exec_moves start.sound start.cached (start.tables.cwd_held live)))

/-- The scheduler runs another process. -/
theorem Sealed.switch (start : Sealed os) (p : Fin nproc) : Sealed { os with cur := p } where
  sound := start.sound
  cached := start.cached.outer rfl rfl
  unlocked := start.unlocked
  tables := start.tables.congr rfl rfl
  guarded := fun f inode => by
    obtain ⟨type, opened, plain⟩ := start.guarded f inode
    exact ⟨type, ⟨⟨opened.held, opened.valid⟩, opened.type⟩, plain⟩

theorem Passes.of_switch {p : Fin nproc} (passes : Passes { os with cur := p } next) :
    Passes os next where
  later := passes.later
  settles :=
    { passes.settles with
      keeps := fun jp type based opened => passes.settles.keeps jp type based
        ⟨⟨opened.held, opened.valid⟩, opened.type⟩ }
  continues := passes.continues

/-- What one call keeps. -/
theorem Sealed.step (start : Sealed os)
    (taken : FileCall.step os action = some next) : Passes os next := by
  obtain ⟨able, taken⟩ := Option.ite_none_right_eq_some.mp taken
  split at taken
  case h_2 => cases taken
  case h_1 next returned =>
    cases taken
    exact Passes.of_switch ((wp_of_ok returned).mp
      (action.2.passes (start.switch action.1) able.1 able.2))

theorem boot_sealed {store : Store} {devsw : Nat → Option Driver} (sound : Sound store) :
    Sealed (boot store devsw) where
  sound := sound
  cached := boot_cached sound.valid
  unlocked := boot_locks
  tables := boot_tables
  guarded := fun _ inode => (by cases inode)

theorem Sealed.run {calls : List (Fin nproc × FileCall)} (start : Sealed os)
    (ended : run FileCall.step os calls = some next) : Sealed next :=
  run_invariant Sealed (fun _ _ _ before taken => (before.step taken).later) start ended

end Runs

/-! ## What every run keeps -/

/-- The inodes that are read in are as on the disk, when they are not locked. -/
def Kernel.WriteThrough (os : Kernel) : Prop :=
  ∀ ip, 0 < (os.icache ip).ref → (os.icache ip).valid = true →
    (os.icache ip).lock = none →
    (os.icache ip).dinode = os.store.dinode (os.icache ip).inum

/-- The inode cache is written through, whatever calls were made. -/
theorem writeThrough_of_run {store : Store} {devsw : Nat → Option Driver}
    {calls : List (Fin nproc × FileCall)} {os : Kernel}
    (wellFormed : WellFormed store) (entries : WholeEntries store)
    (ended : run FileCall.step (boot store devsw) calls = some os) : os.WriteThrough := by
  intro ip held valid _
  have final := (boot_sealed (sound_iff.mpr ⟨wellFormed, entries⟩)).run ended
  exact (final.cached.agrees ip held valid).1

/-- A process makes a file and unlinks it while it is open; it makes a
directory, opens it for reading and writes to the file, and a child reads from
it. -/
def mixedRun : List (Fin nproc × FileCall) :=
  [(0, .change (.path (.openPath (some [slash, 0x61]) 0x202))),
    (0, .change (.path (.unlink (some [slash, 0x61])))),
    (0, .change (.path (.mkdir (some [slash, 0x64])))),
    (0, .change (.path (.openPath (some [slash, 0x64]) 0))),
    (0, .change (.write ⟨0, by decide⟩ [0x78, 0x79])),
    (0, .change (.fork true)),
    (1, .read 0 1 true),
    (1, .change (.close 1))]

theorem completed_mixedRun : (run FileCall.step (boot emptyStore fun _ => none) mixedRun).isSome =
      true := by
  decide +kernel

theorem writeThrough_mixedRun :
    ∃ os, run FileCall.step (boot emptyStore fun _ => none) mixedRun = some os ∧
      os.WriteThrough := by
  obtain ⟨os, ended⟩ := Option.isSome_iff_exists.mp completed_mixedRun
  exact ⟨os, ended, writeThrough_of_run checked_emptyStore.1.wellFormed checked_emptyStore.2 ended⟩

/-- An open file that can be written to is not a directory. -/
def Kernel.DirectoriesReadOnly (os : Kernel) : Prop :=
  ∀ f, 0 < (os.ftable f).ref → (os.ftable f).writable = true →
    (os.ftable f).type = .inode →
    (os.icache (os.ftable f).ip).dinode.type ≠ tDir ∧
      (os.store.dinode (os.inum (os.ftable f).ip)).type ≠ tDir

/-- An open file refers to the inode in an entry of the cache. -/
def Kernel.OpenOn (os : Kernel) (ip : Slot) : Prop :=
  ∃ f, 0 < (os.ftable f).ref ∧ (os.ftable f).type = .inode ∧ (os.ftable f).ip = ip

/-- After the call an open file refers to the inode. -/
def FileCall.LeavesOpen (ip : Slot) (os : Kernel) (action : Fin nproc × FileCall) : Prop :=
  ∀ next, FileCall.step os action = some next → next.OpenOn ip

/-- The number and the type of the inode in an entry of the cache. -/
def Kernel.identity (os : Kernel) (ip : Slot) : Nat × BitVec 16 :=
  (os.inum ip, (os.store.dinode (os.inum ip)).type)

section Kept

variable {ip : Slot}

theorem Sealed.opened_of_openOn (start : Sealed os) (used : os.OpenOn ip) :
    ∃ type, OpenAs os ip type := by
  obtain ⟨f, -, inode, rfl⟩ := used
  obtain ⟨type, opened, -⟩ := start.guarded f inode
  exact ⟨type, opened⟩

theorem OpenAs.disk_type {type : BitVec 16} (opened : OpenAs os ip type) (cached : Cached os) :
    (os.store.dinode (os.inum ip)).type = type := by
  rw [← (cached.agrees ip opened.held opened.valid).1]
  exact opened.type

theorem Sealed.directoriesReadOnly (start : Sealed os) : os.DirectoriesReadOnly := by
  intro f _ writable inode
  obtain ⟨type, opened, plain⟩ := start.guarded f inode
  rw [opened.disk_type start.cached, opened.type]
  exact ⟨plain writable, plain writable⟩

/-- An inode that open files refer to before and after a call is the same. -/
theorem Passes.identity_eq (passes : Passes os next) (start : Sealed os)
    (before : os.OpenOn ip) (after : next.OpenOn ip) : next.identity ip = os.identity ip := by
  obtain ⟨type, opened⟩ := start.opened_of_openOn before
  obtain ⟨_, still⟩ := passes.later.opened_of_openOn after
  have used : 0 < (os.refs ⊓ next.refs) ip := lt_inf_iff.mpr ⟨opened.held, still.held⟩
  have kept := passes.settles.keeps ip type used opened
  unfold Kernel.identity
  rw [kept.disk_type passes.later.cached, opened.disk_type start.cached,
    passes.settles.inum ip used]

theorem Sealed.identity_eq_of_run {calls : List (Fin nproc × FileCall)}
    (start : Sealed os) (used : os.OpenOn ip)
    (always : Along FileCall.step (FileCall.LeavesOpen ip) os calls)
    (ended : Foundation.Transition.run FileCall.step os calls = some next) :
    next.identity ip = os.identity ip := by
  refine (run_invariant_along (fun state => Sealed state ∧ state.OpenOn ip ∧
    state.identity ip = os.identity ip) ?_ ⟨start, used, rfl⟩ always
    ended).2.2
  rintro state action after ⟨before, on, same⟩ leaves taken
  have passes := before.step taken
  have still := leaves after taken
  exact ⟨passes.later, still, (passes.identity_eq before on still).trans same⟩

end Kept

/-- No directory is ever open for writing, and an inode has one type as long as
open files refer to it. -/
theorem directoriesReadOnly_of_run {store : Store} {devsw : Nat → Option Driver}
    {calls : List (Fin nproc × FileCall)} {os : Kernel}
    (wellFormed : WellFormed store) (entries : WholeEntries store)
    (ended : run FileCall.step (boot store devsw) calls = some os) :
    os.DirectoriesReadOnly ∧ ∀ ip later final, os.OpenOn ip →
        Along FileCall.step (FileCall.LeavesOpen ip) os later →
        run FileCall.step os later = some final →
        final.identity ip = os.identity ip := by
  have reached := (boot_sealed (sound_iff.mpr ⟨wellFormed, entries⟩)).run ended
  exact ⟨reached.directoriesReadOnly, fun ip later final used always ran =>
    reached.identity_eq_of_run used always ran⟩

theorem directoriesReadOnly_mixedRun :
    ∃ os, run FileCall.step (boot emptyStore fun _ => none) mixedRun = some os ∧
      os.DirectoriesReadOnly := by
  obtain ⟨os, ended⟩ := Option.isSome_iff_exists.mp completed_mixedRun
  exact ⟨os, ended, (directoriesReadOnly_of_run
    checked_emptyStore.1.wellFormed checked_emptyStore.2 ended).1⟩

/-- After every run the image is well-formed, no inode is locked, and the counts
of references to inodes and open files are those of the tables. -/
theorem accounted_of_calls {store : Store} {devsw : Nat → Option Driver}
    {calls : List (Fin nproc × FileCall)} {os : Kernel}
    (wellFormed : WellFormed store) (entries : WholeEntries store)
    (ended : run FileCall.step (boot store devsw) calls = some os) :
    WellFormed os.store ∧ WholeEntries os.store ∧
      (∀ ip, os.locks ip = none) ∧ Tables os os.refs := by
  have reached := (boot_sealed (sound_iff.mpr ⟨wellFormed, entries⟩)).run ended
  obtain ⟨after, whole⟩ := sound_iff.mp reached.sound
  exact ⟨after, whole, reached.unlocked, reached.tables⟩

theorem accounted_mixedRun :
    ∃ os, run FileCall.step (boot emptyStore fun _ => none) mixedRun = some os ∧
      WellFormed os.store ∧ Tables os os.refs := by
  obtain ⟨os, ended⟩ := Option.isSome_iff_exists.mp completed_mixedRun
  obtain ⟨after, -, -, tables⟩ := accounted_of_calls
    checked_emptyStore.1.wellFormed checked_emptyStore.2 ended
  exact ⟨os, ended, after, tables⟩

end Xv6.Fs
