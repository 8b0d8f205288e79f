import Xv6.Fs.SharedFile

/-!
# `filewrite` and the device drivers

The whole loop of `filewrite`, on files of any inode that `sys_open` opens for
writing.  `filewrite` panics when `writei` returns neither a negative number nor
the length of the chunk, and the drivers of the devices return what they like.
-/

namespace Xv6.Fs

open Function Foundation.Program
open Foundation.Transition (run)

/-! ## The drivers -/

/-- A `write` that takes all its bytes. -/
def takesAll (buf : List Byte) : Int :=
  buf.length

/-- `consolewrite`, apart from what it prints. -/
def consolewrite : List Byte → Int := takesAll

/-- `hellowrite`. -/
def hellowrite : List Byte → Int := takesAll

/-- `nullWrite`. -/
def nullWrite : List Byte → Int := takesAll

/-- `zeroWrite`. -/
def zeroWrite : List Byte → Int := takesAll

/-- `tickswrite`. -/
def tickswrite (_ : List Byte) : Int :=
  0

/-- `TICKS`. -/
abbrev majorTicks : Nat := 9

/-- `devsw[major].write`, for the drivers that `main` initialises, and whether
it gives up the lock of the inode. -/
def writeHandler : Nat → Option (Bool × (List Byte → Int))
  | 1 => some (true, consolewrite)
  | 6 => some (false, hellowrite)
  | 7 => some (false, nullWrite)
  | 8 => some (false, zeroWrite)
  | 9 => some (false, tickswrite)
  | _ => none

/-- The drivers have been initialised. -/
def Installed (devsw : Nat → Option Driver) : Prop :=
  ∀ major, match writeHandler major with
    | none => devsw major = none
    | some (yields, write) => ∃ driver, devsw major = some driver ∧
        driver.yields = yields ∧ ∀ call buf, driver.write call buf = write buf

variable {write : List Byte → Int} {yields : Bool}

/-- Only the driver of `TICKS` does not take all its bytes. -/
theorem writeHandler_spec {major : Nat} (registered : writeHandler major = some (yields, write)) :
    major < ndev ∧
      (major = majorTicks ∧ write = tickswrite ∨ major ≠ majorTicks ∧ write = takesAll) := by
  unfold writeHandler at registered
  split at registered
  case h_6 => cases registered
  case h_5 =>
    cases registered
    exact ⟨by decide, .inl ⟨rfl, rfl⟩⟩
  all_goals
    cases registered
    exact ⟨by decide, .inr ⟨by decide, rfl⟩⟩

/-! ## The loop -/

/-- The loop of `filewrite` over what is left to write, in chunks. -/
def filewriteLoop (f : Fin nfile) (n : Nat) : List (List Byte) → KernelM Int
  | [] => return n
  | chunk :: chunks => do
    let r ← filewriteChunk f chunk
    if r < 0 then return -1
    else if r ≠ chunk.length then throw (.panic "short filewrite")
    else filewriteLoop f n chunks

/-- `filewrite`, for a file that is not a pipe. -/
def filewrite (f : Fin nfile) (addr : List Byte) : KernelM Int := do
  let file := (← get).ftable f
  if file.writable = false then return -1
  else if file.type ≠ .inode then throw (.panic "filewrite")
  else filewriteLoop f addr.length (chunksOf addr)

/-- The panic that `filewrite` ends with when `writei` has written less. -/
abbrev shortFilewrite : Stop := .panic "short filewrite"

/-- Every end but that panic. -/
def NotShort (stop : Stop) : Prop :=
  stop ≠ shortFilewrite

theorem lenient_notShort : Lenient NotShort := by
  constructor <;> unfold NotShort <;> decide

/-- An open file whose inode has the given fields. -/
structure Writes (os : Kernel) (f : Fin nfile) (dinode : Dinode) :
    Prop where
  sound : Sound os.store
  cached : Cached os
  free : ∀ ip, os.locks ip = none
  held : 0 < os.refs (os.ftable f).ip
  installed : Installed os.devsw
  type : (os.store.dinode (os.inum (os.ftable f).ip)).type = dinode.type
  major : (os.store.dinode (os.inum (os.ftable f).ip)).major = dinode.major

variable {os : Kernel} {f : Fin nfile} {dinode : Dinode}

section Chunk

variable {src : List Byte} {stops : Stop → Prop}

/-- The entry of `devsw` for a major number. -/
def Kernel.driver (os : Kernel) (dinode : Dinode) : Option Driver :=
  if dinode.major.toInt < 0 ∨ (ndev : Int) ≤ dinode.major.toInt then none
  else os.devsw dinode.major.toInt.toNat

theorem driver_eq (os : Kernel) (inode : Inode) : wp (driver inode)
      (fun found next => found = os.driver inode.dinode ∧ next = os)
      stops os := by
  unfold driver Kernel.driver
  split
  case isTrue out => simp only [if_pos out, wp_pure, and_self]
  case isFalse inside => simp only [if_neg inside, wp_bind, wp_get, wp_pure, and_self]

theorem iunlock_store (os : Kernel) (ip : Slot) :
    wp (iunlock ip) (fun _ next => next.store = os.store) (fun _ => True) os := by
  unfold iunlock releasesleep
  simp only [wp_bind, wp_get, wp_ite, wp_throw, wp_modifyInode, implies_true, true_and]
  exact fun _ => rfl

theorem acquiresleep_store (os : Kernel) (ip : Slot) :
    wp (acquiresleep ip) (fun _ next => next.store = os.store) (fun _ => True) os := by
  unfold acquiresleep
  rw [wp_bind, wp_get]
  cases (os.icache ip).lock with
  | none => exact rfl
  | some holder => simp only [wp_ite, wp_throw, implies_true, and_self]

theorem ilock_store (os : Kernel) (ip : Slot) :
    wp (ilock ip) (fun _ next => next.store = os.store) (fun _ => True) os := by
  unfold ilock
  rw [wp_bind, wp_getInode]
  dsimp only
  rw [wp_ite]
  refine ⟨fun _ => trivial, fun _ => ?_⟩
  refine wp_bind_of (acquiresleep_store os ip) ?_
  intro _ locked same
  simp only [wp_bind, wp_getInode, wp_ite, wp_get, wp_modifyInode, wp_throw,
    wp_pure, implies_true, true_and]
  exact ⟨fun _ _ => same, fun _ => same⟩

/-- Locking and unlocking leave the disk alone. -/
theorem callDriver_store (ip : Slot) (driver : Driver) :
    wp (callDriver ip driver) (fun _ next => next.store = os.store) (fun _ => True) os := by
  unfold callDriver
  dsimp only
  rw [wp_ite]
  refine ⟨fun _ => ?_, fun _ => ?_⟩
  · refine wp_bind_of (iunlock_store os ip) fun _ unlocked first => ?_
    refine wp_bind_of (ilock_store unlocked ip) fun _ locked second => ?_
    simp only [wp_bind, wp_get, wp_modify, wp_pure]
    exact second.trans first
  · simp only [wp_bind, wp_get, wp_modify, wp_pure]

theorem writei_device_result {ip : Slot} {off : Nat} (device : (os.icache ip).dinode.type = tDev) :
    wp (writei ip src off) (fun r next => next.store = os.store ∧
        match os.driver (os.icache ip).dinode with
        | none => r = -1
        | some driver => ∃ call, r = driver.write call src)
      (fun _ => True) os := by
  unfold writei
  rw [wp_bind, wp_getInode, if_pos device]
  refine wp_bind_of (driver_eq os _) ?_
  rintro found next ⟨rfl, same⟩
  rw [same]
  cases os.driver (os.icache ip).dinode with
  | none => exact ⟨rfl, rfl⟩
  | some driver =>
    refine wp_bind_of (callDriver_store ip driver) ?_
    intro call next same
    exact ⟨same, call, rfl⟩

theorem Writes.driver (installed : Installed os.devsw) (positive : 0 ≤ dinode.major.toInt)
    (registered : writeHandler dinode.major.toInt.toNat = some (yields, write)) :
    ∃ driver, os.driver dinode = some driver ∧
      ∀ call buf, driver.write call buf = write buf := by
  have bound := (writeHandler_spec registered).1
  have here := installed dinode.major.toInt.toNat
  rw [registered] at here
  obtain ⟨driver, found, -, writes⟩ := here
  refine ⟨driver, ?_, writes⟩
  unfold Kernel.driver
  rw [if_neg (by omega), found]

section

variable (writes : Writes os f dinode)
include writes

/-- A round leaves the inode's type and major number as they are, if `writei`
does. -/
theorem Writes.round {r : Int} {written next : Kernel} (allocated : dinode.type ≠ 0)
    (outcome : Outcome os.refs (os.setFile f ((os.ftable f).advance r)) next
      os.store.volume os.refs os.locks)
    (file : next.store.file = written.store.file)
    (type : (written.store.dinode (os.inum (os.ftable f).ip)).type = dinode.type)
    (major : (written.store.dinode
      (os.inum (os.ftable f).ip)).major = dinode.major) : Writes next f dinode := by
  have ftable : next.ftable = update os.ftable f
      ((os.ftable f).advance r) := outcome.frame.ftable
  have points : (next.ftable f).ip = (os.ftable f).ip := by
    rw [ftable, update_self]
    unfold File.advance
    split <;> rfl
  have number : next.inum (os.ftable f).ip =
      os.inum (os.ftable f).ip := outcome.frame.inum _ writes.held
  have present := volume_eq_some.mpr
    ⟨writes.cached.inside _ writes.held, writes.type.trans_ne allocated, rfl⟩
  rw [← outcome.volume] at present
  obtain ⟨inside, typed, -⟩ := volume_eq_some.mp present
  have fields : next.store.dinode (os.inum (os.ftable f).ip) =
      written.store.dinode (os.inum (os.ftable f).ip) := by
    have here := congrFun file (os.inum (os.ftable f).ip)
    unfold Store.file at here
    rw [if_pos ⟨inside, typed⟩] at here
    split at here
    case isTrue => exact congrArg Prod.fst (Option.some.inj here)
    case isFalse => cases here
  refine ⟨outcome.sound, outcome.cached, ?_, ?_, ?_, ?_, ?_⟩
  · intro ip
    rw [outcome.locks]
    exact writes.free ip
  · rw [outcome.refs, points]
    exact writes.held
  · rw [outcome.frame.outer]
    exact writes.installed
  · rw [points, number, fields]
    exact type
  · rw [points, number, fields]
    exact major

theorem Writes.locked {locked : Kernel} (undone : Undone os.refs os locked os.refs
      (update os.locks (os.ftable f).ip (some os.pid)))
    (opened : Open locked (os.ftable f).ip) :
    (locked.icache (os.ftable f).ip).dinode.type = dinode.type ∧
      (locked.icache (os.ftable f).ip).dinode.major = dinode.major := by
  have copy := opened.copy undone.cached
  have number := undone.frame.inum _ writes.held
  obtain ⟨nlink, same⟩ := undone.relinked.dinode (os.inum (os.ftable f).ip)
  rw [copy, number, same]
  exact ⟨writes.type, writes.major⟩

/-- A round on a device returns what its driver does. -/
theorem Writes.device_chunk (device : dinode.type = tDev) (positive : 0 ≤ dinode.major.toInt)
    (registered : writeHandler dinode.major.toInt.toNat = some (yields, write))
    (asleep : os.store.Full → stops .asleep) :
    wp (filewriteChunk f src) (fun r next => r = write src ∧ Writes next f dinode)
      stops os := by
  have allocated : dinode.type ≠ 0 := by
    rw [device]
    decide
  refine wp_mono (@filewriteChunk_rule os f src stops (fun r written => r = write src ∧
      (written.store.dinode (os.inum (os.ftable f).ip)).type = dinode.type ∧
      (written.store.dinode (os.inum (os.ftable f).ip)).major = dinode.major)
    writes.sound writes.cached writes.free writes.held
    (writes.type.trans_ne allocated) asleep ?_) ?_ fun _ => id
  · intro locked undone opened
    obtain ⟨type, major⟩ := writes.locked undone opened
    have mine : locked.locks (os.ftable f).ip = some locked.pid := by
      rw [undone.locks, update_self, undone.frame.pid]
    refine wp_mono (wp_and_returns (writei_device_spec undone.sound undone.cached opened
        (type.trans device) (fun other => absurd mine other))
      (@writei_device_result locked src _ (os.ftable f).off (type.trans device))) ?_ fun _ => id
    rintro r next ⟨outcome, same, result⟩
    have devices : Installed locked.devsw := by
      rw [undone.frame.outer]
      exact writes.installed
    obtain ⟨driver, found, takes⟩ := Writes.driver devices
      (by rw [major]; exact positive) (by rw [major]; exact registered)
    rw [found] at result
    obtain ⟨call, result⟩ := result
    refine ⟨outcome, result.trans (takes call src), ?_⟩
    have copy := opened.copy undone.cached
    rw [undone.frame.inum _ writes.held] at copy
    rw [same, ← copy]
    exact ⟨type, major⟩
  · rintro r next ⟨outcome, written, ⟨result, type, major⟩, file⟩
    exact ⟨result, writes.round allocated outcome file type major⟩

/-- A round on a regular file writes all its bytes, or fails. -/
theorem Writes.file_chunk (regular : dinode.type = tFile) (lenient : Lenient stops)
    (asleep : stops .asleep) :
    wp (filewriteChunk f src) (fun r next => (r < 0 ∨ r = src.length) ∧ Writes next f dinode)
      stops os := by
  have allocated : dinode.type ≠ 0 := by
    rw [regular]
    decide
  refine wp_mono (@filewriteChunk_rule os f src stops (fun r written => (r < 0 ∨ r = src.length) ∧
      (written.store.dinode (os.inum (os.ftable f).ip)).type = dinode.type ∧
      (written.store.dinode (os.inum (os.ftable f).ip)).major = dinode.major)
    writes.sound writes.cached writes.free writes.held
    (writes.type.trans_ne allocated) (fun _ => asleep) ?_) ?_ fun _ => id
  · intro locked undone opened
    obtain ⟨type, major⟩ := writes.locked undone opened
    have kind := type.trans regular
    have number := undone.frame.inum _ writes.held
    have copy := opened.copy undone.cached
    rw [number] at copy
    refine wp_mono (wp_and (writei_regular undone.sound undone.cached opened kind lenient)
      (writei_spec undone.sound undone.cached opened (by rw [kind]; decide) lenient)) ?_ fun _ => id
    rintro r next ⟨⟨outcome, -⟩, ⟨-, failed, rfl⟩ | ⟨-, -, result, store, changed, wrote, rfl⟩⟩
    · refine ⟨outcome, .inl (by omega), ?_⟩
      rw [← copy]
      exact ⟨type, major⟩
    · have inside := opened.inside undone.cached
      have entry : store.dinode (locked.inum (os.ftable f).ip) = changed := by
        rw [wrote.rewritten.table _ inside, update_self]
      refine ⟨outcome, .inr result, ?_⟩
      change (store.dinode _).type = _ ∧ (store.dinode _).major = _
      rw [← number, entry, wrote.fields]
      exact ⟨type, major⟩
  · rintro r next ⟨outcome, written, ⟨result, type, major⟩, file⟩
    exact ⟨result, writes.round allocated outcome file type major⟩

end

end Chunk

/-! ## The panic -/

section Panic

variable {addr : List Byte}

/-- The inode of a regular file, or of a device that some driver registers. -/
def Writable (dinode : Dinode) : Prop :=
  dinode.type = tFile ∨ dinode.type = tDev ∧ 0 ≤ dinode.major.toInt ∧
      (writeHandler dinode.major.toInt.toNat).isSome = true

/-- The inode of the device `TICKS`. -/
def Ticks (dinode : Dinode) : Prop :=
  dinode.type = tDev ∧ dinode.major.toInt = majorTicks

/-- A round on an inode other than that of `TICKS` takes the whole chunk, or
fails. -/
theorem Writes.chunk {src : List Byte} (writes : Writes os f dinode)
    (writable : Writable dinode) (other : ¬ Ticks dinode) :
    wp (filewriteChunk f src) (fun r next => (r < 0 ∨ r = src.length) ∧ Writes next f dinode)
      NotShort os := by
  have asleep : NotShort .asleep := by
    unfold NotShort
    decide
  rcases writable with regular | ⟨device, positive, registered⟩
  · exact writes.file_chunk regular lenient_notShort asleep
  · obtain ⟨⟨yields, write⟩, found⟩ := Option.isSome_iff_exists.mp registered
    refine wp_mono (writes.device_chunk device positive found fun _ => asleep) ?_ fun _ => id
    rintro r next ⟨result, after⟩
    refine ⟨.inr ?_, after⟩
    rcases (writeHandler_spec found).2 with ⟨ticks, -⟩ | ⟨-, all⟩
    · exact absurd ⟨device, by omega⟩ other
    · rw [result, all]
      rfl

theorem Writes.loop (writes : Writes os f dinode)
    (writable : Writable dinode) (other : ¬ Ticks dinode) (n : Nat) (chunks : List (List Byte)) :
    wp (filewriteLoop f n chunks) (fun _ _ => True) NotShort os := by
  induction chunks generalizing os with
  | nil => trivial
  | cons chunk chunks ih =>
    unfold filewriteLoop
    refine wp_bind_of (writes.chunk writable other) ?_
    rintro r next ⟨result, after⟩
    simp only [wp_ite, wp_pure, wp_throw]
    refine ⟨fun _ => trivial, fun negative => ⟨fun short => ?_, fun _ => ?_⟩⟩
    · rcases result with less | all
      · exact absurd less negative
      · exact absurd all short
    · exact ih after

/-- A first round on the device `TICKS` ends in the panic. -/
theorem Writes.ticks_loop {chunk : List Byte} {chunks : List (List Byte)}
    (writes : Writes os f dinode) (ticks : Ticks dinode)
    (room : ¬ os.store.Full) (some : chunk ≠ []) (n : Nat) :
    wp (filewriteLoop f n (chunk :: chunks)) (fun _ _ => False) (· = shortFilewrite) os := by
  obtain ⟨device, major⟩ := ticks
  have registered : writeHandler dinode.major.toInt.toNat = Option.some (false, tickswrite) := by
    rw [major]
    rfl
  unfold filewriteLoop
  refine wp_bind_of (writes.device_chunk device (by omega) registered
    fun full => absurd full room) ?_
  rintro r next ⟨result, -⟩
  have zero : r = 0 := result
  have length := List.length_pos_iff.mpr some
  rw [if_neg (by omega), if_pos (by omega)]
  exact rfl

theorem filewrite_eq (writable : (os.ftable f).writable = true)
    (file : (os.ftable f).type = .inode) :
    filewrite f addr os = filewriteLoop f addr.length (chunksOf addr) os := by
  change (if (os.ftable f).writable = false then (pure (-1) : KernelM Int)
    else if (os.ftable f).type ≠ .inode then throw (.panic "filewrite")
    else filewriteLoop f addr.length (chunksOf addr)) os = _
  rw [if_neg (by rw [writable]; decide), if_neg (not_not.mpr file)]

/-- `filewrite` reaches `panic("short filewrite")` exactly when it is given some
bytes for the device `TICKS`, whose driver returns 0. -/
theorem filewrite_not_short_iff (writes : Writes os f dinode)
    (writable : (os.ftable f).writable = true)
    (file : (os.ftable f).type = .inode) (kind : Writable dinode) (room : ¬ os.store.Full) :
    filewrite f addr os ≠ .error shortFilewrite ↔ ¬ (Ticks dinode ∧ addr ≠ []) := by
  rw [filewrite_eq writable file]
  constructor
  · rintro notShort ⟨ticks, some⟩
    have positive := List.length_pos_iff.mpr some
    have first : addr.take filewriteMax ≠ [] := by
      intro none
      have := congrArg List.length none
      simp only [List.length_take, List.length_nil, filewriteMax, Log.maxopblocks] at this
      omega
    rw [chunksOf_of_ne_nil some] at notShort
    have panics := @writes.ticks_loop _ _ _ _
      (chunksOf (addr.drop filewriteMax)) ticks room first addr.length
    exact notShort (error_of_wp panics)
  · intro other short
    have ends : wp (filewriteLoop f addr.length (chunksOf addr))
        (fun _ _ => True) NotShort os := by
      by_cases none : addr = []
      · rw [none, chunksOf_nil]
        trivial
      · exact writes.loop kind (fun ticks => other ⟨ticks, none⟩) _ _
    unfold wp at ends
    rw [short] at ends
    exact ends rfl

/-- What the drivers install, with reads that fail. -/
def kernelDevsw (major : Nat) : Option Driver :=
  (writeHandler major).map fun handler =>
    { yields := handler.1
      read := fun _ _ => none
      write := fun _ => handler.2 }

theorem installed_kernelDevsw : Installed kernelDevsw := by
  intro major
  unfold kernelDevsw
  cases writeHandler major with
  | none => rfl
  | some handler => exact ⟨_, rfl, rfl, fun _ _ => rfl⟩

theorem filewrite_not_short_file : filewrite 0 [0x61] { sharedKernel with devsw := kernelDevsw } ≠
      .error shortFilewrite := by
  have quiet : Quiet { sharedKernel with devsw := kernelDevsw } :=
    regular_sharedKernel.quiet.outer rfl rfl
  have regular : (sharedKernel.store.dinode 2).type = tFile := by
    decide +kernel
  have writes : Writes { sharedKernel with devsw := kernelDevsw } 0 (sharedKernel.store.dinode 2) :=
    ⟨quiet.sound, quiet.cached, quiet.unlocked, regular_sharedKernel.held,
      installed_kernelDevsw, rfl, rfl⟩
  refine (filewrite_not_short_iff writes rfl rfl (.inl regular) ?_).mpr
    fun ticks => ?_
  · unfold Store.Full
    decide +kernel
  · have device := ticks.1.1
    rw [regular] at device
    exact absurd device (by decide)

/-- What becomes of `mknod("/t", TICKS, 0)`, `open("/t", O_RDWR)` and a `write`
of one byte. -/
def ticksCalls : Option Stop :=
  match sysMknod (some [slash, 0x74]) majorTicks 0
      (boot emptyStore kernelDevsw) with
  | .error _ => none
  | .ok (_, made) =>
    match sysOpen (some [slash, 0x74]) 2 made with
    | .error _ => none
    | .ok (fd, opened) =>
      match filewriteLoop 0 1 [[0x61]] opened with
      | .ok _ => none
      | .error stop =>
        if fd = 0 ∧ (opened.ftable 0).writable = true ∧
            (opened.ftable 0).type = .inode then some stop
        else none

/-- The `write` of one byte to the device `TICKS` panics. -/
theorem short_ticks : ∃ result made opened, sysMknod (some [slash, 0x74]) majorTicks 0
          (boot emptyStore kernelDevsw) = .ok (result, made) ∧
        sysOpen (some [slash, 0x74]) 2 made = .ok (0, opened) ∧
        filewrite 0 [0x61] opened = .error shortFilewrite := by
  have seen : ticksCalls = some shortFilewrite := by
    decide +kernel
  unfold ticksCalls at seen
  split at seen
  case h_1 => cases seen
  case h_2 result made first =>
    split at seen
    case h_1 => cases seen
    case h_2 fd opened second =>
      split at seen
      case h_1 => cases seen
      case h_2 stop third =>
        split at seen
        case isFalse => cases seen
        case isTrue file =>
          obtain ⟨rfl, writable, type⟩ := file
          cases seen
          refine ⟨result, made, opened, first, second, ?_⟩
          rw [filewrite_eq writable type, chunksOf_of_ne_nil (by decide)]
          rw [show ([0x61] : List Byte).drop filewriteMax = [] from rfl, chunksOf_nil]
          exact third

end Panic

end Xv6.Fs
