import Xv6.Fs.Unlinking

/-!
# Opening, making and changing directories

`sys_open`, `sys_mkdir`, `sys_mknod` and `sys_chdir` in a state in which nothing
else runs.
-/

namespace Xv6.Fs

open Function Foundation.Program
open Pi (single)

/-! ## Creating -/

variable {stops : Stop → Prop} {os : Kernel} {base : Slot → Int}

section Create

variable {path : List Byte} {type major minor : BitVec 16}

/-- The path leads to a directory that has no entry with the last name. -/
structure Creatable (os : Kernel) (base : Slot → Int) (path : List Byte)
    (d : Nat) (dir : Node) (name : List Byte) : Prop where
  walked : os.walk base path true = .ok (some (d, name))
  present : os.store.volume d = some dir
  isDirectory : dir.type = tDir
  absent : lookup dir.entries name = none

/-- `create` would make an inode. -/
def Kernel.Creates (os : Kernel) (base : Slot → Int) (path : List Byte) : Prop :=
  ∃ d dir name, Creatable os base path d dir name

theorem not_creates_of_missing (missing : os.walk base path true = .ok none) :
    ¬ os.Creates base path := by
  rintro ⟨d, dir, name, creatable⟩
  have walked := creatable.walked
  rw [missing] at walked
  cases walked

theorem not_creates_of_found {d : Nat} {dir : Node} {name : List Byte} {found : Nat × Nat}
    (walked : os.walk base path true = .ok (some (d, name)))
    (present : os.store.volume d = some dir)
    (entry : lookup dir.entries name = some found) : ¬ os.Creates base path := by
  rintro ⟨d', directory', name', creatable⟩
  have same := creatable.walked
  rw [walked] at same
  cases same
  cases present.symm.trans creatable.present
  have absent := creatable.absent
  rw [entry] at absent
  cases absent

theorem create_quiet {post : Option Slot → Kernel → Prop}
    (sound : Sound os.store) (cached : Cached os) (refs : os.refs = base)
    (current : path.head? ≠ some slash → 0 < base os.cwd)
    (unlocked : ∀ ip, os.locks ip = none) (retained : Retained os base)
    (typed : type ≠ 0) (lenient : Lenient stops) (large : stops (.panic "dirlink"))
    (stopped : ∀ reason, WalkStop reason → os.walk base path true = .error reason → stops reason)
    (untyped : ∀ d name dir i index, os.walk base path true = .ok (some (d, name)) →
      os.store.volume d = some dir →
      lookup dir.entries name = some (i, index) →
      os.store.volume i = none → stops (.panic "ilock: no type"))
    (missing : ∀ next, ¬ os.Creates base path → Shift base os next base os.locks → post none next)
    (existing : ∀ ip next, ¬ os.Creates base path → type = tFile →
      Shift base os next (base + single ip 1) (update os.locks ip (some os.pid)) →
      Open next ip → post (some ip) next)
    (created : ∀ d dir name ip i next, Creatable os base path d dir name →
      os.store.volume i = none → i < os.store.sb.ninodes → 0 < i →
      At next ip i (newNode type i d) →
      Outcome base os next
        ((os.store.volume.created d i dir name type).release (os.used base) d)
        (base + single ip 1)
        (update os.locks ip (some os.pid)) →
      post (some ip) next) : wp (create path type major minor) post stops os := by
  have counted : ∀ jp, 0 ≤ base jp := by
    rw [← refs]
    exact cached.counted
  unfold create nameiparent
  rw [wp_bind]
  refine namex_quiet sound cached refs current unlocked retained stopped ?_ ?_
  · intro next shift walked
    exact missing next (not_creates_of_missing walked) shift
  intro dp name middle shift walked
  obtain ⟨dir, present, isDirectory⟩ := walk_parent walked
  have again : middle.store.volume (middle.inum dp) = some dir := by
    rw [shift.store]
    exact present
  have still : Retained middle base := retained.frame shift.frame shift.store
  have sound' : Sound middle.store := by
    rw [shift.store]
    exact sound
  refine createIn_spec sound' shift.cached counted shift.refs again isDirectory
    typed (fun jp => .of_free (by rw [shift.locks]; exact unlocked jp)) lenient
    large ?_ ?_ ?_ ?_
  · intro i index found dangling
    refine untyped _ name dir i index walked present found ?_
    rw [← shift.store]
    exact dangling still
  · intro ip index next found visit opened _ files
    have rest := visit.shift still
    rw [shift.locks, shift.frame.pid] at rest
    exact existing ip next (not_creates_of_found walked present found) files.1
      ⟨rest.cached, shift.frame.trans rest.frame, rest.store.trans shift.store,
        rest.refs, rest.locks⟩ opened
  · intro i index next found visit
    have rest := visit.shift still
    rw [shift.locks] at rest
    exact missing next (not_creates_of_found walked present found)
      ⟨rest.cached, shift.frame.trans rest.frame, rest.store.trans shift.store,
        rest.refs, rest.locks⟩
  · intro ip i next absent unused inside positive _ made outcome
    rw [shift.store] at unused inside
    have inUse := shift.cached.mem_used_iff counted shift.refs
    rw [shift.frame.used] at inUse
    have same : (os.store.volume.created (middle.inum dp) i dir name
          type).drop (middle.inum dp) (linksFor type dir.nlink) (base dp + 1) =
        (os.store.volume.created (middle.inum dp) i dir name
          type).release (os.used base) (middle.inum dp) := by
      have entry : os.store.volume.created (middle.inum dp) i dir name
          type (middle.inum dp) = some (parentNode dir name type i) := update_self ..
      unfold Volume.drop Volume.release
      rw [entry]
      have iff : (base dp + 1 = 1) ↔ middle.inum dp ∉ os.used base := by
        rw [inUse]
        have := counted dp
        omega
      dsimp only [parentNode]
      simp only [iff]
    rw [shift.store, same, shift.locks, shift.frame.pid] at outcome
    exact created _ dir name ip i next
      ⟨walked, present, isDirectory, absent⟩ unused inside positive made
      { outcome with frame := shift.frame.trans outcome.frame }

/-- Inodes without links are in use after an inode is made. -/
theorem Retained.created {next : Kernel} {d i : Nat} {dir : Node} {name : List Byte}
    {refs : Slot → Int} {locks : Slot → Option Nat} (retained : Retained os base)
    (present : os.store.volume d = some dir) (links : linksFor type dir.nlink = 0 → dir.nlink = 0)
    (outcome : Outcome base os next ((os.store.volume.created d i dir name type).release
        (os.used base) d) refs locks) : Retained next base := by
  intro inum node here unlinked
  rw [outcome.volume] at here
  have before : ∃ node', os.store.volume inum = some node' ∧ node'.nlink = 0 := by
    by_cases parent : inum = d
    · subst parent
      have entry := (Volume.release_self here).1
      rw [Volume.created, update_self] at entry
      cases entry
      exact ⟨dir, present, links unlinked⟩
    · rw [Volume.release_of_ne parent, Volume.created, update_of_ne parent, update_apply] at here
      split at here
      · cases here
        exact absurd unlinked (by simp [newNode])
      · exact ⟨node, here, unlinked⟩
  obtain ⟨node', old, unlinkedOld⟩ := before
  obtain ⟨ip, held, same, valid⟩ := retained inum node' old unlinkedOld
  exact ⟨ip, held, (outcome.frame.inum ip held).trans same, outcome.frame.valid ip held valid⟩

end Create

/-! ## Opening -/

variable {post : Int → Kernel → Prop}

section Open

variable {ip : Slot} {i omode : Nat} {node : Node}

/-- Entries of the table of open files that are free have no type. -/
def Closed (os : Kernel) : Prop :=
  ∀ f, (os.ftable f).ref = 0 → (os.ftable f).type = .none

/-- `filealloc` takes an open file. -/
def Kernel.take (os : Kernel) (f : Fin nfile) : Kernel :=
  os.setFile f { os.ftable f with ref := 1 }

/-- `fdalloc` assigns a descriptor. -/
def Kernel.assign (os : Kernel) (f : Fin nfile) (fd : Fin nofile) : Kernel :=
  let proc := os.procs os.cur
  os.setProc
    { proc with ofile := update proc.ofile fd (some f) }

/-- The open file that `sys_open` sets up. -/
def openedFile (ip : Slot) (omode : Nat) : File where
  type := .inode
  ref := 1
  readable := !omode.testBit 0
  writable := omode.testBit 0 || omode.testBit 1
  ip := ip
  off := 0

/-- The cache is right whatever the other tables hold. -/
theorem Cached.outer {other : Kernel} (cached : Cached os)
    (store : other.store = os.store) (icache : other.icache = os.icache) : Cached other := by
  have refs : other.refs = os.refs := by
    unfold Kernel.refs
    rw [icache]
  have inum : other.inum = os.inum := by
    funext ip
    unfold Kernel.inum
    rw [icache]
  constructor
  · rw [refs]
    exact cached.counted
  · rw [refs, icache]
    exact cached.device
  · rw [refs, inum, store]
    exact cached.inside
  · rw [refs, inum]
    exact cached.unique
  · rw [refs, inum, icache, store]
    exact cached.agrees

theorem filealloc_spec {post : Option (Fin nfile) → Kernel → Prop} (full : post none os)
    (found : ∀ f, (os.ftable f).ref = 0 → post (some f) (os.take f)) :
    wp filealloc post stops os := by
  unfold filealloc
  simp only [wp_bind, wp_get]
  split
  case h_1 => exact full
  case h_2 f result =>
    have free := List.find?_some result
    exact found f (of_decide_eq_true free)

theorem fdalloc_spec {post : Option (Fin nofile) → Kernel → Prop} {f : Fin nfile}
    (full : post none os)
    (found : ∀ fd, (os.procs os.cur).ofile fd = none →
      post (some fd) (os.assign f fd)) : wp (fdalloc f) post stops os := by
  unfold fdalloc
  simp only [wp_bind, wp_get]
  split
  case h_1 => exact full
  case h_2 fd result =>
    have free := List.find?_some result
    exact found fd (of_decide_eq_true free)

theorem fileclose_take {f : Fin nfile} {post : Unit → Kernel → Prop} (free : (os.ftable f).ref = 0)
    (untyped : (os.ftable f).type = .none) (closed : post () os) :
    wp (fileclose f) post stops (os.take f) := by
  have file : (os.take f).ftable f = { os.ftable f with ref := 1 } := update_self ..
  have back : (os.take f).setFile f
      { os.ftable f with ref := 0, type := .none } = os := by
    have same : { os.ftable f with ref := 0, type := FileType.none } = os.ftable f := by
      rw [← free, ← untyped]
    rw [same]
    simp [Kernel.take, Kernel.setFile]
  unfold fileclose
  simp only [wp_bind, wp_get]
  rw [file, wp_ite]
  refine ⟨fun few => absurd few (Int.lt_irrefl 1), fun _ => ?_⟩
  rw [wp_ite]
  refine ⟨fun many => absurd many (Int.lt_irrefl 0), fun _ => ?_⟩
  rw [wp_bind, wp_set, wp_ite]
  refine ⟨fun inode => ?_, fun _ => ?_⟩
  · dsimp only at inode
    rw [untyped] at inode
    cases inode
  · rw [wp_pure]
    rw [back]
    exact closed

theorem openFile_spec (sound : Sound os.store) (cached : Cached os)
    (counted : ∀ jp, 0 ≤ base jp) (refs : os.refs = base + single ip 1)
    (here : At os ip i node) (locked : os.locks ip = some os.pid)
    (retained : node.nlink = 0 → i ∈ os.used base)
    (kept : Retained os os.refs) (closed : Closed os) (lenient : Lenient stops)
    (failed : ∀ next, Undone base os next base (update os.locks ip none) → Retained next base →
      post (-1) next)
    (opened : ∀ f fd middle, (os.ftable f).ref = 0 → (os.procs os.cur).ofile fd = none →
      Undone os.refs ((os.take f).assign f fd) middle os.refs
        (update os.locks ip none) →
      Retained middle os.refs →
      post fd.val (middle.setFile f (openedFile ip omode))) :
    wp (openFile ip omode) post stops os := by
  have bad : wp (do iunlockput ip; onStore endOp; return -1) post stops
      os := by
    refine wp_bind_of (iunlockput_kept sound cached counted refs here locked retained lenient) ?_
    rintro _ released ⟨undone, after⟩
    exact endOp_undone undone (after kept) failed
  unfold openFile
  rw [wp_bind]
  refine filealloc_spec bad fun f free => ?_
  dsimp only
  rw [wp_bind]
  refine fdalloc_spec ?_ fun fd unused => ?_
  · dsimp only
    rw [wp_bind]
    exact fileclose_take free (closed f free) bad
  dsimp only
  have claimed : Cached ((os.take f).assign f fd) := cached.outer rfl rfl
  have pid : ((os.take f).assign f fd).pid = os.pid := by
    simp [Kernel.take, Kernel.assign, Kernel.setProc, Kernel.setFile, Kernel.pid]
  have file : ((os.take f).assign f fd).ftable f =
      { os.ftable f with ref := 1 } := update_self ..
  refine wp_bind_of (iunlock_spec claimed here.opened.held (by rw [pid]; exact locked)) ?_
  intro _ middle shift
  have first := shift.undone sound
  refine wp_bind_of (endOp_spec first.sound first.cached) ?_
  intro _ ended last
  have total := first.trans (last os.refs) fun _ => id
  rw [first.refs, first.locks] at total
  rw [wp_bind, wp_modify, total.frame.ftable, file]
  exact opened f fd ended free unused total (total.toOutcome.retained kept)

/-- The inode that `sys_open` opens is found or made: the state before a file is
allocated. -/
structure Openable (os before : Kernel) (ip : Slot) (vol : Volume) :
    Prop
    extends Outcome os.refs os before vol (os.refs + Pi.single ip 1)
      (update os.locks ip (some os.pid)) where
  opened : Open before ip
  retained : Retained before os.refs

theorem openFile_quiet {before : Kernel} {vol : Volume} (quiet : Quiet os) (closed : Closed os)
    (openable : Openable os before ip vol) (lenient : Lenient stops)
    (failed : ∀ next, Undone os.refs before next os.refs os.locks →
      Retained next os.refs → post (-1) next)
    (opened : ∀ f fd middle, (os.ftable f).ref = 0 → (os.procs os.cur).ofile fd = none →
      Undone before.refs ((before.take f).assign f fd) middle before.refs os.locks →
      Retained middle before.refs →
      post fd.val (middle.setFile f (openedFile ip omode))) :
    wp (openFile ip omode) post stops before := by
  have present := openable.opened.volume openable.cached
  have back : update before.locks ip none = os.locks := by
    rw [openable.locks]
    exact unlock_eq (quiet.unlocked ip)
  have frame := openable.frame
  refine openFile_spec openable.sound openable.cached quiet.cached.counted
    openable.refs ⟨openable.opened, rfl, present⟩
    (by rw [openable.locks, update_self, frame.pid])
    (openable.retained.mem_used present)
    (openable.retained.mono (pos_of_taken_base openable.refs))
    (by unfold Closed; rw [frame.ftable]; exact closed) lenient ?_ ?_
  · rw [back]
    exact failed
  · rw [back, frame.ftable, frame.procs, frame.cur]
    exact opened

theorem sysOpen_spec {argument : StringArgument} {path : List Byte}
    (quiet : Quiet os) (current : 0 < os.refs os.cwd)
    (closed : Closed os) (string : argstr argument = some path)
    (lenient : Lenient stops) (large : stops (.panic "dirlink")) (asleep : stops .asleep)
    (stopped : ∀ reason, WalkStop reason → os.walk os.refs path (omode.testBit 9) = .error reason →
      stops reason)
    (untyped : omode.testBit 9 = false → ∀ i last,
      os.walk os.refs path false = .ok (some (i, last)) →
      os.store.volume i = none → stops (.panic "ilock: no type"))
    (untypedEntry : omode.testBit 9 = true → ∀ d name dir i index,
      os.walk os.refs path true = .ok (some (d, name)) →
      os.store.volume d = some dir →
      lookup dir.entries name = some (i, index) →
      os.store.volume i = none → stops (.panic "ilock: no type"))
    (failed : ∀ next, (omode.testBit 9 = true → ¬ os.Creates os.refs path) →
      Undone os.refs os next os.refs os.locks →
      Retained next os.refs → post (-1) next)
    (lost : ∀ d dir name i next, omode.testBit 9 = true → Creatable os os.refs path d dir name →
      os.store.volume i = none → i < os.store.sb.ninodes → 0 < i →
      Outcome os.refs os next
        ((os.store.volume.created d i dir name tFile).release
          (os.used os.refs) d) os.refs os.locks →
      Retained next os.refs → post (-1) next)
    (opened : ∀ vol before ip f fd middle, Openable os before ip vol →
      (vol = os.store.volume ∨ ∃ d dir name i, omode.testBit 9 = true ∧
        Creatable os os.refs path d dir name ∧
        os.store.volume i = none ∧ i < os.store.sb.ninodes ∧ 0 < i ∧
        vol = (os.store.volume.created d i dir name tFile).release
          (os.used os.refs) d) →
      (os.ftable f).ref = 0 → (os.procs os.cur).ofile fd = none →
      Undone before.refs ((before.take f).assign f fd) middle before.refs os.locks →
      Retained middle before.refs →
      post fd.val (middle.setFile f (openedFile ip omode))) :
    wp (sysOpen argument omode) post stops os := by
  have counted := quiet.cached.counted
  unfold sysOpen
  rw [string]
  refine wp_bind_of (beginOp_spec quiet.sound quiet.cached fun _ => asleep) ?_
  intro _ begun begins
  have first := begins os.refs
  have walked := first.toOutcome.walk_eq current path
  have retained := first.toOutcome.retained quiet.retained
  have free : ∀ jp, begun.locks jp = none := fun jp => by
    rw [first.locks]
    exact quiet.unlocked jp
  have pid : begun.pid = os.pid := first.frame.pid
  have cwd : path.head? ≠ some slash → 0 < os.refs begun.cwd := fun _ => by
    rw [Kernel.cwd_frame first.frame]
    exact current
  have creatable : ∀ d dir name, Creatable begun os.refs path d dir name →
      Creatable os os.refs path d dir name := by
    rintro d dir name ⟨walks, present, isDirectory, absent⟩
    rw [walked] at walks
    rw [first.volume] at present
    exact ⟨walks, present, isDirectory, absent⟩
  have creates : ¬ begun.Creates os.refs path → ¬ os.Creates os.refs path := by
    rintro none ⟨d, dir, name, walks, present, isDirectory, absent⟩
    refine none ⟨d, dir, name, ?_, ?_, isDirectory, absent⟩
    · rw [walked]
      exact walks
    · rw [first.volume]
      exact present
  -- An inode that is found and locked without a change of the disk is opened.
  have rest : ∀ ip before, (omode.testBit 9 = true → ¬ os.Creates os.refs path) →
      Shift os.refs begun before (os.refs + single ip 1)
        (update begun.locks ip (some begun.pid)) →
      Open before ip → wp (openFile ip omode) post stops before := by
    intro ip before old shift ready
    have second := shift.undone first.sound
    rw [first.locks, pid] at second
    have total := first.trans second fun _ => id
    have openable : Openable os before ip os.store.volume :=
      { total.toOutcome with
        opened := ready
        retained := total.toOutcome.retained quiet.retained }
    refine openFile_quiet quiet closed openable lenient ?_ ?_
    · intro next third ended
      exact failed next old (total.trans third fun _ => id) ended
    · intro f fd middle
      exact opened _ before ip f fd middle openable (.inl rfl)
  rw [wp_ite]
  refine ⟨fun creating => ?_, fun plain => ?_⟩
  · rw [creating] at stopped
    rw [wp_bind]
    refine create_quiet first.sound first.cached first.refs cwd free retained
      (by decide) lenient large ?_ ?_ ?_ ?_ ?_
    · intro reason kind result
      exact stopped reason kind (walked true ▸ result)
    · intro d name dir i index walks present found none
      rw [walked] at walks
      rw [first.volume] at present none
      exact untypedEntry creating d name dir i index walks present found none
    · intro next old shift
      exact endOp_undone (first.shift shift) (retained.frame shift.frame shift.store)
        fun final => failed final fun _ => creates old
    · intro ip next old _ shift ready
      exact rest ip next (fun _ => creates old) shift ready
    · intro d dir name ip i next target unused inside positive made second
      have links : linksFor tFile dir.nlink = 0 → dir.nlink = 0 :=
        fun none => by simpa [linksFor] using none
      have kept := retained.created target.present links second
      rw [first.volume] at unused
      rw [first.frame.sb] at inside
      rw [first.volume, first.frame.used, first.locks, pid] at second
      have total := first.toOutcome.trans second fun _ => id
      have openable : Openable os next ip
          ((os.store.volume.created d i dir name tFile).release (os.used os.refs) d) :=
        { total with
          opened := made.opened
          retained := kept }
      refine openFile_quiet quiet closed openable lenient ?_ ?_
      · intro final third ended
        have undone := third.toOutcome
        rw [total.volume] at undone
        exact lost d dir name i final creating (creatable _ _ _ target)
          unused inside positive (total.trans undone fun _ => id) ended
      · intro f fd middle
        exact opened _ next ip f fd middle openable
          (.inr ⟨d, dir, name, i, creating, creatable _ _ _ target, unused, inside, positive, rfl⟩)
  · have off : omode.testBit 9 = false := Bool.eq_false_iff.mpr plain
    rw [off] at stopped
    unfold namei
    simp only [wp_bind, wp_pure]
    refine namex_quiet first.sound first.cached first.refs cwd free retained
      (fun reason kind result => stopped reason kind (walked false ▸ result))
      ?_ ?_
    · intro next shift _
      exact endOp_undone (first.shift shift) (retained.frame shift.frame shift.store)
        fun final => failed final fun creating => absurd creating plain
    · intro ip last next shift result
      rw [walked] at result
      have held := pos_of_taken shift.refs (counted ip)
      have vol : next.store.volume = os.store.volume := by
        rw [shift.store, first.volume]
      simp only [Option.map_some, wp_bind, wp_getInode]
      refine wp_mono (ilock_spec shift.cached held (.of_free (by rw [shift.locks]; exact free ip))
        fun none => untyped off _ last result (vol ▸ volume_eq_none none)) ?_ fun _ => id
      rintro _ before ⟨lock, valid, -⟩
      have both : Shift os.refs begun before (os.refs + single ip 1)
          (update begun.locks ip (some begun.pid)) := by
        refine ⟨lock.cached, shift.frame.trans (lock.frame.mono ?_),
          lock.store.trans shift.store, lock.refs.trans shift.refs, ?_⟩
        · intro jp positive
          rw [shift.refs]
          exact pos_add_single positive
        · rw [lock.locks, shift.locks, shift.frame.pid]
      have ready : Open before ip := ⟨by rw [lock.refs]; exact held, valid⟩
      rw [wp_ite]
      refine ⟨fun _ => ?_, fun _ => rest ip before
        (fun creating => absurd creating plain) both ready⟩
      have second := both.undone first.sound
      rw [first.locks, pid] at second
      have total := first.trans second fun _ => id
      have stays := total.toOutcome.retained quiet.retained
      have present := ready.volume total.cached
      refine wp_bind_of (iunlockput_kept total.sound total.cached counted
        total.refs ⟨ready, rfl, present⟩
        (by rw [total.locks, update_self, total.frame.pid])
        (stays.mem_used present) lenient) ?_
      rintro _ released ⟨third, after⟩
      rw [total.locks, unlock_eq (quiet.unlocked ip)] at third
      refine endOp_undone (total.trans third fun _ => id) (after ?_)
        fun final => failed final fun creating => absurd creating plain
      rw [total.refs]
      exact stays.mono fun _ => pos_add_single

end Open

/-! ## Making nodes -/

section Make

/-- `sys_mkdir` and `sys_mknod`. -/
theorem makeNode_spec {argument : StringArgument} {path : List Byte}
    {type major minor : BitVec 16} (quiet : Quiet os) (current : 0 < os.refs os.cwd)
    (string : argstr argument = some path) (typed : type ≠ 0)
    (notFile : type ≠ tFile) (lenient : Lenient stops)
    (large : stops (.panic "dirlink")) (asleep : stops .asleep)
    (stopped : ∀ reason, WalkStop reason → os.walk os.refs path true = .error reason → stops reason)
    (untyped : ∀ d name dir i index, os.walk os.refs path true = .ok (some (d, name)) →
      os.store.volume d = some dir →
      lookup dir.entries name = some (i, index) →
      os.store.volume i = none → stops (.panic "ilock: no type"))
    (failed : ∀ next, Undone os.refs os next os.refs os.locks →
      Retained next os.refs → post (-1) next)
    (made : ∀ d dir name i next, Creatable os os.refs path d dir name →
      os.store.volume i = none → i < os.store.sb.ninodes → 0 < i →
      Outcome os.refs os next ((os.store.volume.created d i dir name type).release
          (os.used os.refs) d) os.refs os.locks →
      ((linksFor type dir.nlink = 0 → dir.nlink = 0) → Retained next os.refs) →
      post 0 next) : wp (makeNode argument type major minor) post stops os := by
  have counted := quiet.cached.counted
  unfold makeNode
  refine wp_bind_of (beginOp_spec quiet.sound quiet.cached fun _ => asleep) ?_
  intro _ begun begins
  rw [string]
  have first := begins os.refs
  have walked := first.toOutcome.walk_eq current path true
  have retained := first.toOutcome.retained quiet.retained
  dsimp only
  rw [wp_bind]
  refine create_quiet first.sound first.cached first.refs
    (fun _ => by rw [Kernel.cwd_frame first.frame]; exact current)
    (fun jp => by rw [first.locks]; exact quiet.unlocked jp) retained typed
    lenient large ?_ ?_ ?_ ?_ ?_
  · intro reason kind result
    exact stopped reason kind (walked ▸ result)
  · intro d name dir i index walks present found none
    rw [walked] at walks
    rw [first.volume] at present none
    exact untyped d name dir i index walks present found none
  · intro next _ shift
    exact endOp_undone (first.shift shift) (retained.frame shift.frame shift.store) failed
  · intro ip next _ file
    exact absurd file notFile
  · intro d dir name ip i next target unused inside positive new second
    have kept : (linksFor type dir.nlink = 0 → dir.nlink = 0) →
        Retained next os.refs :=
      fun links => retained.created target.present links second
    have creatable : Creatable os os.refs path d dir name :=
      ⟨walked ▸ target.walked, first.volume ▸ target.present, target.isDirectory, target.absent⟩
    rw [first.volume] at unused
    rw [first.frame.sb] at inside
    rw [first.volume, first.frame.used, first.locks, first.frame.pid] at second
    have total := first.toOutcome.trans second fun _ => id
    dsimp only
    refine wp_bind_of (iunlockput_kept total.sound total.cached counted total.refs new
      (by rw [total.locks, update_self, total.frame.pid])
      (fun none => absurd none (by simp [newNode])) lenient) ?_
    rintro _ released ⟨third, -⟩
    have undone := third.toOutcome
    rw [total.volume, total.locks, unlock_eq (quiet.unlocked ip)] at undone
    refine wp_bind_of (endOp_spec undone.sound undone.cached) ?_
    intro _ final last
    have ended := (last os.refs).toOutcome
    rw [undone.volume, undone.refs, undone.locks] at ended
    refine made d dir name i final creatable unused inside positive
      ((total.trans undone fun _ => id).trans ended fun _ => id) fun links => ?_
    have now := (kept links)
    have after : Outcome os.refs next final next.store.volume os.refs os.locks := by
      rw [total.volume]
      exact undone.trans ended fun _ => id
    exact after.retained now

end Make

/-! ## Changing the current directory -/

section Chdir

theorem sysChdir_spec {argument : StringArgument} {path : List Byte}
    (quiet : Quiet os) (current : 0 < os.refs os.cwd)
    (string : argstr argument = some path) (lenient : Lenient stops) (asleep : stops .asleep)
    (stopped : ∀ reason, WalkStop reason →
      os.walk os.refs path false = .error reason → stops reason)
    (untyped : ∀ i last, os.walk os.refs path false = .ok (some (i, last)) →
      os.store.volume i = none → stops (.panic "ilock: no type"))
    (failed : ∀ next, Undone os.refs os next os.refs os.locks →
      Retained next os.refs → post (-1) next)
    (changed : ∀ ip node base before next,
      Undone os.refs os before (os.refs + single ip 1) os.locks →
      At before ip (before.inum ip) node → node.type = tDir →
      base + single os.cwd 1 = os.refs + single ip 1 →
      (∀ jp, 0 ≤ base jp) →
      Outcome base before next (os.store.volume.release (before.used base)
          (os.inum os.cwd)) base os.locks →
      Retained next base →
      post 0 (next.setProc { next.procs next.cur with cwd := ip })) :
    wp (sysChdir argument) post stops os := by
  have counted := quiet.cached.counted
  unfold sysChdir
  refine wp_bind_of (beginOp_spec quiet.sound quiet.cached fun _ => asleep) ?_
  intro _ begun begins
  rw [string]
  have first := begins os.refs
  have walked := first.toOutcome.walk_eq current path false
  have retained := first.toOutcome.retained quiet.retained
  unfold namei
  simp only [wp_bind, wp_pure]
  refine namex_quiet first.sound first.cached first.refs
    (fun _ => by rw [Kernel.cwd_frame first.frame]; exact current)
    (fun jp => by rw [first.locks]; exact quiet.unlocked jp) retained
    (fun reason kind result => stopped reason kind (walked ▸ result)) ?_ ?_
  · intro next shift _
    exact endOp_undone (first.shift shift) (retained.frame shift.frame shift.store) failed
  intro ip last next shift result
  rw [walked] at result
  have found := first.shift shift
  have held := pos_of_taken shift.refs (counted ip)
  have weaken := pos_of_taken_base shift.refs
  simp only [Option.map_some, wp_bind, wp_getInode]
  refine wp_mono (ilock_found found.sound found.cached held rfl
    (by rw [found.locks]; exact quiet.unlocked ip)
    fun none => untyped _ last result (found.volume ▸ none)) ?_ fun _ => id
  rintro _ locked ⟨node, present, here, third⟩
  rw [found.locks, found.frame.pid] at third
  have all := found.trans third weaken
  have counts : locked.refs = os.refs + single ip 1 := third.refs.trans shift.refs
  have byUs : locked.locks ip = some locked.pid := by
    rw [all.locks, update_self, all.frame.pid]
  have stays := all.toOutcome.retained quiet.retained
  have back : update locked.locks ip none = os.locks := by
    rw [all.locks]
    exact unlock_eq (quiet.unlocked ip)
  rw [here.type third.cached, wp_ite]
  refine ⟨fun _ => ?_, fun dir => ?_⟩
  · refine wp_bind_of (iunlockput_kept third.sound third.cached counted counts
      here byUs (stays.mem_used here.node) lenient) ?_
    rintro _ released ⟨fourth, after⟩
    rw [back] at fourth
    refine endOp_undone (all.trans fourth fun _ => id) (after ?_) failed
    rw [counts]
    exact stays.mono fun _ => pos_add_single
  -- The reference to the old directory is given up.
  refine wp_bind_of (iunlock_spec third.cached here.opened.held byUs) ?_
  intro _ before unlock
  rw [back, counts] at unlock
  have fourth := unlock.undone third.sound
  have ready := all.trans fourth fun jp positive => pos_add_single positive
  have there : At before ip (before.inum ip) node := by
    have at' := here.after fourth.toOutcome (by rw [← counts]; exact here.opened.held)
      (by rw [← counts]; exact here.opened.held) here.node
    rw [← at'.number] at at'
    exact at'
  have cwd : before.cwd = os.cwd := Kernel.cwd_frame ready.frame
  obtain ⟨base, total⟩ : ∃ base : Slot → Int,
      base + single os.cwd 1 = os.refs + single ip 1 :=
    ⟨os.refs + single ip 1 - single os.cwd 1, sub_add_cancel ..⟩
  have positive : ∀ jp, 0 ≤ base jp := by
    intro jp
    have sum := congrFun total jp
    have before : 0 ≤ (os.refs + single ip 1 : Slot → Int) jp := nonneg_add_single (counted jp)
    by_cases same : jp = os.cwd
    · subst same
      have more : 0 < (os.refs + single ip 1 : Slot → Int) os.cwd := pos_add_single current
      rw [Pi.add_apply, Pi.single_eq_same] at sum
      omega
    · rw [Pi.add_apply, Pi.single_eq_of_ne same, add_zero] at sum
      omega
  have keeps : Retained before before.refs := by
    rw [ready.refs]
    exact (ready.toOutcome.retained quiet.retained).mono
      fun _ => pos_add_single
  rw [wp_bind, wp_get]
  change wp (do iput before.cwd; _) _ _ _
  rw [cwd, wp_bind]
  refine wp_mono (iput_release ready.sound ready.cached positive
    (ready.refs.trans total.symm) (ready.frame.inum _ current) ?_
    (by rw [ready.locks]; exact quiet.unlocked _) lenient) ?_ fun _ => id
  · intro old oldPresent unlinked
    obtain ⟨jp, jpHeld, same, valid⟩ := keeps _ old oldPresent unlinked
    have equal : jp = os.cwd := ready.cached.unique jp os.cwd jpHeld
      (by rw [ready.refs]; exact pos_add_single current)
      (same.trans (ready.frame.inum _ current).symm)
    exact equal ▸ valid
  rintro _ dropped ⟨fifth, after, -⟩
  rw [ready.volume, ready.locks] at fifth
  refine wp_bind_of (endOp_spec fifth.sound fifth.cached) ?_
  intro _ ended finish
  have final := (finish base).toOutcome
  rw [fifth.volume, fifth.refs, fifth.locks] at final
  rw [wp_bind, wp_modify]
  exact changed ip node base before ended ready there (not_not.mp dir)
    total positive (fifth.trans final fun _ => id)
    ((finish base).toOutcome.retained (after keeps))

end Chdir

end Xv6.Fs
