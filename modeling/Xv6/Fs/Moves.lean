import Xv6.Fs.Sessions

/-!
# The types of inodes in use

Whatever the link counts are, calls keep the cache consistent with the disk, and
an inode in use keeps its type.
-/

namespace Xv6.Fs

open Function Foundation.Program
open Pi (single)

/-- An open inode of a type. -/
structure OpenAs (os : Kernel) (ip : Slot) (type : BitVec 16) : Prop
    extends Open os ip where
  type : (os.icache ip).dinode.type = type

/-- The state is consistent after a part of a call.  Inodes that `base` counts
references to are still open, and have their numbers and types. -/
structure Settles (base : Slot → Int) (os next : Kernel) : Prop where
  sound : Sound next.store
  cached : Cached next
  inum : ∀ jp, 0 < base jp → next.inum jp = os.inum jp
  keeps : ∀ jp type, 0 < base jp → OpenAs os jp type → OpenAs next jp type

/-- A part of a call that leaves the tables of processes and of files alone. -/
structure Moves (base : Slot → Int) (os next : Kernel)
    (refs : Slot → Int) (locks : Slot → Option Nat) : Prop
    extends Settles base os next where
  frame : Frame 0 os next
  refs : next.refs = refs
  locks : next.locks = locks

section Moves

variable {base base' refs refs' : Slot → Int} {os middle next : Kernel}
variable {locks locks' : Slot → Option Nat} {volume : Volume}

theorem Settles.trans (first : Settles base os middle)
    (second : Settles base middle next) : Settles base os next where
  sound := second.sound
  cached := second.cached
  inum := fun jp based => (second.inum jp based).trans (first.inum jp based)
  keeps := fun jp type based opened =>
    second.keeps jp type based (first.keeps jp type based opened)

theorem Settles.mono (settles : Settles base os next)
    (fewer : ∀ jp, 0 < base' jp → 0 < base jp) : Settles base' os next :=
  { settles with
    inum := fun jp based => settles.inum jp (fewer jp based)
    keeps := fun jp type based => settles.keeps jp type (fewer jp based) }

/-- Only other tables are changed. -/
theorem Settles.of_outer (sound : Sound os.store) (cached : Cached os)
    (store : next.store = os.store) (icache : next.icache = os.icache) : Settles base os next where
  sound := by
    rw [store]
    exact sound
  cached := cached.outer store icache
  inum := fun jp _ => by
    unfold Kernel.inum
    rw [icache]
  keeps := fun jp type _ opened => by
    refine ⟨⟨?_, ?_⟩, ?_⟩
    · have held := opened.held
      unfold Kernel.refs at held ⊢
      rw [icache]
      exact held
    · rw [icache]
      exact opened.valid
    · rw [icache]
      exact opened.type

theorem Moves.refl (sound : Sound os.store) (cached : Cached os) :
    Moves base os os os.refs os.locks where
  toSettles := .of_outer sound cached rfl rfl
  frame := .refl 0 os
  refs := rfl
  locks := rfl

theorem Moves.trans (first : Moves base os middle refs locks)
    (second : Moves base middle next refs' locks') : Moves base os next refs' locks' where
  toSettles := first.toSettles.trans second.toSettles
  frame := first.frame.trans second.frame
  refs := second.refs
  locks := second.locks

theorem Moves.mono (moves : Moves base os next refs locks)
    (fewer : ∀ jp, 0 < base' jp → 0 < base jp) : Moves base' os next refs locks :=
  { moves with toSettles := moves.toSettles.mono fewer }

/-- A change of the volume that does not change types. -/
theorem Outcome.moves (outcome : Outcome base os next volume refs locks)
    (cached : Cached os) (held : ∀ jp, 0 < base jp → 0 < refs jp)
    (types : ∀ jp, 0 < base jp → Open os jp → (volume (os.inum jp)).map Node.type =
        (os.store.volume (os.inum jp)).map Node.type) : Moves base os next refs locks where
  sound := outcome.sound
  cached := outcome.cached
  inum := outcome.frame.inum
  frame := outcome.frame.mono fun _ positive => absurd positive (lt_irrefl 0)
  refs := outcome.refs
  locks := outcome.locks
  keeps := by
    intro jp type based opened
    have after : Open next jp := opened.toOpen.frame outcome.frame based (by
      rw [outcome.refs]
      exact held jp based)
    refine ⟨after, ?_⟩
    have same := types jp based opened.toOpen
    rw [← outcome.volume, ← outcome.frame.inum jp based,
      after.volume outcome.cached, outcome.frame.inum jp based,
      opened.toOpen.volume cached] at same
    exact (Option.some.inj same).trans opened.type

theorem Shift.moves (shift : Shift base os next refs locks)
    (sound : Sound os.store) (cached : Cached os)
    (held : ∀ jp, 0 < base jp → 0 < refs jp) : Moves base os next refs locks :=
  (shift.outcome sound).moves cached held fun _ _ _ => rfl

end Moves

variable {ip dp : Slot} {os : Kernel}

section Parts

theorem anyhow_waits (jp : Slot) : Waits Anyhow os jp := by
  intro holder _
  split <;> trivial

section

variable (sound : Sound os.store) (cached : Cached os)
include sound cached

theorem beginOp_moves : wp (onStore beginOp)
      (fun _ next => Moves os.refs os next os.refs os.locks)
      Anyhow os := by
  refine wp_mono (beginOp_spec sound cached fun _ => trivial) ?_ fun _ => id
  intro _ next begins
  exact (begins os.refs).toOutcome.moves cached (fun _ => id)
    fun _ _ _ => rfl

theorem endOp_moves : wp (onStore endOp)
      (fun _ next => Moves os.refs os next os.refs os.locks)
      Anyhow os := by
  refine wp_mono (endOp_spec sound cached) ?_ fun _ => id
  intro _ next ends
  exact (ends os.refs).toOutcome.moves cached (fun _ => id)
    fun _ _ _ => rfl

theorem ilock_moves (held : 0 < os.refs ip) :
    wp (ilock ip)
      (fun _ next =>
        Moves os.refs os next os.refs (update os.locks ip (some os.pid)) ∧
        Open next ip ∧ os.locks ip = none)
      Anyhow os := by
  refine wp_mono (ilock_spec cached held (anyhow_waits ip) fun _ => trivial) ?_
    fun _ => id
  rintro _ next ⟨shift, valid, free⟩
  refine ⟨shift.moves sound cached fun _ => id, ⟨?_, valid⟩, free⟩
  rw [shift.refs]
  exact held

theorem iunlock_moves (held : 0 < os.refs ip) (locked : os.locks ip = some os.pid) :
    wp (iunlock ip) (fun _ next => Moves os.refs os next os.refs
        (update os.locks ip none))
      Anyhow os :=
  wp_mono (iunlock_spec cached held locked)
    (fun _ _ shift => shift.moves sound cached fun _ => id) fun _ => id

end

/-- An inode that is still referred to is not freed. -/
theorem dropped_types (cached : Cached os) (held : 0 < os.refs ip)
    (jp : Slot) (based : 0 < (os.refs - single ip 1 : Slot → Int) jp) :
    os.dropped ip (os.inum jp) = os.store.volume (os.inum jp) := by
  unfold Kernel.dropped
  split
  case isFalse => rfl
  case isTrue frees =>
    refine update_of_ne (fun same => ?_) _ _
    have heldJ := pos_of_sub_single based
    have here : jp = ip := cached.unique jp ip heldJ held same
    have last : os.refs ip = 1 := frees.2.2
    rw [here, Pi.sub_apply, Pi.single_eq_same, last] at based
    exact absurd based (lt_irrefl 0)

section

variable (sound : Sound os.store) (cached : Cached os)
include sound cached

theorem iput_moves (held : 0 < os.refs ip) :
    wp (iput ip) (fun _ next => Moves (os.refs - single ip 1) os next
        (os.refs - single ip 1) os.locks)
      Anyhow os := by
  refine wp_mono (iput_spec sound cached held (anyhow_waits ip)
    fun _ => lenient_anyhow) ?_ fun _ => id
  rintro _ next ⟨outcome, -⟩
  refine outcome.moves cached (fun _ => id) fun jp based _ => ?_
  rw [dropped_types cached held jp based]

theorem iunlockput_moves (held : 0 < os.refs ip) (locked : os.locks ip = some os.pid) :
    wp (iunlockput ip) (fun _ next => Moves (os.refs - single ip 1) os next
        (os.refs - single ip 1) (update os.locks ip none))
      Anyhow os := by
  unfold iunlockput
  refine wp_bind_of (iunlock_moves sound cached held locked) ?_
  intro _ middle first
  refine wp_mono (iput_moves first.sound first.cached
    (by rw [first.refs]; exact held)) ?_ fun _ => id
  intro _ next second
  rw [first.refs, first.locks] at second
  exact (first.mono fun _ => pos_of_sub_single).trans second

theorem dirlookup_moves (opened : Open os dp) {name : List Byte}
    {post : Option (Slot × Nat) → Kernel → Prop} (missing : post none os)
    (found : ∀ ip index next, (os.icache dp).dinode.type = tDir →
      Moves os.refs os next (os.refs + single ip 1) os.locks →
      post (some (ip, direntSize * index)) next) : wp (dirlookup dp name) post Anyhow os := by
  by_cases dir : (os.icache dp).dinode.type = tDir
  · refine dirlookup_spec sound cached ⟨opened, dir⟩
      (fun _ _ _ _ => trivial) (fun _ => missing) ?_
    intro ip inum index next _ shift _ _ _
    exact found ip index next dir (shift.moves sound cached fun _ => pos_add_single)
  · unfold dirlookup
    rw [wp_bind, wp_getInode, if_pos dir]
    trivial

theorem dirlink_moves (opened : Open os dp) {name : List Byte} {inum : Nat}
    (inside : inum < os.store.sb.ninodes) :
    wp (dirlink dp name inum) (fun _ next => Moves os.refs os next os.refs os.locks)
      Anyhow os := by
  by_cases dir : (os.icache dp).dinode.type = tDir
  · refine dirlink_spec sound cached opened (opened.volume cached) dir
      inside lenient_anyhow trivial (fun jp _ _ _ _ => anyhow_waits jp) ?_ ?_
    · intro other index next _ shift _
      exact shift.moves sound cached fun _ => id
    · intro next _ outcome
      refine outcome.moves cached (fun _ => id) fun jp held openedJ => ?_
      by_cases here : os.inum jp = os.inum dp
      · rw [here, update_self, opened.volume cached]
        rfl
      · rw [update_of_ne here]
  · unfold dirlink dirlookup
    simp only [wp_bind, wp_getInode, if_pos dir]
    trivial

/-- A link count is changed. -/
theorem relink_moves (opened : Open os ip) (change : BitVec 16 → BitVec 16) :
    wp (do
        modifyDinode ip fun dinode =>
          { dinode with nlink := change dinode.nlink }
        iupdate ip)
      (fun _ next => Moves os.refs os next os.refs os.locks)
      Anyhow os := by
  have here : At os ip (os.inum ip) ((os.icache ip).dinode.node os.store.blocks) :=
    ⟨opened, rfl, opened.volume cached⟩
  simp only [wp_bind, wp_modifyDinode]
  refine wp_mono (iupdate_nlink_spec sound cached here rfl rfl rfl lenient_anyhow) ?_ fun _ => id
  intro _ next outcome
  refine outcome.moves cached (fun _ => id) fun jp held openedJ => ?_
  by_cases same : os.inum jp = os.inum ip
  · rw [same, update_self, here.node]
    rfl
  · rw [update_of_ne same]

end

end Parts

/-! ## Paths -/

/-- What `namex` returns: nothing, or an inode with a reference. -/
def Found (base : Slot → Int) (os : Kernel)
    (result : Option (Slot × List Byte)) (next : Kernel) : Prop :=
  match result with
  | none => Moves base os next base os.locks
  | some (jp, _) => Moves base os next (base + Pi.single jp 1) os.locks

section Paths

variable {base : Slot → Int} {parent : Bool}

theorem Found.after {middle next : Kernel} {result : Option (Slot × List Byte)}
    {refs : Slot → Int} (found : Found base middle result next)
    (first : Moves base os middle refs os.locks) : Found base os result next := by
  cases result with
  | none =>
    have second : Moves base middle next base middle.locks := found
    rw [first.locks] at second
    exact first.trans second
  | some pair =>
    have second : Moves base middle next (base + single pair.1 1) middle.locks := found
    rw [first.locks] at second
    exact first.trans second

/-- An inode that is locked is unlocked and given up. -/
theorem Moves.iunlockput {locked : Kernel} {refs : Slot → Int} {locks : Slot → Option Nat}
    (moves : Moves base os locked (refs + single ip 1) (update locks ip (some os.pid)))
    (fewer : ∀ jp, 0 < base jp → 0 < refs jp) (counted : 0 ≤ refs ip) (free : locks ip = none) :
    wp (iunlockput ip) (fun _ next => Moves base os next refs locks) Anyhow locked := by
  refine wp_mono (iunlockput_moves moves.sound moves.cached ?_ ?_) ?_
    fun _ => id
  · rw [moves.refs]
    exact pos_add_single_self counted
  · rw [moves.locks, update_self, moves.frame.pid]
  · intro _ next last
    rw [moves.refs, add_sub_cancel_right, moves.locks, unlock_eq free] at last
    exact moves.trans (last.mono fewer)

variable {name path : List Byte}

section

variable (sound : Sound os.store) (cached : Cached os)
include sound cached

theorem namexLoop_moves {fuel : Nat} (counted : ∀ jp, 0 ≤ base jp)
    (refs : os.refs = base + single ip 1) (enough : path.length < fuel) :
    wp (namexLoop parent fuel path ip name) (Found base os) Anyhow os := by
  induction fuel generalizing os ip path name with
  | zero => omega
  | succ fuel ih =>
    have held := pos_of_taken refs (counted ip)
    have weaken := pos_of_taken_base refs
    unfold namexLoop
    cases element : skipelem path with
    | none =>
      dsimp only
      rw [wp_ite]
      refine ⟨fun _ => ?_, fun _ => ?_⟩
      · rw [wp_bind]
        refine wp_mono (iput_moves sound cached held) ?_ fun _ => id
        intro _ next moves
        rw [refs, add_sub_cancel_right] at moves
        exact moves
      · have stays : Moves base os os _ _ := .refl sound cached
        rw [refs] at stays
        exact stays
    | some pair =>
      obtain ⟨name, path⟩ := pair
      have shorter := length_skipelem element
      dsimp only
      refine wp_bind_of (ilock_moves sound cached held) ?_
      rintro _ locked ⟨taken, opened, free⟩
      have first := taken.mono weaken
      rw [refs] at first
      have ends : wp (do iunlockput ip; return none) (Found base os)
          Anyhow locked :=
        wp_bind_of (first.iunlockput (fun _ => id) (counted ip) free)
          fun _ _ moves => moves
      simp only [wp_bind, wp_getInode]
      rw [wp_ite]
      refine ⟨fun _ => ends, fun _ => ?_⟩
      rw [wp_ite]
      refine ⟨fun _ => ?_, fun _ => ?_⟩
      · refine (wp_bind _ _).mpr (wp_mono (iunlock_moves first.sound
          first.cached ?_ ?_) ?_ fun _ => id)
        · rw [first.refs, ← refs]
          exact held
        · rw [first.locks, update_self, first.frame.pid]
        · intro _ next last
          rw [first.refs, first.locks, unlock_eq free] at last
          exact first.trans (last.mono fun jp => pos_add_single)
      · rw [wp_bind]
        refine dirlookup_moves first.sound first.cached opened ends ?_
        intro jp index next _ got
        dsimp only
        rw [first.refs, first.locks] at got
        have second := first.trans (got.mono fun jp => pos_add_single)
        rw [add_right_comm] at second
        refine wp_bind_of (second.iunlockput (fun jp => pos_add_single)
          (nonneg_add_single (counted ip)) free) ?_
        intro _ put third
        refine wp_mono (ih third.sound third.cached third.refs (by omega)) ?_ fun _ => id
        intro result final found
        exact found.after third

theorem namex_moves (current : 0 < os.refs os.cwd) :
    wp (namex path parent) (Found os.refs os) Anyhow os := by
  have rest : ∀ ip next, Shift os.refs os next (os.refs + single ip 1) os.locks →
      wp (namexLoop parent (path.length + 1) path ip [])
        (Found os.refs os) Anyhow next := by
    intro ip next shift
    have first := shift.moves sound cached fun _ => pos_add_single
    refine wp_mono (namexLoop_moves first.sound first.cached cached.counted
      first.refs (Nat.lt_succ_self path.length)) ?_ fun _ => id
    intro result final found
    exact found.after first
  unfold namex
  dsimp only
  by_cases absolute : path.head? = some slash
  · rw [if_pos absolute, wp_bind]
    refine wp_mono (iget_spec cached sound.valid.root fun _ => trivial) ?_
      fun _ => id
    rintro ip next ⟨shift, -⟩
    exact rest ip next shift
  · rw [if_neg absolute, wp_bind, wp_get, wp_bind]
    refine wp_mono (idup_spec cached current) ?_ fun _ => id
    rintro _ next ⟨rfl, shift⟩
    exact rest _ next shift

theorem namei_moves {post : Option Slot → Kernel → Prop} (current : 0 < os.refs os.cwd)
    (missing : ∀ next, Moves os.refs os next os.refs os.locks → post none next)
    (found : ∀ ip next, Moves os.refs os next (os.refs + single ip 1)
        os.locks → post (some ip) next) : wp (namei path) post Anyhow os := by
  unfold namei
  rw [wp_bind]
  refine wp_mono (namex_moves sound cached current) ?_ fun _ => id
  intro result next walked
  cases result with
  | none => exact missing next walked
  | some pair => exact found pair.1 next walked

end

/-- What `create` returns: nothing, or a locked inode of the type. -/
def Made (type : BitVec 16) (base : Slot → Int) (os : Kernel)
    (result : Option Slot) (next : Kernel) : Prop :=
  match result with
  | none => Moves base os next base os.locks
  | some ip =>
    Moves base os next (base + Pi.single ip 1)
      (Function.update os.locks ip (some os.pid)) ∧
    OpenAs next ip type ∧ os.locks ip = none

/-- Making an inode does not change the types of others. -/
theorem created_types {dir : Node} {type : BitVec 16} {i : Nat}
    (cached : Cached os) (opened : Open os dp)
    (present : os.store.volume (os.inum dp) = some dir) (absent : os.store.volume i = none)
    {jp : Slot} (based : 0 < (os.refs - single dp 1 : Slot → Int) jp) (openedJ : Open os jp) :
    (((os.store.volume.created (os.inum dp) i dir name type).drop
      (os.inum dp) (linksFor type dir.nlink) (os.refs dp))
        (os.inum jp)).map Node.type =
      (os.store.volume (os.inum jp)).map Node.type := by
  have nodeJ := openedJ.volume cached
  have notNew : os.inum jp ≠ i := by
    rintro same
    rw [same, absent] at nodeJ
    cases nodeJ
  by_cases here : os.inum jp = os.inum dp
  · have same : jp = dp := cached.unique jp dp openedJ.held opened.held here
    rw [same, Pi.sub_apply, Pi.single_eq_same] at based
    have more : ¬ (linksFor type dir.nlink = 0 ∧ os.refs dp = 1) :=
      fun last => by omega
    unfold Volume.drop Volume.created
    rw [if_neg more, here, update_self, present]
    rfl
  · rw [Volume.drop_of_ne here]
    unfold Volume.created
    rw [update_of_ne here, update_of_ne notNew]

variable {type major minor : BitVec 16}

theorem createIn_moves (sound : Sound os.store) (cached : Cached os) (counted : ∀ jp, 0 ≤ base jp)
    (refs : os.refs = base + single dp 1) (typed : type ≠ 0) :
    wp (createIn dp name type major minor) (Made type base os) Anyhow os := by
  have held := pos_of_taken refs (counted dp)
  have weaken := pos_of_taken_base refs
  unfold createIn
  refine wp_bind_of (ilock_moves sound cached held) ?_
  rintro _ locked ⟨taken, opened, free⟩
  have first := taken.mono weaken
  rw [refs] at first
  have pid : locked.pid = os.pid := first.frame.pid
  by_cases dir : (locked.icache dp).dinode.type = tDir
  case neg =>
    unfold dirlookup
    simp only [wp_bind, wp_getInode, if_pos dir]
    trivial
  have openDirectory : OpenDirectory locked dp := ⟨opened, dir⟩
  rw [wp_bind]
  refine dirlookup_spec first.sound first.cached openDirectory
    (fun _ _ _ _ => trivial) (fun absent => ?_) ?_
  · have present := opened.volume first.cached
    have entries := openDirectory.entries first.cached present
    rw [entries] at absent
    have parent : At locked dp (locked.inum dp) _ := ⟨opened, rfl, present⟩
    dsimp only
    rw [wp_bind]
    refine wp_mono (createNew_spec first.sound first.cached parent dir
      ?_ absent typed (fun jp _ => anyhow_waits jp) lenient_anyhow trivial) ?_
      fun _ => id
    · rw [first.locks, update_self, pid]
    rintro ip next ⟨i, unused, inside, positive, unlocked, made, outcome⟩
    have fewer : (locked.refs - single dp 1 : Slot → Int) = base := by
      rw [first.refs, add_sub_cancel_right]
    have second := outcome.moves first.cached (fun _ => pos_add_single)
      fun jp based openedJ =>
        created_types first.cached opened present unused based openedJ
    rw [fewer, first.locks, unlock_eq free, pid] at second
    refine ⟨first.trans second, ⟨made.opened, ?_⟩, ?_⟩
    · exact made.type outcome.cached
    · by_cases same : ip = dp
      · rw [same]
        exact free
      · rw [first.locks, update_of_ne same] at unlocked
        exact unlocked
  · intro ip inum index next _ shift _ _ _
    have got := shift.moves first.sound first.cached fun _ => pos_add_single
    rw [first.refs, first.locks] at got
    have second := first.trans (got.mono fun jp => pos_add_single)
    rw [add_right_comm] at second
    dsimp only
    refine wp_bind_of (second.iunlockput (fun jp => pos_add_single)
      (nonneg_add_single (counted dp)) free) ?_
    intro _ put third
    refine wp_bind_of (ilock_moves third.sound third.cached ?_) ?_
    · rw [third.refs]
      exact pos_add_single_self (counted ip)
    rintro _ final ⟨last, openedIp, freeIp⟩
    rw [third.refs, third.locks, third.frame.pid] at last
    rw [third.locks] at freeIp
    have fourth := third.trans (last.mono fun jp => pos_add_single)
    rw [wp_bind, wp_getInode, wp_ite]
    refine ⟨fun file => ?_, fun _ => ?_⟩
    · exact ⟨fourth, ⟨openedIp, file.2.trans file.1.symm⟩, freeIp⟩
    · refine wp_bind_of (fourth.iunlockput (fun _ => id) (counted ip) freeIp) ?_
      exact fun _ _ moves => moves

theorem create_moves (sound : Sound os.store) (cached : Cached os)
    (current : 0 < os.refs os.cwd) (typed : type ≠ 0) :
    wp (create path type major minor) (Made type os.refs os) Anyhow os := by
  unfold create nameiparent
  refine wp_bind_of (namex_moves sound cached current) ?_
  intro result middle found
  cases result with
  | none => exact found
  | some pair =>
    have first : Moves os.refs os middle
      (os.refs + single pair.1 1) os.locks := found
    refine wp_mono (createIn_moves first.sound first.cached cached.counted
      first.refs typed) ?_ fun _ => id
    intro result next made
    cases result with
    | none =>
      have second : Moves os.refs middle next os.refs middle.locks := made
      rw [first.locks] at second
      exact first.trans second
    | some ip =>
      obtain ⟨second, opened, free⟩ := made
      rw [first.locks, first.frame.pid] at second
      rw [first.locks] at free
      exact ⟨first.trans second, opened, free⟩

end Paths

/-! ## Calls that leave open files alone -/

section Calls

variable {os middle : Kernel} {base refs : Slot → Int} {locks : Slot → Option Nat} {α : Type}

/-- The end of a call. -/
theorem Moves.endOp {result : α} (moves : Moves base os middle refs locks)
    (fewer : ∀ jp, 0 < base jp → 0 < refs jp) :
    wp (do onStore Fs.endOp; return result)
      (fun _ next => Moves base os next refs locks) Anyhow middle := by
  refine wp_bind_of (endOp_moves moves.sound moves.cached) ?_
  intro _ next last
  rw [moves.refs, moves.locks] at last
  exact moves.trans (last.mono fewer)

/-- A locked inode is given up, and the call ends. -/
theorem Moves.leave {result : α}
    (moves : Moves base os middle (refs + single ip 1) (update locks ip (some os.pid)))
    (fewer : ∀ jp, 0 < base jp → 0 < refs jp) (counted : 0 ≤ refs ip) (free : locks ip = none) :
    wp (do Fs.iunlockput ip; onStore Fs.endOp; return result)
      (fun _ next => Moves base os next refs locks) Anyhow middle := by
  refine wp_bind_of (moves.iunlockput fewer counted free) ?_
  exact fun _ _ after => after.endOp fewer

theorem Moves.cwd (moves : Moves base os middle refs locks) : middle.cwd = os.cwd :=
  Kernel.cwd_frame moves.frame

variable {post : α → Kernel → Prop}

/-- The first part of a call. -/
theorem beginOp_then {rest : KernelM α} (sound : Sound os.store) (cached : Cached os)
    (continues : ∀ begun, Moves os.refs os begun os.refs os.locks →
      wp rest post Anyhow begun) : wp (do onStore beginOp; rest) post Anyhow os :=
  wp_bind_of (beginOp_moves sound cached) fun _ => continues

/-- A path is followed after the first part of a call. -/
theorem Moves.namei {path : List Byte} {post : Option Slot → Kernel → Prop}
    (first : Moves os.refs os middle os.refs os.locks) (current : 0 < os.refs os.cwd)
    (missing : ∀ next, Moves os.refs os next os.refs os.locks → post none next)
    (found : ∀ ip next, Moves os.refs os next (os.refs + single ip 1)
        os.locks → post (some ip) next) : wp (Fs.namei path) post Anyhow middle := by
  refine namei_moves first.sound first.cached (by rw [first.refs, first.cwd]; exact current) ?_ ?_
  · intro next second
    rw [first.refs, first.locks] at second
    exact missing next (first.trans second)
  · intro ip next second
    rw [first.refs, first.locks] at second
    exact found ip next (first.trans second)

/-- The inode that was found is locked. -/
theorem Moves.ilock {rest : KernelM α}
    (walked : Moves base os middle (base + single ip 1) locks) (counted : 0 ≤ base ip)
    (continues : ∀ locked, Moves base os locked (base + single ip 1)
        (update locks ip (some os.pid)) →
      Open locked ip → locks ip = none → wp rest post Anyhow locked) :
    wp (do Fs.ilock ip; rest) post Anyhow middle := by
  refine wp_bind_of (ilock_moves walked.sound walked.cached ?_) ?_
  · rw [walked.refs]
    exact pos_add_single_self counted
  rintro _ locked ⟨taken, opened, free⟩
  rw [walked.refs, walked.locks, walked.frame.pid] at taken
  rw [walked.locks] at free
  exact continues locked (walked.trans (taken.mono fun jp => pos_add_single)) opened free

variable {path : StringArgument}

theorem makeNode_moves {type major minor : BitVec 16} (sound : Sound os.store) (cached : Cached os)
    (current : 0 < os.refs os.cwd) (typed : type ≠ 0) :
    wp (makeNode path type major minor)
      (fun _ next => Moves os.refs os next os.refs os.locks)
      Anyhow os := by
  unfold makeNode
  refine beginOp_then sound cached fun begun first => ?_
  cases string : argstr path with
  | none => exact first.endOp fun _ => id
  | some path =>
    dsimp only
    refine wp_bind_of (create_moves first.sound first.cached
      (by rw [first.refs, first.cwd]; exact current) typed) ?_
    intro result made created
    rw [first.refs] at created
    cases result with
    | none =>
      have second : Moves os.refs begun made os.refs begun.locks := created
      rw [first.locks] at second
      exact (first.trans second).endOp fun _ => id
    | some ip =>
      obtain ⟨second, -, free⟩ := created
      rw [first.locks, first.frame.pid] at second
      rw [first.locks] at free
      exact (first.trans second).leave (fun _ => id) (cached.counted ip) free

theorem unlinkEnd_moves (sound : Sound middle.store) (cached : Cached middle)
    (counted : ∀ jp, 0 ≤ base jp) (refs : middle.refs = base + single ip 1 + single dp 1)
    (opened : Open middle ip) (apart : ip ≠ dp)
    (freeDp : locks dp = none) (freeIp : locks ip = none)
    (locked : middle.locks = update (update locks dp (some middle.pid)) ip (some middle.pid)) :
    wp (unlinkEnd dp ip) (fun _ next => Moves base middle next base locks) Anyhow middle := by
  have held : 0 < middle.refs dp := by
    rw [refs]
    exact pos_add_single_self (nonneg_add_single (counted dp))
  unfold unlinkEnd
  refine wp_bind_of (iunlockput_moves sound cached held ?_) ?_
  · rw [locked, update_of_ne apart.symm, update_self]
  intro _ put first
  rw [refs, add_sub_cancel_right] at first
  have opened₁ : OpenAs put ip _ :=
    first.keeps ip _ (pos_add_single_self (counted ip)) ⟨opened, rfl⟩
  rw [← bind_assoc]
  refine wp_bind_of (relink_moves first.sound first.cached opened₁.toOpen fun nlink => nlink - 1) ?_
  intro _ written second
  rw [first.refs] at second
  rw [first.locks, locked, update_comm apart, unlock_eq freeDp] at second
  exact ((first.trans second).mono fun jp => pos_add_single).leave (fun _ => id) (counted ip) freeIp

section

variable (sound : Sound os.store) (cached : Cached os)
include sound cached

/-- Whatever was written, both inodes are given up. -/
theorem unlinkEntry_moves {index : Nat} (counted : ∀ jp, 0 ≤ base jp)
    (refs : os.refs = base + single ip 1 + single dp 1)
    (openedDp : OpenDirectory os dp) (opened : Open os ip)
    (apart : ip ≠ dp) (freeDp : locks dp = none) (freeIp : locks ip = none)
    (locked : os.locks = update (update locks dp (some os.pid)) ip (some os.pid)) :
    wp (unlinkEntry dp ip (direntSize * index))
      (fun _ next => Moves base os next base locks) Anyhow os := by
  have rest : ∀ middle, Moves os.refs os middle os.refs os.locks →
      wp (unlinkEnd dp ip) (fun _ next => Moves base os next base locks) Anyhow middle := by
    intro middle first
    have pid : middle.pid = os.pid := first.frame.pid
    have still : OpenAs middle ip _ := first.keeps ip _ opened.held ⟨opened, rfl⟩
    refine wp_mono (unlinkEnd_moves first.sound first.cached counted
      (first.refs.trans refs) still.toOpen apart freeDp freeIp
      (by rw [first.locks, locked, pid])) ?_ fun _ => id
    intro _ next second
    refine (first.mono fun jp positive => ?_).trans second
    rw [refs]
    exact pos_add_single (pos_add_single positive)
  have zeros : List.replicate direntSize (0 : Byte) =
      [Dirent.empty].flatMap Dirent.toBytes := by decide
  have padded : ∀ dirent ∈ [Dirent.empty], dirent.Padded := by
    intro dirent member
    rw [List.mem_singleton.mp member]
    rfl
  have within : ∀ dirent ∈ [Dirent.empty], dirent.inum.toNat < os.store.sb.ninodes := by
    intro dirent member
    rw [List.mem_singleton.mp member]
    exact Nat.lt_of_le_of_lt (Nat.zero_le _) sound.valid.root
  unfold unlinkEntry
  rw [zeros]
  refine wp_bind_of (writei_dirents_spec sound cached openedDp padded within lenient_anyhow) ?_
  rintro _ middle (⟨rfl, rfl⟩ | ⟨rfl, -, outcome⟩)
  · rw [if_pos (by decide), wp_bind, wp_throw]
    trivial
  have first : Moves os.refs os middle os.refs os.locks := by
    refine outcome.moves cached (fun _ => id) fun jp held openedJ => ?_
    by_cases here : os.inum jp = os.inum dp
    · rw [here, update_self, openedDp.toOpen.volume cached]
      exact congrArg some openedDp.type.symm
    · rw [update_of_ne here]
  rw [if_neg (by decide)]
  simp only [wp_bind, wp_getInode]
  rw [wp_ite]
  refine ⟨fun _ => ?_, fun _ => rest middle first⟩
  have still : OpenAs middle dp _ := first.keeps dp _ openedDp.held ⟨openedDp.toOpen, rfl⟩
  rw [← bind_assoc]
  refine wp_bind_of (relink_moves first.sound first.cached still.toOpen fun nlink => nlink - 1) ?_
  intro _ written second
  rw [first.refs, first.locks] at second
  exact rest written (first.trans second)

theorem unlinkFound_moves {index : Nat} (counted : ∀ jp, 0 ≤ base jp)
    (refs : os.refs = base + single dp 1 + single ip 1)
    (openedDp : OpenDirectory os dp) (freeDp : locks dp = none)
    (locked : os.locks = update locks dp (some os.pid)) :
    wp (unlinkFound dp ip (direntSize * index))
      (fun _ next => Moves base os next base locks) Anyhow os := by
  have held : 0 < os.refs ip := by
    rw [refs]
    exact pos_add_single_self (nonneg_add_single (counted ip))
  unfold unlinkFound
  refine wp_bind_of (ilock_moves sound cached held) ?_
  rintro _ middle ⟨first, opened, free⟩
  have apart : ip ≠ dp := by
    rintro rfl
    rw [locked, update_self] at free
    cases free
  have freeIp : locks ip = none := by
    rw [locked, update_of_ne apart] at free
    exact free
  have pid : middle.pid = os.pid := first.frame.pid
  have still : OpenAs middle dp _ := first.keeps dp _ openedDp.held ⟨openedDp.toOpen, openedDp.type⟩
  have here : At middle ip (middle.inum ip) ((middle.icache ip).dinode.node middle.store.blocks) :=
    ⟨opened, rfl, opened.volume first.cached⟩
  rw [refs, locked] at first
  simp only [wp_bind, wp_getInode]
  rw [wp_ite]
  refine ⟨fun _ => trivial, fun _ => ?_⟩
  rw [wp_bind, wp_of_ok (occupied_eq first.sound first.cached here), wp_ite]
  refine ⟨fun _ => ?_, fun _ => ?_⟩
  · refine wp_bind_of ((first.mono fun jp => pos_add_single).iunlockput
      (fun _ => id) (nonneg_add_single (counted ip)) (locked ▸ free)) ?_
    intro _ put second
    exact (second.mono fun jp => pos_add_single).leave (fun _ => id) (counted dp) freeDp
  · refine wp_mono (unlinkEntry_moves first.sound first.cached counted
      (by rw [first.refs, add_right_comm]) ⟨still.toOpen, still.type⟩ opened
      apart freeDp freeIp (by rw [first.locks, pid])) ?_ fun _ => id
    intro _ next second
    exact (first.mono fun jp positive =>
      pos_add_single (pos_add_single positive)).trans second

theorem unlinkIn_moves {name : List Byte} (counted : ∀ jp, 0 ≤ base jp)
    (refs : os.refs = base + single dp 1) :
    wp (unlinkIn dp name) (fun _ next => Moves base os next base os.locks) Anyhow
      os := by
  have held := pos_of_taken refs (counted dp)
  unfold unlinkIn
  refine wp_bind_of (ilock_moves sound cached held) ?_
  rintro _ middle ⟨taken, opened, free⟩
  have first := taken
  rw [refs] at first
  have pid : middle.pid = os.pid := first.frame.pid
  have bad : wp (unlinkBad dp)
      (fun _ next => Moves base os next base os.locks) Anyhow middle :=
    (first.mono fun jp => pos_add_single).leave (fun _ => id) (counted dp) free
  rw [wp_ite]
  refine ⟨fun _ => bad, fun _ => ?_⟩
  rw [wp_bind]
  refine dirlookup_moves first.sound first.cached opened bad ?_
  intro ip index found dir second
  have still : OpenAs found dp _ := second.keeps dp _ opened.held ⟨opened, dir⟩
  rw [first.refs, first.locks] at second
  refine wp_mono (unlinkFound_moves second.sound second.cached counted
    second.refs ⟨still.toOpen, still.type⟩ free
    (by rw [second.locks, second.frame.pid, pid])) ?_ fun _ => id
  intro _ next third
  exact ((first.trans second).mono fun jp => pos_add_single).trans third

theorem sysUnlink_moves (current : 0 < os.refs os.cwd) :
    wp (sysUnlink path) (fun _ next => Moves os.refs os next os.refs os.locks)
      Anyhow os := by
  unfold sysUnlink
  cases string : argstr path with
  | none => exact .refl sound cached
  | some path =>
    dsimp only
    refine beginOp_then sound cached fun begun first => ?_
    unfold nameiparent
    refine wp_bind_of (namex_moves first.sound first.cached
      (by rw [first.refs, first.cwd]; exact current)) ?_
    intro result middle found
    rw [first.refs] at found
    have second := found.after first
    cases result with
    | none => exact Moves.endOp second fun _ => id
    | some pair =>
      have second : Moves os.refs os middle
        (os.refs + single pair.1 1) os.locks := second
      refine wp_mono (unlinkIn_moves second.sound second.cached
        cached.counted second.refs) ?_ fun _ => id
      intro _ next third
      rw [second.locks] at third
      exact second.trans third

theorem linkBad_moves (counted : ∀ jp, 0 ≤ base jp) (refs : os.refs = base + single ip 1) :
    wp (linkBad ip) (fun _ next => Moves base os next base os.locks) Anyhow os := by
  have held := pos_of_taken refs (counted ip)
  unfold linkBad
  refine wp_bind_of (ilock_moves sound cached held) ?_
  rintro _ locked ⟨first, opened, free⟩
  rw [← bind_assoc]
  refine wp_bind_of (relink_moves first.sound first.cached opened fun nlink => nlink - 1) ?_
  intro _ written second
  rw [first.refs, first.locks] at second
  have both := first.trans second
  rw [refs] at both
  exact (both.mono fun jp => pos_add_single).leave (fun _ => id) (counted ip) free

theorem linkIn_moves {name : List Byte} (counted : ∀ jp, 0 ≤ base jp)
    (refs : os.refs = base + single ip 1 + single dp 1) :
    wp (linkIn ip dp name) (fun _ next => Moves base os next base os.locks) Anyhow
      os := by
  have held : 0 < os.refs dp := by
    rw [refs]
    exact pos_add_single_self (nonneg_add_single (counted dp))
  have heldIp : 0 < os.refs ip := by
    rw [refs]
    exact pos_add_single (pos_add_single_self (counted ip))
  unfold linkIn
  refine wp_bind_of (ilock_moves sound cached held) ?_
  rintro _ locked ⟨taken, opened, free⟩
  have first := taken
  rw [refs] at first
  -- the directory is given up, and only the inode is left
  have given : ∀ middle {rest : KernelM Int},
      Moves (base + single ip 1 + single dp 1) os middle
        (base + single ip 1 + single dp 1)
        (update os.locks dp (some os.pid)) →
      (∀ put, Moves (base + single ip 1) os put (base + single ip 1) os.locks →
        wp rest (fun _ next => Moves base os next base os.locks) Anyhow put) →
      wp (do Fs.iunlockput dp; rest)
        (fun _ next => Moves base os next base os.locks) Anyhow
        middle := by
    intro middle rest moves continues
    refine wp_bind_of ((moves.mono fun jp => pos_add_single).iunlockput
      (fun _ => id) (nonneg_add_single (counted dp)) free) ?_
    exact fun _ => continues
  have bad : ∀ middle, Moves (base + single ip 1 + single dp 1) os middle
        (base + single ip 1 + single dp 1)
        (update os.locks dp (some os.pid)) →
      wp (do Fs.iunlockput dp; linkBad ip)
        (fun _ next => Moves base os next base os.locks) Anyhow
        middle := by
    intro middle moves
    refine given middle moves fun put second => ?_
    refine wp_mono (linkBad_moves second.sound second.cached counted second.refs) ?_ fun _ => id
    intro _ next third
    rw [second.locks] at third
    exact (second.mono fun jp => pos_add_single).trans third
  simp only [wp_bind, wp_getInode]
  rw [wp_ite]
  refine ⟨fun _ => bad locked first, fun _ => ?_⟩
  refine wp_bind_of (dirlink_moves first.sound first.cached opened (first.cached.inside ip ?_)) ?_
  · rw [taken.refs]
    exact heldIp
  intro result written second
  rw [first.refs, first.locks] at second
  rw [wp_ite]
  refine ⟨fun _ => bad written (first.trans second), fun _ => ?_⟩
  refine given written (first.trans second) fun put third => ?_
  refine wp_bind_of (iput_moves third.sound third.cached ?_) ?_
  · rw [third.refs]
    exact pos_add_single_self (counted ip)
  intro _ last fourth
  rw [third.refs, third.locks, add_sub_cancel_right] at fourth
  exact ((third.mono fun jp => pos_add_single).trans fourth).endOp fun _ => id

theorem linkInode_moves {new : List Byte} (counted : ∀ jp, 0 ≤ base jp)
    (refs : os.refs = base + single ip 1) (opened : Open os ip)
    (current : 0 < base os.cwd) (free : locks ip = none)
    (locked : os.locks = update locks ip (some os.pid)) :
    wp (linkInode ip new) (fun _ next => Moves base os next base locks) Anyhow os := by
  unfold linkInode
  rw [← bind_assoc]
  refine wp_bind_of (relink_moves sound cached opened fun nlink => nlink + 1) ?_
  intro _ written first
  refine wp_bind_of (iunlock_moves first.sound first.cached ?_ ?_) ?_
  · rw [first.refs]
    exact opened.held
  · rw [first.locks, locked, update_self, first.frame.pid]
  intro _ released second
  rw [first.refs, first.locks, locked, unlock_eq free] at second
  have third := first.trans second
  unfold nameiparent
  refine wp_bind_of (namex_moves third.sound third.cached ?_) ?_
  · rw [third.refs, refs, third.cwd]
    exact pos_add_single current
  intro result middle found
  rw [third.refs] at found
  rw [refs] at third found
  cases result with
  | none =>
    have fourth : Moves (base + single ip 1) released middle
      (base + single ip 1) released.locks := found
    rw [third.locks] at fourth
    have fifth := third.trans fourth
    refine wp_mono (linkBad_moves fifth.sound fifth.cached counted fifth.refs) ?_ fun _ => id
    intro _ next last
    rw [fifth.locks] at last
    exact (fifth.mono fun jp => pos_add_single).trans last
  | some pair =>
    have fourth : Moves (base + single ip 1) released middle
      (base + single ip 1 + single pair.1 1) released.locks := found
    rw [third.locks] at fourth
    have fifth := third.trans fourth
    refine wp_mono (linkIn_moves fifth.sound fifth.cached counted fifth.refs) ?_ fun _ => id
    intro _ next last
    rw [fifth.locks] at last
    exact (fifth.mono fun jp => pos_add_single).trans last

theorem sysLink_moves {old new : StringArgument} (current : 0 < os.refs os.cwd) :
    wp (sysLink old new) (fun _ next => Moves os.refs os next os.refs os.locks)
      Anyhow os := by
  unfold sysLink
  cases argstr old with
  | none => exact .refl sound cached
  | some old =>
    cases argstr new with
    | none => exact .refl sound cached
    | some new =>
      dsimp only
      refine beginOp_then sound cached fun begun first => ?_
      rw [wp_bind]
      refine first.namei current ?_ ?_
      · intro missed second
        exact second.endOp fun _ => id
      · intro ip found second
        refine second.ilock (cached.counted ip) ?_
        intro locked third opened free
        rw [wp_bind, wp_getInode, wp_ite]
        refine ⟨fun _ => ?_, fun _ => ?_⟩
        · exact third.leave (fun _ => id) (cached.counted ip) free
        refine wp_mono (linkInode_moves third.sound third.cached cached.counted third.refs opened
          (by rw [third.cwd]; exact current) free
          (by rw [third.locks, third.frame.pid])) ?_ fun _ => id
        intro _ next last
        exact third.trans last

end

end Calls

end Xv6.Fs
