import Xv6.Fs.Walk

/-!
# Creating a file

`create` in a directory that is found: it finds the name there, or makes an
inode and an entry for it, and for a directory the entries `.` and `..` and the
link that `..` counts for.
-/

namespace Xv6.Fs

open Function Foundation.Program
open Pi (single)

/-- A valid entry of the cache, the inode it stands for, and its node. -/
structure At (os : Kernel) (ip : Slot) (inum : Nat) (node : Node) :
    Prop where
  opened : Open os ip
  number : os.inum ip = inum
  node : os.store.volume inum = some node

variable {stops : Stop → Prop}

section At

variable {os next : Kernel} {ip jp : Slot} {inum other : Nat}
variable {node node' : Node} {base refs : Slot → Int} {vol : Volume} {locks : Slot → Option Nat}

section

variable (here : At os ip inum node)
include here

theorem At.present : os.store.volume (os.inum ip) = some node := by
  rw [here.number]
  exact here.node

theorem At.dinode (cached : Cached os) : (os.icache ip).dinode.node os.store.blocks = node :=
  here.opened.node_eq cached here.present

theorem At.type (cached : Cached os) : (os.icache ip).dinode.type = node.type := by
  rw [← here.dinode cached]
  rfl

theorem At.nlink (cached : Cached os) : (os.icache ip).dinode.nlink = node.nlink := by
  rw [← here.dinode cached]
  rfl

theorem At.inside (cached : Cached os) : inum < os.store.sb.ninodes := by
  rw [← here.number]
  exact here.opened.inside cached

theorem At.after (outcome : Outcome base os next vol refs locks) (based : 0 < base ip)
    (held : 0 < refs ip) (changed : vol inum = some node') : At next ip inum node' where
  opened := here.opened.frame outcome.frame based (by
    rw [outcome.refs]
    exact held)
  number := (outcome.frame.inum ip based).trans here.number
  node := by
    rw [outcome.volume]
    exact changed

/-- Entries for different inodes differ. -/
theorem At.ne (there : At os jp other node') (apart : inum ≠ other) : ip ≠ jp := by
  rintro rfl
  exact apart (here.number.symm.trans there.number)

end

/-- A change of the link count that is written back. -/
theorem iupdate_nlink_spec {dinode : Dinode} (sound : Sound os.store)
    (cached : Cached os) (here : At os ip inum node)
    (type : dinode.type = (os.icache ip).dinode.type)
    (size : dinode.size = (os.icache ip).dinode.size)
    (addrs : dinode.addrs = (os.icache ip).dinode.addrs) (lenient : Lenient stops) :
    wp (iupdate ip) (fun _ next => Outcome os.refs os next
        (update os.store.volume inum (some { node with nlink := dinode.nlink }))
        os.refs os.locks)
      stops
      (os.setInode ip { os.icache ip with dinode := dinode }) := by
  have spec := iupdate_spec sound cached here.opened type size addrs lenient
  rwa [here.dinode cached, here.number] at spec

/-- The volume when a reference to an inode is given up. -/
def Volume.drop (vol : Volume) (inum : Nat) (nlink : BitVec 16) (refs : Int) : Volume :=
  if nlink = 0 ∧ refs = 1 then update vol inum none
  else vol

theorem Volume.drop_of_ne {nlink : BitVec 16} {count : Int} (apart : other ≠ inum) :
    vol.drop inum nlink count other = vol other := by
  unfold Volume.drop
  split
  · exact update_of_ne apart ..
  · rfl

theorem At.dropped (here : At os ip inum node) (cached : Cached os) : os.dropped ip =
      os.store.volume.drop inum node.nlink (os.refs ip) := by
  have iff : os.Frees ip ↔ node.nlink = 0 ∧ os.refs ip = 1 := by
    unfold Kernel.Frees
    rw [here.nlink cached]
    simp only [here.opened.valid, true_and]
  unfold Kernel.dropped Volume.drop
  simp only [iff, here.number]

/-- `iunlockput` of an inode that the process has locked. -/
theorem iunlockput_spec (sound : Sound os.store) (cached : Cached os)
    (here : At os ip inum node) (locked : os.locks ip = some os.pid) (lenient : Lenient stops) :
    wp (iunlockput ip) (fun _ next => Outcome (os.refs - single ip 1) os next
        (os.store.volume.drop inum node.nlink (os.refs ip))
        (os.refs - single ip 1) (update os.locks ip none))
      stops os := by
  unfold iunlockput
  refine wp_bind_of (iunlock_spec cached here.opened.held locked) ?_
  intro _ middle unlocked
  have first := unlocked.outcome sound
  have there : At middle ip inum node :=
    here.after first here.opened.held here.opened.held here.node
  refine wp_mono (iput_spec first.sound first.cached there.opened.held
    (.of_free (by rw [first.locks, update_self])) fun _ => lenient) ?_
    fun _ => id
  rintro _ next ⟨second, -⟩
  rw [there.dropped first.cached, first.volume, first.refs, first.locks] at second
  exact { second with
    frame := (first.frame.mono fun _ => pos_of_sub_single).trans second.frame }

end At

section Create

variable {os : Kernel} {dp ip : Slot} {d i : Nat} {dir child : Node}

/-- The entries of a new directory. -/
def dots (inum parent : Nat) : List Dirent :=
  insertEntry (insertEntry [] (linkEntry dot inum)) (linkEntry dotdot parent)

/-- `..` is not yet an entry when only `.` is. -/
theorem lookup_dot_dotdot (inum : Nat) :
    lookup (insertEntry [] (linkEntry dot inum)) dotdot = none := by
  rw [lookup_eq_none]
  intro dirent member
  rw [show insertEntry [] (linkEntry dot inum) = [linkEntry dot inum] from rfl,
    List.mem_singleton] at member
  rintro ⟨-, same⟩
  rw [member] at same
  revert same
  change ¬ namecmp dotdot (strncpy dot dirsiz) = 0
  decide

/-- The entries `.` and `..` are made, and `..` is counted. -/
theorem createDots_spec (sound : Sound os.store) (cached : Cached os)
    (parent : At os dp d dir) (made : At os ip i child)
    (type : child.type = tDir) (fresh : child.entries = []) (apart : i ≠ d)
    (lenient : Lenient stops) (large : stops (.panic "dirlink")) :
    wp (createDots dp ip) (fun _ next => Outcome os.refs os next
        (update (update os.store.volume d (some { dir with nlink := dir.nlink + 1 }))
          i (some { child with entries := dots i d }))
        os.refs os.locks)
      stops os := by
  have parentHeld := parent.opened.held
  have madeHeld := made.opened.held
  unfold createDots
  rw [wp_bind, wp_modifyDinode]
  refine wp_bind_of (iupdate_nlink_spec sound cached parent rfl rfl rfl lenient) ?_
  intro _ counted first
  rw [parent.nlink cached] at first
  have made₁ : At counted ip i child := made.after first madeHeld madeHeld (by
    rw [update_of_ne apart]
    exact made.node)
  have parent₁ := parent.after first parentHeld parentHeld (update_self ..)
  simp only [wp_bind, wp_getInode]
  rw [show (counted.icache ip).inum = i from made₁.number]
  refine dirlink_spec first.sound first.cached made₁.opened made₁.present type
    (made₁.inside first.cached) lenient large ?_ ?_ ?_
  · intro jp other index found
    rw [fresh] at found
    cases found
  · intro other index next found
    rw [fresh] at found
    cases found
  intro dotted _ second
  rw [made₁.number, fresh, first.volume, first.refs, first.locks] at second
  have made₂ := made₁.after second madeHeld madeHeld (update_self ..)
  have parent₂ := parent₁.after second parentHeld parentHeld (by
    rw [update_of_ne apart.symm]
    exact update_self ..)
  rw [wp_ite]
  refine ⟨fun negative => absurd negative (by decide), fun _ => ?_⟩
  simp only [wp_bind, wp_getInode]
  rw [show (dotted.icache dp).inum = d from parent₂.number]
  have absent := lookup_dot_dotdot i
  refine dirlink_spec second.sound second.cached made₂.opened made₂.present type
    (parent₂.inside second.cached) lenient large ?_ ?_ ?_
  · intro jp other index found
    rw [absent] at found
    cases found
  · intro other index next found
    rw [absent] at found
    cases found
  intro done _ third
  rw [wp_ite]
  refine ⟨fun negative => absurd negative (by decide), fun _ => ?_⟩
  rw [made₂.number, second.volume, update_idem, second.refs, second.locks] at third
  exact (first.trans second fun _ => id).trans third fun _ => id

/-- The node of a new inode. -/
def newNode (type : BitVec 16) (inum parent : Nat) : Node where
  type := type
  nlink := 1
  entries := if type = tDir then dots inum parent else []

/-- The links of a directory in which an inode of a type is made. -/
def linksFor (type : BitVec 16) (nlink : BitVec 16) : BitVec 16 :=
  if type = tDir then nlink + 1 else nlink

/-- The node of a directory in which an inode is made. -/
def parentNode (dir : Node) (name : List Byte) (type : BitVec 16) (inum : Nat) : Node where
  type := dir.type
  nlink := linksFor type dir.nlink
  entries := insertEntry dir.entries (linkEntry name inum)

/-- The volume after an inode is made in a directory. -/
def Volume.created (vol : Volume) (d i : Nat) (dir : Node)
    (name : List Byte) (type : BitVec 16) : Volume :=
  update (update vol i (some (newNode type i d)))
    d (some (parentNode dir name type i))

theorem type_ne_zero {store : Store} {inum : Nat} {node : Node}
    (present : store.volume inum = some node) : (store.dinode inum).type ≠ 0 := by
  intro untyped
  rw [volume_eq_none untyped] at present
  cases present

section

variable (sound : Sound os.store) (cached : Cached os)
include sound cached

variable {name : List Byte}

/-- The end of `create`: the entry in the parent directory. -/
theorem createEntry_spec (parent : At os dp d dir)
    (made : At os ip i child) (type : dir.type = tDir) (locked : os.locks dp = some os.pid)
    (absent : lookup dir.entries name = none) (lenient : Lenient stops)
    (large : stops (.panic "dirlink")) :
    wp (do
        if (← dirlink dp name (← getInode ip).inum) < 0 then
          throw (.panic "create: dirlink")
        iunlockput dp
        return ip)
      (fun result next => result = ip ∧ Outcome (os.refs - single dp 1) os next
          (Volume.drop (update os.store.volume d (some { dir with
              entries := insertEntry dir.entries (linkEntry name i) }))
            d dir.nlink (os.refs dp))
          (os.refs - single dp 1)
          (update os.locks dp none))
      stops os := by
  have parentHeld := parent.opened.held
  simp only [wp_bind, wp_getInode]
  rw [show (os.icache ip).inum = i from made.number]
  refine dirlink_spec sound cached parent.opened parent.present type
    (made.inside cached) lenient large ?_ ?_ ?_
  · intro jp other index found
    rw [absent] at found
    cases found
  · intro other index next found
    rw [absent] at found
    cases found
  intro linked _ first
  rw [parent.number] at first
  have parent₁ := parent.after first parentHeld parentHeld (update_self ..)
  rw [wp_ite]
  refine ⟨fun negative => absurd negative (by decide), fun _ => ?_⟩
  rw [wp_bind]
  refine wp_mono (iunlockput_spec first.sound first.cached parent₁
    (by rw [first.locks, first.frame.pid]; exact locked) lenient) ?_ fun _ => id
  intro _ next second
  rw [first.volume, first.refs, first.locks] at second
  exact ⟨rfl, { second with
    frame := (first.frame.mono fun _ => pos_of_sub_single).trans second.frame }⟩

variable {type major minor : BitVec 16}

theorem createInode_spec (parent : At os dp d dir) (typed : type ≠ 0)
    (waits : ∀ jp, jp ≠ dp → Waits stops os jp) (lenient : Lenient stops)
    (large : stops (.panic "dirlink")) :
    wp (createInode dp type major minor) (fun ip next => ∃ i, os.store.volume i = none ∧
        i < os.store.sb.ninodes ∧ 0 < i ∧ ip ≠ dp ∧
        os.locks ip = none ∧ At next ip i (newNode type i d) ∧
        Outcome os.refs os next
          (update (update os.store.volume i (some (newNode type i d)))
            d (some { dir with
              nlink := linksFor type dir.nlink }))
          (os.refs + single ip 1)
          (update os.locks ip (some os.pid)))
      stops os := by
  have parentHeld := parent.opened.held
  unfold createInode
  simp only [wp_bind, wp_getInode]
  rw [cached.device dp parentHeld]
  refine wp_mono (ialloc_spec sound cached typed lenient) ?_ fun _ => id
  rintro ip allocated ⟨i, free, inside, positive, first, number⟩
  have distinct : i ≠ d := by
    rintro rfl
    rw [parent.node] at free
    cases free
  have kept : ∀ jp, 0 < os.refs jp →
      0 < (os.refs + single ip 1 : Slot → Int) jp := fun _ =>
    pos_add_single
  have stays : ∀ node : Node, update os.store.volume i (some node) d =
        some dir := fun node => by
    rw [update_of_ne distinct.symm]
    exact parent.node
  have parent₁ := parent.after first parentHeld (kept dp parentHeld) (stays _)
  have apart : ip ≠ dp := by
    rintro rfl
    exact distinct (number.symm.trans parent₁.number)
  have madeHeld := pos_of_taken first.refs (cached.counted ip)
  have node₁ : allocated.store.volume i = some ⟨type, 0, []⟩ := by
    rw [first.volume, update_self]
  refine wp_mono (ilock_spec first.cached madeHeld
    ((waits ip apart).congr (by rw [first.locks]) first.frame.pid)
    fun untyped => absurd untyped (by
      rw [number]
      exact type_ne_zero node₁)) ?_ fun _ => id
  rintro _ opened ⟨shift, valid, unlocked⟩
  have second := shift.outcome first.sound
  rw [first.volume, first.refs, first.locks, first.frame.pid] at second
  rw [first.refs] at madeHeld
  rw [first.locks] at unlocked
  have made₂ : At opened ip i ⟨type, 0, []⟩ := by
    refine ⟨⟨by rw [second.refs]; exact madeHeld, valid⟩, ?_, ?_⟩
    · exact (second.frame.inum ip madeHeld).trans number
    · rw [second.volume, update_self]
  simp only [wp_modifyDinode]
  refine wp_mono (iupdate_nlink_spec second.sound second.cached made₂ rfl rfl
    rfl lenient) ?_ fun _ => id
  intro _ linked third
  rw [second.volume, update_idem, second.refs, second.locks] at third
  have before : Outcome os.refs os linked
      (update os.store.volume i (some ⟨type, 1, []⟩))
      (os.refs + single ip 1)
      (update os.locks ip (some os.pid)) :=
    (first.trans second kept).trans third kept
  have made₃ : At linked ip i ⟨type, 1, []⟩ := made₂.after third madeHeld madeHeld (update_self ..)
  have parent₃ := parent.after before parentHeld (kept dp parentHeld) (stays _)
  by_cases isDir : type = tDir
  · rw [if_pos isDir, wp_bind]
    refine wp_mono (createDots_spec before.sound before.cached parent₃ made₃
      isDir rfl distinct lenient large) ?_ fun _ => id
    intro _ ready fourth
    have node : newNode type i d = ⟨type, 1, dots i d⟩ := by
      unfold newNode
      rw [if_pos isDir]
    have links : linksFor type dir.nlink = dir.nlink + 1 := if_pos isDir
    rw [before.volume, before.refs, before.locks, update_comm distinct, update_idem, ← node,
      update_comm distinct.symm] at fourth
    refine ⟨i, free, inside, positive, apart, unlocked, made₃.after fourth madeHeld madeHeld ?_, ?_⟩
    · rw [update_of_ne distinct, update_self]
    · rw [links]
      exact before.trans fourth kept
  · rw [if_neg isDir]
    have node : newNode type i d = ⟨type, 1, []⟩ := by
      unfold newNode
      rw [if_neg isDir]
    have links : linksFor type dir.nlink = dir.nlink := if_neg isDir
    rw [← node] at made₃ before
    refine ⟨i, free, inside, positive, apart, unlocked, made₃, ?_⟩
    rw [links, ← stays (newNode type i d), update_eq_self]
    exact before

theorem createNew_spec (parent : At os dp d dir) (isDirectory : dir.type = tDir)
    (locked : os.locks dp = some os.pid)
    (absent : lookup dir.entries name = none) (typed : type ≠ 0)
    (waits : ∀ jp, jp ≠ dp → Waits stops os jp) (lenient : Lenient stops)
    (large : stops (.panic "dirlink")) :
    wp (createNew dp name type major minor) (fun ip next => ∃ i, os.store.volume i = none ∧
        i < os.store.sb.ninodes ∧ 0 < i ∧ os.locks ip = none ∧
        At next ip i (newNode type i d) ∧
        Outcome (os.refs - single dp 1) os next
          ((os.store.volume.created d i dir name type).drop d
            (linksFor type dir.nlink) (os.refs dp))
          (os.refs - single dp 1 + single ip 1)
          (update (update os.locks dp none) ip (some os.pid)))
      stops os := by
  have parentHeld := parent.opened.held
  unfold createNew
  refine wp_bind_of (createInode_spec sound cached parent typed waits lenient large) ?_
  rintro ip ready ⟨i, free, inside, positive, apart, unlocked, made, first⟩
  have distinct : i ≠ d := by
    rintro rfl
    rw [parent.node] at free
    cases free
  have kept : ∀ jp, 0 < os.refs jp →
      0 < (os.refs + single ip 1 : Slot → Int) jp := fun _ =>
    pos_add_single
  have parent₁ := parent.after first parentHeld (kept dp parentHeld) (update_self ..)
  have parentRefs : ready.refs dp = os.refs dp := by
    rw [first.refs, Pi.add_apply, Pi.single_eq_of_ne apart.symm, add_zero]
  refine wp_mono (createEntry_spec first.sound first.cached parent₁ made
    isDirectory ?_ absent lenient large) ?_ fun _ => id
  · rw [first.locks, update_of_ne apart.symm, locked, first.frame.pid]
  rintro result next ⟨same, second⟩
  rw [same]
  have refs : (ready.refs - single dp 1 : Slot → Int) =
      os.refs - single dp 1 + single ip 1 := by
    rw [first.refs]
    abel
  have fewer : ∀ jp, 0 < (os.refs - single dp 1 : Slot → Int) jp →
      0 < (os.refs - single dp 1 + single ip 1 : Slot → Int) jp :=
    fun _ => pos_add_single
  rw [parentRefs, first.volume, update_idem, refs, first.locks, update_comm apart] at second
  have madeHeld : 0 < (os.refs - single dp 1 + single ip 1 : Slot → Int) ip := by
    refine pos_add_single_self ?_
    rw [Pi.sub_apply, Pi.single_eq_of_ne apart, sub_zero]
    exact cached.counted ip
  refine ⟨i, free, inside, positive, unlocked, made.after second madeHeld madeHeld ?_, ?_⟩
  · rw [Volume.drop_of_ne distinct, update_of_ne distinct, update_self]
  · exact { second with
      frame := (first.frame.mono fun _ => pos_of_sub_single).trans (second.frame.mono fewer) }

variable {post : Option Slot → Kernel → Prop}

/-- `create` in a directory that is found.  `base` counts the references other
than the one to the directory. -/
theorem createIn_spec {base : Slot → Int} (counted : ∀ jp, 0 ≤ base jp)
    (refs : os.refs = base + single dp 1) (present : os.store.volume (os.inum dp) = some dir)
    (isDirectory : dir.type = tDir) (typed : type ≠ 0)
    (waits : ∀ jp, Waits stops os jp) (lenient : Lenient stops) (large : stops (.panic "dirlink"))
    (untyped : ∀ i index, lookup dir.entries name = some (i, index) →
      (Retained os base → os.store.volume i = none) →
      stops (.panic "ilock: no type"))
    (existing : ∀ ip index next, lookup dir.entries name = some (next.inum ip, index) →
      Visit base os next (base + single ip 1) (update os.locks ip (some os.pid)) →
      Open next ip → os.locks ip = none →
      type = tFile ∧ (next.icache ip).dinode.type = tFile →
      post (some ip) next)
    (refused : ∀ i index next, lookup dir.entries name = some (i, index) →
      Visit base os next base os.locks → post none next)
    (created : ∀ ip i next, lookup dir.entries name = none →
      os.store.volume i = none → i < os.store.sb.ninodes → 0 < i →
      os.locks ip = none →
      At next ip i (newNode type i (os.inum dp)) →
      Outcome base os next ((os.store.volume.created (os.inum dp) i dir name
          type).drop (os.inum dp) (linksFor type dir.nlink) (base dp + 1))
        (base + single ip 1)
        (update os.locks ip (some os.pid)) →
      post (some ip) next) : wp (createIn dp name type major minor) post stops os := by
  have held := pos_of_taken refs (counted dp)
  have weaken := pos_of_taken_base refs
  unfold createIn
  refine wp_bind_of (ilock_spec cached held (waits dp) fun none =>
    absurd none (type_ne_zero present)) ?_
  rintro _ locked ⟨shift, valid, free⟩
  have first := shift.visit sound weaken
  have outcome := shift.outcome sound
  have parent : At locked dp (os.inum dp) dir :=
    ⟨⟨by rw [shift.refs]; exact held, valid⟩, shift.frame.inum dp held, by
      rw [shift.store]; exact present⟩
  have opened := parent.opened.directory first.cached parent.present isDirectory
  have entries := opened.entries first.cached parent.present
  have byUs : locked.locks dp = some locked.pid := by
    rw [shift.locks, update_self, shift.frame.pid]
  have back : update locked.locks dp none = os.locks := by
    rw [shift.locks, update_idem, ← free, update_eq_self]
  rw [wp_bind]
  refine dirlookup_spec first.sound first.cached opened
    (fun _ _ _ _ => lenient.entries) (fun absent => ?_) ?_
  · rw [entries] at absent
    rw [wp_bind]
    refine wp_mono (createNew_spec first.sound first.cached parent isDirectory
      byUs absent typed (fun jp apart => (waits jp).congr
        (by rw [shift.locks, update_of_ne apart])
        shift.frame.pid) lenient large) ?_ fun _ => id
    rintro ip next ⟨i, unused, inside, positive, unlocked, made, second⟩
    have left : (locked.refs - single dp 1 : Slot → Int) = base := by
      rw [shift.refs, refs, add_sub_cancel_right]
    have count : locked.refs dp = base dp + 1 := by
      rw [shift.refs, refs, Pi.add_apply, Pi.single_eq_same]
    rw [left, back, shift.store, count, shift.frame.pid] at second
    rw [shift.store] at unused
    rw [shift.frame.sb] at inside
    have elsewhere : os.locks ip = none := by
      rw [shift.locks, update_apply] at unlocked
      split at unlocked
      · cases unlocked
      · exact unlocked
    exact created ip i next absent unused inside positive elsewhere made
      { second with frame := first.frame.trans second.frame }
  · intro ip i index middle found got same _ _
    rw [entries] at found
    have left : (middle.refs - single dp 1 : Slot → Int) = base + single ip 1 := by
      rw [got.refs, shift.refs, refs]
      abel
    have more : ∀ jp, 0 < base jp →
        0 < (base + single ip 1 : Slot → Int) jp := fun _ => pos_add_single
    have foundHeld : 0 < (base + single ip 1 : Slot → Int) ip := pos_add_single_self (counted ip)
    have whole := first.trans (got.visit first.sound (by
      rw [shift.refs]
      exact weaken))
    simp only [wp_bind]
    refine wp_mono (iunlockput_visit whole.sound whole.cached
      (nonneg_add_single (counted dp)) (fun jp => by rw [left])
      (by rw [got.locks, byUs, got.frame.pid]) fun _ => lenient) ?_ fun _ => id
    intro _ released second
    rw [left, got.locks, back] at second
    have before := whole.trans (second.mono more)
    have number : released.inum ip = i := (second.frame.inum ip foundHeld).trans same
    refine wp_mono (ilock_spec before.cached (by rw [before.refs]; exact foundHeld)
      ((waits ip).congr (by rw [before.locks]) before.frame.pid)
      fun none => untyped i index found fun retained => ?_) ?_ fun _ => id
    · rw [← before.store retained, ← number]
      exact volume_eq_none none
    rintro _ final ⟨lock, finalValid, finalFree⟩
    have third := lock.visit before.sound (by
      rw [before.refs]
      exact more)
    rw [before.refs, before.locks, before.frame.pid] at third
    rw [before.locks] at finalFree
    have all := before.trans third
    have openedFound : Open final ip := ⟨by rw [all.refs]; exact foundHeld, finalValid⟩
    simp only [wp_getInode, wp_ite]
    refine ⟨fun files => ?_, fun _ => ?_⟩
    · refine existing ip index final ?_ all openedFound finalFree files
      rw [lock.frame.inum ip (by rw [before.refs]; exact foundHeld), number]
      exact found
    · rw [wp_bind]
      refine wp_mono (iunlockput_visit all.sound all.cached (counted ip)
        (fun jp => by rw [all.refs, add_sub_cancel_right])
        (by rw [all.locks, update_self, all.frame.pid])
        fun _ => lenient) ?_ fun _ => id
      intro _ next last
      rw [all.refs, add_sub_cancel_right, all.locks, update_idem,
        ← finalFree, update_eq_self] at last
      exact refused i index next found (all.trans last)

/-- `create`.  `base` counts the references that are held throughout. -/
theorem create_spec {path : List Byte} {base : Slot → Int} (refs : os.refs = base)
    (current : path.head? ≠ some slash → 0 < os.refs os.cwd)
    (typed : type ≠ 0) (waits : ∀ jp, Waits stops os jp)
    (lenient : Lenient stops) (large : stops (.panic "dirlink"))
    (stopped : ∀ reason, WalkStop reason → (Retained os base → walk os.store.volume (os.used base)
        (os.inum os.cwd) path true = .error reason) →
      stops reason)
    (untyped : ∀ d dir name i index, lookup dir.entries name = some (i, index) →
      (Retained os base → walk os.store.volume (os.used base) (os.inum os.cwd)
            path true = .ok (some (d, name)) ∧
          os.store.volume d = some dir ∧
          os.store.volume i = none) →
      stops (.panic "ilock: no type"))
    (missing : ∀ next, Visit base os next base os.locks → post none next)
    (existing : ∀ ip next, Visit base os next (base + single ip 1)
        (update os.locks ip (some os.pid)) →
      Open next ip → os.locks ip = none → post (some ip) next)
    (created : ∀ vol d dir name ip i count next, (Retained os base → vol = os.store.volume ∧
        walk os.store.volume (os.used base) (os.inum os.cwd)
          path true = .ok (some (d, name))) →
      vol d = some dir → dir.type = tDir →
      lookup dir.entries name = none →
      vol i = none → i < os.store.sb.ninodes → 0 < i →
      os.locks ip = none → 0 ≤ count →
      (∀ jp, 0 < base jp → os.inum jp = d → 0 < count) →
      At next ip i (newNode type i d) →
      Outcome base os next ((vol.created d i dir name type).drop d
          (linksFor type dir.nlink) (count + 1))
        (base + single ip 1)
        (update os.locks ip (some os.pid)) →
      post (some ip) next) : wp (create path type major minor) post stops os := by
  have counted : ∀ jp, 0 ≤ base jp := by
    rw [← refs]
    exact cached.counted
  unfold create nameiparent
  refine wp_bind_of (namex_spec sound cached refs current waits (fun _ => lenient) stopped) ?_
  rintro (_ | ⟨dp, name⟩) middle resolved
  · exact missing middle resolved.1
  obtain ⟨visit, walked, parent⟩ := resolved
  obtain ⟨dir, present, isDirectory⟩ := parent rfl
  refine createIn_spec visit.sound visit.cached counted visit.refs present isDirectory typed
    (fun jp => (waits jp).congr (by rw [visit.locks]) visit.frame.pid)
    lenient large ?_ ?_ ?_ ?_
  · intro i index found dangling
    refine untyped (middle.inum dp) dir name i index found
      fun retained => ?_
    have store := visit.store retained
    refine ⟨walked retained, ?_, ?_⟩
    · rw [← store]
      exact present
    · rw [← store]
      exact dangling (visit.retained retained)
  · intro ip index next found second opened unlocked _
    rw [visit.locks] at unlocked
    rw [visit.locks, visit.frame.pid] at second
    exact existing ip next (visit.trans second) opened unlocked
  · intro i index next _ second
    rw [visit.locks] at second
    exact missing next (visit.trans second)
  · intro ip i next absent unused inside positive unlocked made second
    rw [visit.frame.sb] at inside
    rw [visit.locks] at unlocked
    rw [visit.locks, visit.frame.pid] at second
    refine created middle.store.volume (middle.inum dp) dir name ip i (base dp) next
      (fun retained => ⟨by rw [visit.store retained], walked retained⟩) present
      isDirectory absent unused inside positive unlocked (counted dp) ?_ made
      { second with frame := visit.frame.trans second.frame }
    intro jp held same
    have heldMiddle : 0 < middle.refs jp := by
      rw [visit.refs]
      exact pos_add_single held
    have heldParent := pos_of_taken visit.refs (counted dp)
    have here : jp = dp := visit.cached.unique jp dp heldMiddle heldParent
      ((visit.frame.inum jp held).trans same)
    rw [← here]
    exact held

end

end Create

end Xv6.Fs
