import Xv6.Fs.Cache

/-!
# Operations on cached inodes

Specifications of `readi`, `writei`, `iupdate`, `itrunc`, `ialloc` and of the
`iput` that frees an inode, for an entry of the cache that is valid: what they
do to the volume.
-/

namespace Xv6.Fs

open Function Foundation.Program

/-- The disk and the cache changed, to the given volume, reference counts and
locks. -/
structure Outcome (base : Slot → Int) (os next : Kernel) (volume : Volume)
    (refs : Slot → Int) (locks : Slot → Option Nat) : Prop where
  sound : Sound next.store
  cached : Cached next
  frame : Frame base os next
  volume : next.store.volume = volume
  refs : next.refs = refs
  locks : next.locks = locks

section Outcome

variable {base base' refs refs' : Slot → Int} {volume volume' : Volume}
variable {locks locks' : Slot → Option Nat} {os middle next : Kernel}

theorem Shift.outcome (shift : Shift base os next refs locks) (sound : Sound os.store) :
    Outcome base os next os.store.volume refs locks where
  sound := by
    rw [shift.store]
    exact sound
  cached := shift.cached
  frame := shift.frame
  volume := by rw [shift.store]
  refs := shift.refs
  locks := shift.locks

theorem Outcome.trans (first : Outcome base os middle volume refs locks)
    (second : Outcome base' middle next volume' refs' locks')
    (fewer : ∀ ip, 0 < base ip → 0 < base' ip) : Outcome base os next volume' refs' locks' :=
  { second with frame := first.frame.trans (second.frame.mono fewer) }

end Outcome

/-- The entry of the cache is in use and valid. -/
structure Open (os : Kernel) (ip : Slot) : Prop where
  held : 0 < os.refs ip
  valid : (os.icache ip).valid = true

variable {ip : Slot} {os next : Kernel}

section Open

variable {base : Slot → Int}

section

variable (opened : Open os ip) (cached : Cached os)
include opened cached

theorem Open.copy : (os.icache ip).dinode = os.store.dinode (os.inum ip) :=
  (cached.agrees ip opened.held opened.valid).1

theorem Open.allocated : (os.icache ip).dinode.type ≠ 0 := by
  rw [opened.copy cached]
  exact (cached.agrees ip opened.held opened.valid).2

theorem Open.inside : os.inum ip < os.store.sb.ninodes :=
  cached.inside ip opened.held

/-- The node of an open inode. -/
theorem Open.volume :
    os.store.volume (os.inum ip) =
      some ((os.icache ip).dinode.node os.store.blocks) := by
  unfold Store.volume Dinode.node?
  rw [if_pos (opened.inside cached), ← opened.copy cached, if_neg (opened.allocated cached)]

end

theorem Open.frame (opened : Open os ip) (frame : Frame base os next)
    (based : 0 < base ip) (held : 0 < next.refs ip) : Open next ip :=
  ⟨held, frame.valid ip based opened.valid⟩

end Open

/-! ## Changing the fields of one inode -/

variable {stops : Stop → Prop} {dinode : Dinode}

section Change

variable {store : Store}

/-- The disk changes where no valid entry of the cache shows it. -/
theorem Cached.restore (store : Store) (cached : Cached os) (sb : store.sb = os.store.sb)
    (same : ∀ jp, 0 < os.refs jp → (os.icache jp).valid = true →
      store.dinode (os.inum jp) = os.store.dinode (os.inum jp)) : Cached (os.setStore store) where
  counted := cached.counted
  device := cached.device
  inside := by
    intro jp held
    change os.inum jp < store.sb.ninodes
    rw [sb]
    exact cached.inside jp held
  unique := cached.unique
  agrees := by
    intro jp held valid
    change _ = store.dinode (os.inum jp) ∧ (store.dinode (os.inum jp)).type ≠ 0
    rw [same jp held valid]
    exact cached.agrees jp held valid

/-- An inode is changed on the disk and in the cache. -/
theorem Cached.rewrite {inode : Inode} (cached : Cached os) (held : 0 < os.refs ip)
    (rewritten : Rewritten os.store store (os.inum ip) dinode)
    (counted : 0 ≤ inode.ref) (device : inode.dev = (os.icache ip).dev)
    (inum : inode.inum = os.inum ip)
    (agrees : inode.valid = true → inode.dinode = dinode ∧ dinode.type ≠ 0) :
    Cached ((os.setStore store).setInode ip inode) := by
  have inside := cached.inside ip held
  -- while the entry is not valid, the disk may change under it
  have blank : Cached (os.setInode ip { os.icache ip with valid := false }) :=
    cached.update held (cached.counted ip) rfl rfl fun _ valid => by cases valid
  have moved := blank.restore store rewritten.kept.sb
    fun jp heldJ valid => by
      by_cases here : jp = ip
      · subst here
        rw [setInode_self] at valid
        cases valid
      · have entry := setInode_of_ne os ip
          { os.icache ip with valid := false } here
        unfold Kernel.refs at heldJ
        unfold Kernel.inum
        rw [entry] at heldJ ⊢
        have apart : os.inum jp ≠ os.inum ip := fun same =>
          here (cached.unique jp ip heldJ held same)
        exact (rewritten.table _ (cached.inside jp heldJ)).trans (update_of_ne apart ..)
  have entry : ((os.setInode ip { os.icache ip with valid := false }).setStore store).icache ip =
      { os.icache ip with valid := false } :=
    setInode_self ..
  have final : Cached (((os.setInode ip
      { os.icache ip with valid := false }).setStore store).setInode
      ip inode) := by
    refine moved.update ?_ counted ?_ ?_ fun _ valid => ?_
    · unfold Kernel.refs
      rw [entry]
      exact held
    · rw [entry]
      exact device
    · unfold Kernel.inum
      rw [entry]
      exact inum
    · unfold Kernel.inum
      rw [entry]
      change _ = store.dinode (os.inum ip) ∧ (store.dinode (os.inum ip)).type ≠ 0
      rw [rewritten.table _ inside, update_self]
      exact agrees valid
  rwa [setInode_setStore, setInode_setInode] at final

/-- The outcome of changing an inode on the disk and in the cache. -/
theorem Outcome.of_rewritten (base : Slot → Int) (inode : Inode) (change : Int)
    (sound : Sound store) (cached : Cached os) (held : 0 < os.refs ip)
    (rewritten : Rewritten os.store store (os.inum ip) dinode)
    (ref : inode.ref = os.refs ip + change) (counted : 0 ≤ inode.ref)
    (device : inode.dev = (os.icache ip).dev) (inum : inode.inum = os.inum ip)
    (valid : 0 < base ip → (os.icache ip).valid = true → inode.valid = true)
    (agrees : inode.valid = true → inode.dinode = dinode ∧ dinode.type ≠ 0) :
    Outcome base os ((os.setStore store).setInode ip inode)
      (update os.store.volume (os.inum ip) (dinode.node? store.blocks))
      (os.refs + Pi.single ip change)
      (update os.locks ip inode.lock) where
  sound := sound
  cached := cached.rewrite held rewritten counted device inum agrees
  frame := by
    have frame := setInode_frame (os.setStore store) ip inode (fun _ => inum) valid
    exact ⟨rfl, rewritten.kept.sb, frame.inum, frame.valid⟩
  volume := rewritten.volume (cached.inside ip held)
  refs := setInode_refs (os.setStore store) ip inode ref
  locks := setInode_locks (os.setStore store) ip inode

/-- `iupdate` after fields other than type, size and addresses changed. -/
theorem iupdate_spec (sound : Sound os.store) (cached : Cached os)
    (opened : Open os ip) (type : dinode.type = (os.icache ip).dinode.type)
    (size : dinode.size = (os.icache ip).dinode.size)
    (addrs : dinode.addrs = (os.icache ip).dinode.addrs) (lenient : Lenient stops) :
    wp (iupdate ip) (fun _ next => Outcome os.refs os next
        (update os.store.volume (os.inum ip)
          (some { (os.icache ip).dinode.node os.store.blocks with
            nlink := dinode.nlink }))
        os.refs os.locks)
      stops
      (os.setInode ip { os.icache ip with dinode := dinode }) := by
  have inside := opened.inside cached
  have allocated := opened.allocated cached
  have copy := opened.copy cached
  unfold iupdate
  simp only [wp_bind, wp_getInode, setInode_self, wp_onStore, setInode_store]
  refine wp_mono (writeDinode_spec _ _ lenient) ?_ fun _ => id
  rintro _ store written
  have loose : Loose os.store os.store (os.inum ip)
      (os.store.dinode (os.inum ip)) := .refl sound
  rw [← copy] at loose
  obtain ⟨rewritten, contents⟩ := loose.write_fields sound inside allocated written type addrs
  have node : dinode.node store.blocks =
      { (os.icache ip).dinode.node os.store.blocks with
        nlink := dinode.nlink } := by
    unfold Dinode.node
    rw [contents, type, size]
  have entries : (dinode.node store.blocks).entries =
      ((os.icache ip).dinode.node os.store.blocks).entries := by
    rw [node]
  have sound' : Sound store := by
    refine rewritten.sound sound inside (fun allocated notDevice => ?_)
      fun _ dirent member => ?_
    · rw [type] at allocated notDevice
      have formed := sound.formed _ inside
      rw [← copy] at formed
      obtain ⟨blocks, indirect, whole⟩ := formed allocated notDevice
      refine ⟨fun bn => ?_, fun present => ?_, fun dir => ?_⟩
      · rw [contents, size]
        exact blocks bn
      · rw [size]
        unfold Dinode.addr at present
        rw [addrs] at present
        exact indirect present
      · rw [type] at dir
        rw [size]
        exact whole dir
    · rw [entries] at member
      exact sound.within _ _ (opened.volume cached) dirent member
  have outcome := Outcome.of_rewritten os.refs
    { os.icache ip with dinode := dinode } 0 sound' cached opened.held
    rewritten (add_zero _).symm (cached.counted ip) rfl rfl (fun _ => id)
    fun _ => ⟨rfl, by rw [type]; exact allocated⟩
  rw [Pi.single_zero, add_zero, show update os.locks ip
    (os.icache ip).lock = os.locks from update_eq_self ..]
    at outcome
  unfold Dinode.node? at outcome
  rw [type, if_neg allocated, node] at outcome
  exact outcome

end Change

/-! ## Reading -/

variable {os : Kernel}

section Read

variable {off n : Nat}

/-- `readi` of blocks that are there returns their bytes and changes
nothing. -/
theorem readi_eq (notDevice : (os.icache ip).dinode.type ≠ tDev)
    (start : off ≤ (os.icache ip).dinode.size.toNat) (range : off + n < 2 ^ 32)
    (covered : Covered (contents os.store.blocks (os.icache ip).dinode) off
      (min n ((os.icache ip).dinode.size.toNat - off))) :
    readi ip off n os =
      .ok (some (fileBytes (contents os.store.blocks (os.icache ip).dinode) off
        (min n ((os.icache ip).dinode.size.toNat - off))), os) := by
  have amount :
      (if (os.icache ip).dinode.size.toNat < off + n then
        (os.icache ip).dinode.size.toNat - off else n) =
      min n ((os.icache ip).dinode.size.toNat - off) := by
    split <;> omega
  unfold readi
  rw [bind_of_ok (getInode_eq os ip), if_neg notDevice, if_neg (by
      rw [Nat.mod_eq_of_lt range]
      omega)]
  simp only [amount]
  have loop : onStore (readiLoop (min n ((os.icache ip).dinode.size.toNat - off))
      (os.icache ip).dinode off
      (min n ((os.icache ip).dinode.size.toNat - off))) os =
      .ok ((fileBytes (contents os.store.blocks (os.icache ip).dinode)
        off (min n ((os.icache ip).dinode.size.toNat - off)),
        (os.icache ip).dinode), os) := by
    unfold onStore
    rw [readiLoop_eq (le_refl _) covered]
  rw [bind_of_ok loop]
  have store : modifyDinode ip (fun _ => (os.icache ip).dinode) os = .ok ((), os) := by
    change Except.ok ((), os.setInode ip (os.icache ip)) = _
    rw [setInode_eq_self]
  exact bind_of_ok store _

/-- The blocks of a well-formed file that is not a device are there. -/
theorem Shaped.covered {blocks : Nat → Block} {dinode : Dinode}
    (shaped : Shaped blocks dinode) (within : off + n ≤ dinode.size.toNat) :
    Covered (contents blocks dinode) off n := by
  rintro bn ⟨_, _, before⟩
  exact (shaped.blocks bn).mpr (by omega)

/-- An open inode that is not a device has the blocks it needs. -/
theorem Open.shaped (opened : Open os ip) (cached : Cached os)
    (sound : Sound os.store) (notDevice : (os.icache ip).dinode.type ≠ tDev) :
    Shaped os.store.blocks (os.icache ip).dinode := by
  have formed := sound.formed _ (opened.inside cached)
  rw [← opened.copy cached] at formed
  exact formed (opened.allocated cached) notDevice

theorem driver_spec {inode : Inode} : wp (driver inode) (fun _ next => next = os) stops os := by
  unfold driver
  simp only [wp_ite, wp_pure, wp_bind, wp_get, implies_true, and_self]

theorem callDriver_spec {driver : Driver} (sound : Sound os.store)
    (cached : Cached os) (opened : Open os ip)
    (unlocked : os.locks ip ≠ some os.pid → stops (.panic "iunlock")) :
    wp (callDriver ip driver) (fun _ next => Outcome os.refs os next os.store.volume
        os.refs os.locks)
      stops os := by
  have called : ∀ middle, Outcome os.refs os middle os.store.volume os.refs
        os.locks →
      Outcome os.refs os
        { middle with devcalls := middle.devcalls + 1 } os.store.volume
        os.refs os.locks := by
    intro middle outcome
    refine ⟨outcome.sound, ?_, ⟨?_, outcome.frame.sb, outcome.frame.inum,
      outcome.frame.valid⟩, outcome.volume, outcome.refs, outcome.locks⟩
    · obtain ⟨counted, device, inside, unique, agrees⟩ := outcome.cached
      exact ⟨counted, device, inside, unique, agrees⟩
    · rw [outcome.frame.outer]
  unfold callDriver
  by_cases yields : driver.yields = true
  · simp only [if_pos yields, wp_bind, wp_get, wp_modify, wp_pure]
    by_cases locked : os.locks ip = some os.pid
    · refine wp_mono (iunlock_spec cached opened.held locked) ?_ fun _ => id
      intro _ middle first
      have openedMiddle : Open middle ip :=
        opened.frame first.frame opened.held (by
          rw [first.refs]
          exact opened.held)
      refine wp_mono (ilock_spec first.cached openedMiddle.held ?_ fun untyped => ?_) ?_ fun _ => id
      · intro holder holds
        rw [first.locks, update_self] at holds
        cases holds
      · exact absurd untyped (first.cached.agrees ip openedMiddle.held openedMiddle.valid).2
      rintro _ next ⟨second, -, -⟩
      have back : update middle.locks ip (some middle.pid) = os.locks := by
        rw [first.locks, update_idem, first.frame.pid, ← locked, update_eq_self]
      have outcome := (first.outcome sound).trans
        (second.outcome (first.outcome sound).sound) fun jp held => by
          rw [first.refs]
          exact held
      rw [first.store, first.refs, back] at outcome
      exact called next outcome
    · unfold iunlock
      simp only [wp_bind, wp_get, wp_ite, wp_throw]
      refine ⟨fun _ => unlocked locked, fun fine => ?_⟩
      exact absurd (.inl locked) fine
  · simp only [if_neg yields, wp_bind, wp_get, wp_modify, wp_pure]
    exact called os ⟨sound, cached, .refl _ _, rfl, rfl, rfl⟩

/-- `readi` of a file that is not a device changes nothing. -/
theorem readi_file_spec (shaped : Shaped os.store.blocks (os.icache ip).dinode)
    (notDevice : (os.icache ip).dinode.type ≠ tDev) :
    wp (readi ip off n) (fun _ next => next = os) stops os := by
  unfold readi
  rw [wp_bind, wp_getInode, if_neg notDevice, wp_ite]
  refine ⟨fun _ => rfl, fun bounded => ?_⟩
  have within : off + (if (os.icache ip).dinode.size.toNat < off + n then
      (os.icache ip).dinode.size.toNat - off else n) ≤
      (os.icache ip).dinode.size.toNat := by
    split <;> omega
  rw [wp_bind, wp_onStore, wp_of_ok (readiLoop_eq (le_refl _) (shaped.covered within))]
  simp only [wp_bind, wp_modifyDinode, wp_pure]
  exact setInode_eq_self ..

theorem readi_spec (sound : Sound os.store) (cached : Cached os) (opened : Open os ip)
    (unlocked : os.locks ip ≠ some os.pid → stops (.panic "iunlock")) :
    wp (readi ip off n) (fun _ next => Outcome os.refs os next os.store.volume
        os.refs os.locks)
      stops os := by
  have same : Outcome os.refs os os os.store.volume os.refs
      os.locks := ⟨sound, cached, .refl _ _, rfl, rfl, rfl⟩
  by_cases device : (os.icache ip).dinode.type = tDev
  · unfold readi
    rw [wp_bind, wp_getInode, if_pos device]
    refine wp_bind_of driver_spec ?_
    rintro (_ | driver) _ rfl
    · exact same
    · simp only [wp_bind, wp_pure]
      exact callDriver_spec sound cached opened unlocked
  · refine wp_mono (readi_file_spec (opened.shaped cached sound device) device) ?_ fun _ => id
    rintro _ _ rfl
    exact same

end Read

/-! ## Writing -/

section Write

variable {store next : Store} {inum : Nat} {dinode dinode' : Dinode} {off : Nat} {src : List Byte}

/-- Bytes have been written to a file, and its inode to the disk. -/
structure Wrote (store next : Store) (inum : Nat) (dinode dinode' : Dinode)
    (off : Nat) (src : List Byte) : Prop where
  rewritten : Rewritten store next inum dinode'
  fields : dinode' =
    { dinode with addrs := dinode'.addrs, size := dinode'.size }
  size : dinode'.size.toNat = max dinode.size.toNat (off + src.length)
  bytes : ∀ offset, fileByte (contents next.blocks dinode') offset =
    if off ≤ offset ∧ offset < off + src.length then src.getD (offset - off) 0
    else fileByte (contents store.blocks dinode) offset
  blocks : ∀ bn, contents next.blocks dinode' bn ≠ none ↔ bsize * bn < dinode'.size.toNat
  indirect : dinode'.addr 12 ≠ 0 → bsize * 12 < dinode'.size.toNat

section

variable (written : Written store next store.dinode inum dinode dinode' off src)
include written

/-- The blocks of a file after a write that starts within it. -/
theorem Written.blocks_iff (shaped : Shaped store.blocks dinode) (start : off ≤ dinode.size.toNat)
    (bn : Nat) :
    contents next.blocks dinode' bn ≠ none ↔
      bsize * bn < max dinode.size.toNat (off + src.length) := by
  rw [written.blocks bn, shaped.blocks bn]
  simp only [Touches, bsize]
  omega

theorem Written.indirect_lt (shaped : Shaped store.blocks dinode) (start : off ≤ dinode.size.toNat)
    (present : dinode'.addr 12 ≠ 0) : bsize * 12 < max dinode.size.toNat (off + src.length) := by
  rcases written.indirect present with before | ⟨bn, late, there⟩
  · exact lt_max_of_lt_left (shaped.indirect before)
  · rw [written.blocks_iff shaped start] at there
    simp only [bsize] at there ⊢
    omega

/-- A write within the file does not change the inode. -/
theorem Wrote.of_within (entry : store.dinode inum = dinode) (shaped : Shaped store.blocks dinode)
    (within : off + src.length ≤ dinode.size.toNat) :
    dinode' = dinode ∧ Wrote store next inum dinode dinode off src := by
  have same := written.present (shaped.covered within)
  have start : off ≤ dinode.size.toNat := by omega
  have size : max dinode.size.toNat (off + src.length) = dinode.size.toNat := max_eq_left within
  have blocks := written.blocks_iff shaped start
  subst same
  refine ⟨rfl, ?_, rfl, size.symm, written.bytes, fun bn => ?_, shaped.indirect⟩
  · have loose : Loose store next inum (store.dinode inum) := by
      refine ⟨written.others, ?_⟩
      rw [entry]
      exact written.tracked.balanced
    have rewritten := loose.unchanged
    rwa [entry] at rewritten
  · rw [blocks bn, size]

end

/-- A write beyond the end of the file, with the inode written back. -/
theorem Wrote.of_beyond {final : Store} (sound : Sound store) (inside : inum < store.sb.ninodes)
    (written : Written store next store.dinode inum dinode dinode' off src)
    (allocated : dinode.type ≠ 0) (shaped : Shaped store.blocks dinode)
    (start : off ≤ dinode.size.toNat) (beyond : dinode.size.toNat < off + src.length)
    (fits : off + src.length ≤ maxfile * bsize)
    (update : DinodeWritten next final inum
      { dinode' with size := BitVec.ofNat 32 (off + src.length) }) :
    Wrote store final inum dinode
      { dinode' with size := BitVec.ofNat 32 (off + src.length) } off src := by
  have type : dinode'.type = dinode.type := by rw [written.fields]
  have number : (BitVec.ofNat 32 (off + src.length)).toNat = off + src.length := by
    rw [BitVec.toNat_ofNat, Nat.mod_eq_of_lt]
    simp only [maxfile, ndirect, nindirect, bsize] at fits
    omega
  have size : max dinode.size.toNat (off + src.length) = off + src.length := max_eq_right beyond.le
  have loose : Loose store next inum dinode' := ⟨written.others, written.tracked.balanced⟩
  obtain ⟨rewritten, contents⟩ := loose.write_fields sound inside
    (by rw [type]; exact allocated) update rfl rfl
  refine ⟨rewritten, ?_, ?_, fun offset => ?_, fun bn => ?_, fun present => ?_⟩
  · rw [written.fields]
  · rw [number, size]
  · rw [contents]
    exact written.bytes offset
  · rw [contents, number, written.blocks_iff shaped start bn, size]
  · rw [number, ← size]
    exact written.indirect_lt shaped start present

/-- `writei` writes its bytes to a file that is not a device, unless the range
is out of bounds. -/
theorem writei_spec (sound : Sound os.store) (cached : Cached os)
    (opened : Open os ip) (notDevice : (os.icache ip).dinode.type ≠ tDev)
    (lenient : Lenient stops) :
    wp (writei ip src off)
      (fun result next =>
        ((os.icache ip).dinode.size.toNat < off ∨ maxfile * bsize < off + src.length) ∧
          result = -1 ∧ next = os ∨
        off ≤ (os.icache ip).dinode.size.toNat ∧
          off + src.length ≤ maxfile * bsize ∧ result = src.length ∧
          ∃ store dinode, Wrote os.store store (os.inum ip)
              (os.icache ip).dinode dinode off src ∧
            next = (os.setStore store).setInode ip
              { os.icache ip with dinode := dinode })
      stops os := by
  have inside := opened.inside cached
  have copy := opened.copy cached
  have allocated := opened.allocated cached
  have shaped := opened.shaped cached sound notDevice
  have small := (os.icache ip).dinode.size.isLt
  have tracked := sound.tracked inside (by rw [← copy]; exact allocated)
  rw [← copy] at tracked
  unfold writei
  rw [wp_bind, wp_getInode, if_neg notDevice]
  rw [wp_ite]
  refine ⟨fun out => .inl ⟨?_, rfl, rfl⟩, fun bounded => ?_⟩
  · -- a sum that wraps around is larger than any file
    simp only [maxfile, ndirect, nindirect, bsize]
    rcases out with late | wraps
    · exact .inl late
    · by_cases late : (os.icache ip).dinode.size.toNat < off
      · exact .inl late
      · refine .inr ?_
        by_contra few
        rw [Nat.mod_eq_of_lt (by omega)] at wraps
        omega
  have start : off ≤ (os.icache ip).dinode.size.toNat := by omega
  rw [wp_ite]
  refine ⟨fun large => .inl ⟨.inr large, rfl, rfl⟩, fun fits => ?_⟩
  rw [not_lt] at fits
  rw [wp_bind, wp_onStore]
  refine wp_mono (writeiLoop_spec tracked (le_refl _) fits lenient) ?_
    fun _ => id
  intro dinode store written
  rw [wp_bind, wp_modifyDinode]
  by_cases beyond : (os.icache ip).dinode.size.toNat < off + src.length
  · rw [if_pos ⟨by omega, beyond⟩]
    unfold iupdate
    simp only [wp_bind, wp_modifyDinode, setInode_self, setInode_setInode,
      wp_getInode, wp_onStore, wp_pure]
    refine wp_mono (writeDinode_spec _ _ lenient) ?_ fun _ => id
    intro _ final update
    have wrote := Wrote.of_beyond sound inside written allocated shaped start beyond fits update
    exact .inr ⟨start, fits, trivial, final, _, wrote, rfl⟩
  · rw [if_neg fun grows => beyond grows.2]
    obtain ⟨same, wrote⟩ := Wrote.of_within written copy.symm shaped (not_lt.mp beyond)
    subst same
    exact .inr ⟨start, fits, rfl, store, _, wrote, rfl⟩

/-- `writei` to a device leaves the volume as it is. -/
theorem writei_device_spec (sound : Sound os.store) (cached : Cached os)
    (opened : Open os ip) (device : (os.icache ip).dinode.type = tDev)
    (unlocked : os.locks ip ≠ some os.pid → stops (.panic "iunlock")) :
    wp (writei ip src off) (fun _ next => Outcome os.refs os next os.store.volume
        os.refs os.locks)
      stops os := by
  unfold writei
  rw [wp_bind, wp_getInode, if_pos device]
  refine wp_bind_of driver_spec ?_
  rintro (_ | driver) _ rfl
  · exact ⟨sound, cached, .refl _ _, rfl, rfl, rfl⟩
  · simp only [wp_bind, wp_pure]
    exact callDriver_spec sound cached opened unlocked

end Write

/-! ## Allocating and freeing -/

section Free

instance (os : Kernel) (ip : Slot) : Decidable (os.Frees ip) :=
  inferInstanceAs (Decidable (_ ∧ _ ∧ _))

theorem reference_of_empty (blocks : Nat → Block)
    (empty : ∀ index, dinode.addr index = 0) (pos : Nat) : reference blocks dinode pos = 0 := by
  unfold reference
  split
  · exact empty pos
  · rw [if_pos (empty 12)]

/-- An inode of no blocks and size zero is well formed. -/
theorem Formed.of_empty {blocks : Nat → Block}
    (empty : ∀ index, dinode.addr index = 0) (size : dinode.size = 0) : Formed blocks dinode := by
  intro _ _
  refine ⟨fun bn => ?_, fun present => absurd (empty 12) present, fun _ => ?_⟩
  · unfold contents
    rw [if_neg fun mapped => mapped.2 (reference_of_empty blocks empty _), size]
    simp
  · rw [size]
    rfl

/-- The volume after `iput`. -/
def Kernel.dropped (os : Kernel) (ip : Slot) : Volume :=
  if os.Frees ip then
    Function.update os.store.volume (os.inum ip) none
  else os.store.volume

theorem addr_truncated (dinode : Dinode) (index : Nat) : dinode.truncated.addr index = 0 :=
  rfl

/-- A directory without bytes has no entries. -/
theorem Dinode.node_of_size_zero (blocks : Nat → Block) (size : dinode.size = 0) :
    dinode.node blocks = ⟨dinode.type, dinode.nlink, []⟩ := by
  unfold Dinode.node dirents
  rw [size]
  simp

section

variable (sound : Sound os.store) (cached : Cached os)
include sound cached

theorem itrunc_spec (opened : Open os ip) (lenient : Lenient stops) :
    wp (itrunc ip)
      (fun _ next =>
        Outcome os.refs os next (update os.store.volume (os.inum ip)
            (some ⟨(os.icache ip).dinode.type, (os.icache ip).dinode.nlink, []⟩))
          os.refs os.locks ∧
        next.icache ip = { os.icache ip with
          dinode := (os.icache ip).dinode.truncated })
      stops os := by
  have inside := opened.inside cached
  have copy := opened.copy cached
  have allocated := opened.allocated cached
  have tracked := sound.tracked inside (by rw [← copy]; exact allocated)
  rw [← copy] at tracked
  unfold itrunc iupdate
  simp only [wp_bind, wp_getInode, wp_onStore]
  refine wp_mono (truncate_spec tracked lenient) ?_ fun _ => id
  rintro _ store ⟨rfl, truncated⟩
  simp only [wp_modifyDinode, setInode_self]
  refine wp_mono (writeDinode_spec _ _ lenient) ?_ fun _ => id
  intro _ final written
  have loose : Loose os.store store (os.inum ip) (os.icache ip).dinode.truncated :=
    ⟨truncated.others, truncated.tracked.balanced⟩
  have rewritten := loose.write_empty sound inside
    (fun _ => reference_truncated _ _) written (addr_truncated _)
  have node : Dinode.node? final.blocks (os.icache ip).dinode.truncated =
      some ⟨(os.icache ip).dinode.type, (os.icache ip).dinode.nlink, []⟩ := by
    unfold Dinode.node?
    rw [Dinode.node_of_size_zero _ rfl]
    exact if_neg allocated
  have sound' : Sound final := by
    refine rewritten.sound sound inside (.of_empty (addr_truncated _) rfl) ?_
    intro _ dirent member
    rw [Dinode.node_of_size_zero _ rfl] at member
    cases member
  have outcome := Outcome.of_rewritten os.refs
    { os.icache ip with dinode := (os.icache ip).dinode.truncated } 0
    sound' cached opened.held rewritten (add_zero _).symm (cached.counted ip)
    rfl rfl (fun _ => id) fun _ => ⟨rfl, allocated⟩
  rw [Pi.single_zero, add_zero, node, show update os.locks ip
    (os.icache ip).lock = os.locks from update_eq_self ..]
    at outcome
  exact ⟨outcome, setInode_self ..⟩

/-- An inode without blocks is freed, and the reference given up. -/
theorem Outcome.of_freed {final : Store} (opened : Open os ip) (last : os.refs ip = 1)
    (empty : ∀ index, (os.icache ip).dinode.addr index = 0)
    (written : DinodeWritten os.store final (os.inum ip) { (os.icache ip).dinode with type := 0 }) :
    Outcome (os.refs - Pi.single ip 1) os
      ((os.setStore final).setInode ip { os.icache ip with
        dinode := { (os.icache ip).dinode with type := 0 }
        valid := false
        lock := none
        ref := (os.icache ip).ref - 1 })
      (update os.store.volume (os.inum ip) none)
      (os.refs - Pi.single ip 1)
      (update os.locks ip none) := by
  have inside := opened.inside cached
  have loose : Loose os.store os.store (os.inum ip)
      (os.store.dinode (os.inum ip)) := .refl sound
  rw [← opened.copy cached] at loose
  have rewritten := loose.write_empty sound inside
    (fun _ => reference_of_empty _ empty) written empty
  have sound' : Sound final := by
    refine rewritten.sound sound inside (fun allocated => absurd rfl allocated)
      fun dir => ?_
    cases dir
  have outcome := Outcome.of_rewritten (os.refs - Pi.single ip 1)
    { os.icache ip with
      dinode := { (os.icache ip).dinode with type := 0 }
      valid := false
      lock := none
      ref := (os.icache ip).ref - 1 }
    (-1) sound' cached opened.held rewritten rfl
    (by
      unfold Kernel.refs at last
      simp only
      omega)
    rfl rfl
    (fun held => by
      rw [Pi.sub_apply, Pi.single_eq_same, last] at held
      exact absurd held (lt_irrefl 0))
    fun valid => by cases valid
  rwa [Pi.single_neg, ← sub_eq_add_neg] at outcome

/-- `iput` gives a reference up and frees the inode with the last one. -/
theorem iput_spec (held : 0 < os.refs ip) (waits : Waits stops os ip)
    (lenient : os.Frees ip → Lenient stops) :
    wp (iput ip)
      (fun _ next =>
        Outcome (os.refs - Pi.single ip 1) os next
          (os.dropped ip) (os.refs - Pi.single ip 1) os.locks ∧
        os.locks ip = none)
      stops os := by
  unfold Kernel.dropped
  by_cases frees : os.Frees ip
  · rw [if_pos frees]
    have permits := lenient frees
    obtain ⟨valid, unlinked, last⟩ := frees
    unfold iput releasesleep
    rw [wp_bind]
    refine acquiresleep_spec waits fun free => ?_
    have locked := Shift.of_setInode os.refs
      { os.icache ip with lock := some os.pid } 0 cached
      held (add_zero _).symm (cached.counted ip) rfl rfl id
      (cached.agrees ip held)
    rw [Pi.single_zero, add_zero] at locked
    generalize taken : os.setInode ip
      { os.icache ip with lock := some os.pid } = middle at locked
    have entry : middle.icache ip =
        { os.icache ip with lock := some os.pid } := by
      rw [← taken, setInode_self]
    have opened : Open middle ip := ⟨by rw [locked.refs]; exact held, by rw [entry]; exact valid⟩
    have before := locked.outcome sound
    rw [wp_bind, wp_getInode, entry, if_pos ⟨valid, unlinked⟩]
    have lastHere : (os.icache ip).ref = 1 := last
    simp only [wp_bind, lastHere, if_true]
    refine wp_mono (itrunc_spec before.sound before.cached opened permits) ?_
      fun _ => id
    rintro _ cleared ⟨truncated, copy⟩
    have clearedOpened : Open cleared ip := by
      refine opened.frame truncated.frame opened.held ?_
      rw [truncated.refs]
      exact opened.held
    unfold iupdate
    simp only [wp_bind, wp_modifyDinode, wp_getInode, setInode_self, wp_onStore,
      wp_modifyInode, setInode_store]
    refine wp_mono (writeDinode_spec _ _ permits) ?_ fun _ => id
    intro _ final written
    have freed := Outcome.of_freed truncated.sound truncated.cached
      clearedOpened (by rw [truncated.refs, locked.refs]; exact last)
      (by rw [copy]; exact addr_truncated _) written
    have inum : cleared.inum ip = os.inum ip :=
      (truncated.frame.inum ip opened.held).trans (locked.frame.inum ip held)
    have whole : Frame (os.refs - Pi.single ip 1) os cleared :=
      (before.trans truncated fun jp heldJ => by
        rw [locked.refs]
        exact heldJ).frame.mono fun jp => pos_of_sub_single
    have refs : cleared.refs = os.refs := truncated.refs.trans locked.refs
    have middleInum : middle.inum ip = os.inum ip := locked.frame.inum ip held
    rw [refs, inum, truncated.volume, truncated.locks, locked.locks,
      update_idem, middleInum, locked.store, update_idem,
      show update os.locks ip none = os.locks by
        rw [← free, update_eq_self]] at freed
    simp only [setInode_setStore, setInode_setInode, setInode_self]
    exact ⟨{ freed with frame := whole.trans freed.frame }, free⟩
  · rw [if_neg frees]
    exact wp_mono (iput_spec_kept cached held waits frees)
      (fun _ _ dropped => ⟨dropped.1.outcome sound, dropped.2⟩) fun _ => id

/-- `ialloc` makes a free inode a file without links and blocks. -/
theorem ialloc_spec {type : BitVec 16} (typed : type ≠ 0) (lenient : Lenient stops) :
    wp (ialloc rootdev type) (fun ip next => ∃ inum, os.store.volume inum = none ∧
        inum < os.store.sb.ninodes ∧ 0 < inum ∧
        Outcome os.refs os next (update os.store.volume inum (some ⟨type, 0, []⟩))
          (os.refs + Pi.single ip 1) os.locks ∧
        next.inum ip = inum)
      stops os := by
  unfold ialloc
  simp only [wp_bind, wp_get]
  split
  case h_1 => exact lenient.inodes
  case h_2 inum found =>
    have free : (os.store.dinode inum).type = 0 := by
      have holds := List.find?_some found
      simp only [decide_eq_true_eq] at holds
      exact holds
    obtain ⟨positive, inside⟩ : 0 < inum ∧ inum < os.store.sb.ninodes := by
      have member := List.mem_of_find?_eq_some found
      rw [List.mem_range'_1] at member
      omega
    have absent : os.store.volume inum = none := by
      unfold Store.volume Dinode.node?
      rw [if_pos inside, if_pos free]
    rw [wp_bind, wp_onStore]
    refine wp_mono (writeDinode_spec _ _ lenient) ?_ fun _ => id
    intro _ store written
    have loose : Loose os.store os.store inum (os.store.dinode inum) := .refl sound
    have rewritten := loose.write_empty sound inside
      (fun allocated => absurd free allocated) written fun _ => rfl
    have node : Dinode.node? store.blocks { Dinode.zero with type := type } =
        some ⟨type, 0, []⟩ := by
      unfold Dinode.node?
      rw [Dinode.node_of_size_zero _ rfl]
      exact if_neg typed
    have sound' : Sound store := by
      refine rewritten.sound sound inside (.of_empty (fun _ => rfl) rfl) ?_
      intro _ dirent member
      rw [Dinode.node_of_size_zero _ rfl] at member
      cases member
    have allocated : Outcome os.refs os (os.setStore store)
        (update os.store.volume inum (some ⟨type, 0, []⟩))
        os.refs os.locks := by
      refine ⟨sound', cached.restore store rewritten.kept.sb
        fun jp held valid => ?_, ⟨rfl, rewritten.kept.sb, fun _ _ => rfl,
          fun _ _ => id⟩, ?_, rfl, rfl⟩
      · have apart : os.inum jp ≠ inum := by
          rintro rfl
          exact (cached.agrees jp held valid).2 free
        rw [rewritten.table _ (cached.inside jp held), update_of_ne apart]
      · rw [← node]
        exact rewritten.volume inside
    have inside' : inum < (os.setStore store).store.sb.ninodes := by
      change inum < store.sb.ninodes
      rw [rewritten.kept.sb]
      exact inside
    refine wp_mono (iget_spec allocated.cached inside' fun _ =>
      lenient.entries) ?_ fun _ => id
    rintro ip next ⟨shift, same, -⟩
    have got := shift.outcome sound'
    rw [allocated.volume] at got
    exact ⟨inum, absent, inside, positive, allocated.trans got fun _ => id, same⟩

end

end Free

end Xv6.Fs
