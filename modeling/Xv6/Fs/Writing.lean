import Xv6.Fs.Handles

/-!
# Writing to open files

`filewrite` of `file.c` on a file that is not a pipe.  Each round of its loop is
a transaction that writes at most `max` bytes at the offset of the open file,
which it advances under the lock of the inode.
-/

namespace Xv6.Fs

open Function Foundation.Program

/-- `max` in `filewrite`. -/
abbrev filewriteMax : Nat := ((Log.maxopblocks - 1 - 1 - 2) / 2) * 512

/-- `if(r > 0) f->off += r`. -/
def File.advance (file : File) (r : Int) : File :=
  if 0 < r then { file with off := file.off + r.toNat } else file

/-- The transaction in a round of `filewrite`: the result of its `writei`. -/
def filewriteChunk (f : Fin nfile) (src : List Byte) : KernelM Int := do
  onStore beginOp
  let ip := ((← get).ftable f).ip
  ilock ip
  let r ← writei ip src ((← get).ftable f).off
  modify fun os => os.setFile f ((os.ftable f).advance r)
  iunlock ip
  onStore endOp
  return r

/-- A round of `filewrite` that has written `i` bytes: the bytes written then,
or the result of the call. -/
def filewriteRound (f : Fin nfile) (addr : List Byte) (i : Nat) : KernelM (Nat ⊕ Int) := do
  let file := (← get).ftable f
  if file.writable = false then return .inr (-1)
  else if file.type ≠ .inode then throw (.panic "filewrite")
  else if i < addr.length then
    let chunk := (addr.drop i).take filewriteMax
    let r ← filewriteChunk f chunk
    if r < 0 then return .inr (-1)
    else if r ≠ chunk.length then throw (.panic "short filewrite")
    else return .inl (i + r.toNat)
  else return .inr addr.length

section Chunk

variable {os : Kernel} {f : Fin nfile} {src : List Byte} {stops : Stop → Prop}

/-- The table of open files does not matter to the disk and the cache. -/
theorem Outcome.setFile {next : Kernel} {base refs : Slot → Int} {volume : Volume}
    {locks : Slot → Option Nat} (outcome : Outcome base os next volume refs locks)
    (f : Fin nfile) (file : File) :
    Outcome base (os.setFile f file) (next.setFile f file) volume refs locks where
  sound := outcome.sound
  cached := ⟨outcome.cached.counted, outcome.cached.device,
    outcome.cached.inside, outcome.cached.unique, outcome.cached.agrees⟩
  frame :=
    { outer := by
        rw [outcome.frame.outer]
        rfl
      sb := outcome.frame.sb
      inum := outcome.frame.inum
      valid := outcome.frame.valid }
  volume := outcome.volume
  refs := outcome.refs
  locks := outcome.locks

/-- The transaction of a round, given what its `writei` does. -/
theorem filewriteChunk_rule {wrote : Int → Kernel → Prop}
    (sound : Sound os.store) (cached : Cached os)
    (free : ∀ ip, os.locks ip = none) (held : 0 < os.refs (os.ftable f).ip)
    (allocated : (os.store.dinode (os.inum (os.ftable f).ip)).type ≠ 0)
    (asleep : os.store.Full → stops .asleep)
    (writes : ∀ locked, Undone os.refs os locked os.refs
        (update os.locks (os.ftable f).ip (some os.pid)) →
      Open locked (os.ftable f).ip →
      wp (writei (os.ftable f).ip src (os.ftable f).off)
        (fun r next =>
          Outcome locked.refs locked next locked.store.volume locked.refs
            locked.locks ∧ wrote r next)
        stops locked) :
    wp (filewriteChunk f src)
      (fun r next =>
        Outcome os.refs (os.setFile f ((os.ftable f).advance r))
          next os.store.volume os.refs os.locks ∧
        ∃ written, wrote r written ∧ next.store.file = written.store.file)
      stops os := by
  unfold filewriteChunk
  refine wp_bind_of (beginOp_spec sound cached asleep) ?_
  intro _ begun begins
  have begin := begins os.refs
  have ftable := begin.frame.ftable
  have inum := begin.frame.inum _ held
  simp only [wp_bind, wp_get, ftable]
  -- The inode is locked; nobody else holds its lock.
  refine wp_mono (ilock_spec begin.cached (by rw [begin.refs]; exact held)
    (fun holder taken => ?_) fun untyped => ?_) ?_ fun _ => id
  · rw [begin.locks, free] at taken
    cases taken
  · have volume := congrFun begin.volume (os.inum (os.ftable f).ip)
    have inside := cached.inside _ held
    unfold Store.volume at volume
    rw [inum] at untyped
    rw [begin.frame.sb, if_pos inside, if_pos inside] at volume
    unfold Dinode.node? at volume
    rw [if_pos untyped, if_neg allocated] at volume
    cases volume
  rintro _ locked ⟨shift, valid, -⟩
  have undone : Undone os.refs os locked os.refs
      (update os.locks (os.ftable f).ip (some os.pid)) := by
    rw [begin.refs, begin.locks, begin.frame.pid] at shift
    exact begin.trans (shift.undone begin.sound) fun _ => id
  have opened : Open locked (os.ftable f).ip := ⟨by rw [undone.refs]; exact held, valid⟩
  rw [undone.frame.ftable]
  refine wp_mono (writes locked undone opened) ?_ fun _ => id
  rintro r written ⟨outcome, wrote⟩
  rw [wp_modify]
  have ran : Outcome os.refs os written os.store.volume
      os.refs (update os.locks (os.ftable f).ip (some os.pid)) := by
    rw [undone.volume, undone.refs, undone.locks] at outcome
    exact undone.toOutcome.trans outcome fun _ => id
  rw [ran.frame.ftable]
  have moved := ran.setFile f ((os.ftable f).advance r)
  refine wp_mono (iunlock_spec moved.cached (by rw [moved.refs]; exact held) ?_) ?_ fun _ => id
  · rw [moved.locks, update_self, moved.frame.pid]
    rfl
  intro _ unlocked back
  have unheld : update os.locks (os.ftable f).ip none = os.locks := by
    rw [← free (os.ftable f).ip]
    exact update_eq_self ..
  rw [moved.refs, moved.locks, update_idem, unheld] at back
  have done : Outcome os.refs (os.setFile f ((os.ftable f).advance r)) unlocked
      os.store.volume os.refs os.locks := by
    have given := back.outcome moved.sound
    rw [moved.volume] at given
    exact moved.trans given fun _ => id
  refine wp_mono (endOp_spec done.sound done.cached) ?_ fun _ => id
  intro _ next ends
  rw [wp_pure]
  have ended := ends os.refs
  have final : Outcome os.refs (os.setFile f ((os.ftable f).advance r)) next
      os.store.volume os.refs os.locks := by
    have given := ended.toOutcome
    rw [done.volume, done.refs, done.locks] at given
    exact done.trans given fun _ => id
  refine ⟨final, written, wrote, ?_⟩
  rw [ended.relinked.file_eq done.sound ended.volume, back.store]
  rfl

/-- A round keeps the inodes without links in use. -/
theorem Outcome.quiet_advance {next : Kernel} {r : Int} (quiet : Quiet os)
    (outcome : Outcome os.refs (os.setFile f ((os.ftable f).advance r)) next
      os.store.volume os.refs os.locks) : Quiet next := by
  have before : Quiet (os.setFile f ((os.ftable f).advance r)) := quiet.outer rfl rfl
  exact outcome.quiet before (outcome.retained before.retained)

/-- A byte of a file. -/
def Store.byte (store : Store) (inum offset : Nat) : Byte :=
  fileByte (contents store.blocks (store.dinode inum)) offset

theorem byte_of_file {store next : Store} {inum : Nat} (inside : inum < store.sb.ninodes)
    (allocated : (store.dinode inum).type ≠ 0) (file : next.file inum = store.file inum) :
    next.byte inum = store.byte inum := by
  unfold Store.file at file
  rw [if_pos (show inum < store.sb.ninodes ∧ (store.dinode inum).type ≠ 0 from
    ⟨inside, allocated⟩)] at file
  split at file
  case isTrue =>
    rw [Option.some.injEq, Prod.mk.injEq] at file
    unfold Store.byte
    funext offset
    rw [file.2]
  case isFalse => cases file

/-- Bytes were written to a file at an offset. -/
def WrittenAt (store next : Store) (inum off : Nat) (src : List Byte) : Prop :=
  ∀ offset, next.byte inum offset =
    if off ≤ offset ∧ offset < off + src.length then src.getD (offset - off) 0
    else store.byte inum offset

/-- The open file is on an inode of a regular file. -/
structure Regular (os : Kernel) (f : Fin nfile) (ip : Slot) (inum : Nat) :
    Prop where
  quiet : Quiet os
  points : (os.ftable f).ip = ip
  held : 0 < os.refs ip
  number : os.inum ip = inum
  file : ∃ node, os.store.volume inum = some node ∧ node.type = tFile

/-- `writei` to a regular file writes all its bytes, or fails. -/
theorem writei_regular {ip : Slot} {off : Nat} (sound : Sound os.store)
    (cached : Cached os) (opened : Open os ip)
    (type : (os.icache ip).dinode.type = tFile) (lenient : Lenient stops) :
    wp (writei ip src off) (fun r next => Outcome os.refs os next os.store.volume
          os.refs os.locks ∧
        (r = -1 ∨ r = src.length ∧ WrittenAt os.store next.store (os.inum ip) off src))
      stops os := by
  have notDevice : (os.icache ip).dinode.type ≠ tDev := by
    rw [type]
    decide
  have notDirectory : (os.icache ip).dinode.type ≠ tDir := by
    rw [type]
    decide
  refine wp_mono (wp_and (writei_file_spec sound cached opened notDevice notDirectory lenient)
    (writei_spec sound cached opened notDevice lenient)) ?_ fun _ => id
  rintro r next ⟨outcome, ⟨-, failed, -⟩ | ⟨-, -, result, store, dinode, wrote, rfl⟩⟩
  · exact ⟨outcome, .inl failed⟩
  · refine ⟨outcome, .inr ⟨result, fun offset => ?_⟩⟩
    have inside := opened.inside cached
    have entry : store.dinode (os.inum ip) = dinode := by
      rw [wrote.rewritten.table _ inside, update_self]
    unfold Store.byte
    change fileByte (contents store.blocks (store.dinode _)) offset = _
    rw [entry, wrote.bytes offset, opened.copy cached]

/-- The transaction writes all its bytes at the offset of the open file, or
fails. -/
theorem filewriteChunk_spec {ip : Slot} {inum : Nat}
    (regular : Regular os f ip inum) (lenient : Lenient stops) (asleep : stops .asleep) :
    wp (filewriteChunk f src) (fun r next => Regular next f ip inum ∧
        next.ftable = update os.ftable f ((os.ftable f).advance r) ∧
        (r = -1 ∨ r = src.length ∧ WrittenAt os.store next.store inum (os.ftable f).off src))
      stops os := by
  obtain ⟨quiet, rfl, held, rfl, node, present, type⟩ := regular
  obtain ⟨inside, allocated, rfl⟩ := volume_eq_some.mp present
  refine wp_mono (@filewriteChunk_rule os f src stops (fun r written => r = -1 ∨ r = src.length ∧
      WrittenAt os.store written.store (os.inum (os.ftable f).ip)
        (os.ftable f).off src)
    quiet.sound quiet.cached quiet.unlocked held allocated (fun _ => asleep)
    ?_) ?_ fun _ => id
  · intro locked undone opened
    have same : locked.store.byte (os.inum (os.ftable f).ip) =
        os.store.byte (os.inum (os.ftable f).ip) :=
      byte_of_file inside allocated (congrFun (undone.relinked.file_eq quiet.sound undone.volume) _)
    have number := undone.frame.inum _ held
    have kind : (locked.icache (os.ftable f).ip).dinode.type = tFile := by
      have node := opened.volume undone.cached
      rw [number, undone.volume, present, Option.some.injEq] at node
      exact (congrArg Node.type node).symm.trans type
    refine wp_mono (writei_regular undone.sound undone.cached opened kind lenient) ?_ fun _ => id
    rintro r next ⟨outcome, failed | ⟨result, bytes⟩⟩
    · exact ⟨outcome, .inl failed⟩
    · unfold WrittenAt at bytes
      rw [number, same] at bytes
      exact ⟨outcome, .inr ⟨result, bytes⟩⟩
  · rintro r next ⟨outcome, written, wrote, file⟩
    have after := outcome.quiet_advance quiet
    have number : next.inum (os.ftable f).ip =
        os.inum (os.ftable f).ip := outcome.frame.inum _ held
    have ftable : next.ftable = update os.ftable f
        ((os.ftable f).advance r) := outcome.frame.ftable
    have found : next.store.volume (os.inum (os.ftable f).ip) = _ :=
      (congrFun outcome.volume _).trans present
    refine ⟨⟨after, ?_, by rw [outcome.refs]; exact held, number, _, found, type⟩, ftable, ?_⟩
    · rw [ftable, update_self]
      unfold File.advance
      split <;> rfl
    · refine wrote.imp_right fun success => ⟨success.1, fun offset => ?_⟩
      obtain ⟨nextInside, nextAllocated, -⟩ := volume_eq_some.mp found
      rw [← success.2 offset, byte_of_file nextInside nextAllocated (congrFun file _).symm]

end Chunk

end Xv6.Fs
