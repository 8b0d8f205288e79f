import Xv6.Buffer.Invariant
import Xv6.Log.Protocol

/-!
# The buffer cache is a block store

What `bread` returns is what was last stored for the block, whichever buffers
were recycled in between.  Each block has at most one buffer, the list pointers
visit each buffer once in either direction, and a block in the uncommitted log
keeps its buffer unless `bwrite` is called on it.
-/

namespace Xv6.Buffer

open Foundation.Transition
open Function (update)
open Foundation.Circular (Links follow)
open State (goto setEntry unrefBuf)

variable {Process : Type} [DecidableEq Process] [Fintype Process]

/-! ## The list of buffers -/

/-- The list pointers visit each buffer once. -/
def Listed (links : Links Buf) : Prop :=
  ∃ order, links.Represents order ∧ ∀ buf, buf ∈ order

section Listed

variable {links : Links Buf}

theorem represents_foldl_pushFront {order bufs : List Buf}
    (represents : links.Represents order) (nodup : bufs.Nodup) (fresh : ∀ buf ∈ bufs, buf ∉ order) :
    (bufs.foldl Links.pushFront links).Represents (bufs.reverse ++ order) := by
  induction bufs generalizing links order with
  | nil => exact represents
  | cons buf bufs ih =>
    obtain ⟨notLater, rest⟩ := List.nodup_cons.mp nodup
    have pushed := represents.pushFront (fresh buf List.mem_cons_self)
    rw [List.reverse_cons, List.append_assoc]
    refine ih pushed rest fun other member inside => ?_
    rcases List.mem_cons.mp inside with rfl | before
    · exact notLater member
    · exact fresh other (List.mem_cons_of_mem _ member) before

theorem listed_binit : Listed binit := by
  have empty : Links.Represents (⟨fun _ => none, fun _ => none⟩ : Links Buf) [] :=
    ⟨List.nodup_nil, by simp [Links.Adjacent]⟩
  refine ⟨_, represents_foldl_pushFront empty (List.nodup_finRange nbuf) nofun, fun buf => ?_⟩
  simp

theorem Listed.moveToFront (listed : Listed links) (buf : Buf) :
    Listed ((links.unlink buf).pushFront buf) := by
  obtain ⟨order, represents, all⟩ := listed
  obtain ⟨front, back, rfl⟩ := List.append_of_mem (all buf)
  have nodup := represents.1
  have fresh : buf ∉ front ++ back := by
    have middle := List.nodup_middle.mp nodup
    exact (List.nodup_cons.mp middle).1
  refine ⟨_, represents.unlink.pushFront fresh, fun other => ?_⟩
  have member := all other
  simp only [List.mem_append, List.mem_cons] at member ⊢
  tauto

theorem perm_finRange {order : List Buf} (nodup : order.Nodup) (all : ∀ buf, buf ∈ order) :
    order.Perm (List.finRange nbuf) :=
  (List.perm_ext_iff_of_nodup nodup (List.nodup_finRange nbuf)).mpr
    fun buf => iff_of_true (all buf) (List.mem_finRange buf)

/-- Following the pointers either way visits each buffer once. -/
theorem Listed.perm (listed : Listed links) : (follow links.next (nbuf + 1) (links.next none)).Perm
        (List.finRange nbuf) ∧
      (follow links.prev (nbuf + 1) (links.prev none)).Perm (List.finRange nbuf) := by
  obtain ⟨order, represents, all⟩ := listed
  have perm := perm_finRange represents.1 all
  have enough : order.length ≤ nbuf + 1 := by
    rw [perm.length_eq, List.length_finRange]
    exact Nat.le_succ nbuf
  rw [represents.follow_next enough, represents.follow_prev enough]
  exact ⟨perm, order.reverse_perm.trans perm⟩

end Listed

/-! ## The invariant -/

/-- What holds in every state of every run. -/
structure Faithful (s : State Process) : Prop where
  mirrors : Mirrors s.entry s.disk s.stored
  guards : Guards s.entry s.lock s.location
  listed : Listed s.links
  returned : ∀ returned ∈ s.returned, returned.data = returned.last

/-- A block in the uncommitted log has a buffer that is not recycled. -/
def Pinned (s : State Process) : Prop :=
  ∀ blockno ∈ s.logged, ∃ buf, (s.entry buf).Assigned blockno ∧
    (s.entry buf).dirty = true

/-- `bwrite` is not called on a block in the uncommitted log. -/
def Careful (s : State Process) : Action Process → Prop
  | .bwrite _ buf _ => (s.entry buf).blockno ∉ s.logged
  | _ => True

instance (s : State Process) : ∀ action, Decidable (Careful s action)
  | .bwrite .. => inferInstanceAs (Decidable (_ ∉ _))
  | .bread .. | .acquire .. | .fill .. | .logWrite .. | .brelse ..
  | .unref .. | .commit => isTrue trivial

section Preservation

variable {s next : State Process} {proc : Process}

omit [DecidableEq Process] [Fintype Process] in
/-- The blocks in the uncommitted log keep their buffers when a buffer that is
dirty stays as it is. -/
theorem Pinned.mono (pinned : Pinned s) (logged : ∀ blockno ∈ next.logged, blockno ∈ s.logged)
    (kept : ∀ buf, (s.entry buf).dirty = true → (next.entry buf).dev = (s.entry buf).dev ∧
      (next.entry buf).blockno = (s.entry buf).blockno ∧
      (next.entry buf).dirty = true) : Pinned next := by
  intro blockno member
  obtain ⟨buf, ⟨rooted, number⟩, dirty⟩ := pinned blockno (logged _ member)
  obtain ⟨dev, same, still⟩ := kept buf dirty
  exact ⟨buf, ⟨dev.trans rooted, same.trans number⟩, still⟩

omit [DecidableEq Process] [Fintype Process] in
theorem Pinned.of_eq (pinned : Pinned s)
    (entry : next.entry = s.entry) (logged : next.logged = s.logged) : Pinned next := by
  refine pinned.mono (by rw [logged]; exact fun _ member => member)
    fun buf dirty => ?_
  rw [entry]
  exact ⟨rfl, rfl, dirty⟩

theorem Faithful.panic (faithful : Faithful s) (message : String)
    (apart : ∀ buf, (s.location proc).refers buf = false) :
    Faithful (s.goto proc (.panicked message)) where
  mirrors := faithful.mirrors
  guards := faithful.guards.panic message apart
  listed := faithful.listed
  returned := faithful.returned

variable {buf : Buf} {blockno : Nat}

section

variable (faithful : Faithful s)
include faithful

/-- `bget` finds the buffer of the block. -/
theorem Faithful.found (place : s.location proc = .idle)
    (assigned : (s.entry buf).Assigned blockno) :
    Faithful ((s.setEntry buf { s.entry buf with
      refcnt := (s.entry buf).refcnt + 1 }).goto proc (.locking buf blockno)) where
  mirrors := faithful.mirrors.refcnt buf _
  guards := faithful.guards.found place assigned
  listed := faithful.listed
  returned := faithful.returned

theorem Faithful.recycle {fresh : Entry} (place : s.location proc = .idle) (unused : s.Unused buf)
    (none : ∀ other, ¬ (s.entry other).Assigned blockno) (assigned : fresh.Assigned blockno)
    (invalid : fresh.valid = false) (clean : fresh.dirty = false) (one : fresh.refcnt = 1) :
    Faithful ((s.setEntry buf fresh).goto proc (.locking buf blockno)) where
  mirrors := faithful.mirrors.recycle unused.2 none assigned invalid clean
  guards := faithful.guards.recycle place unused.1 one assigned
  listed := faithful.listed
  returned := faithful.returned

omit [DecidableEq Process] in
theorem Faithful.mem_forward (buf : Buf) : buf ∈ s.forward :=
  faithful.listed.perm.1.mem_iff.mpr (List.mem_finRange buf)

theorem Faithful.bget (blockno : Nat)
    (place : s.location proc = .idle) : Faithful (s.bget proc blockno) := by
  unfold State.bget
  split
  case h_1 buf found =>
    have test := List.find?_some found
    have assigned : s.Assigned buf blockno := of_decide_eq_true test
    exact faithful.found place assigned
  case h_2 missing =>
    have none (other : Buf) : ¬ (s.entry other).Assigned blockno := by
      have test := List.find?_eq_none.mp missing other (faithful.mem_forward other)
      exact fun assigned => test (decide_eq_true assigned)
    split
    case h_1 buf found =>
      have test := List.find?_some found
      exact faithful.recycle place (of_decide_eq_true test) none ⟨rfl, rfl⟩ rfl rfl rfl
    case h_2 =>
      refine faithful.panic _ fun buf => ?_
      rw [place]
      rfl

end

omit [Fintype Process] in
/-- `bget` takes no buffer from a block in the uncommitted log. -/
theorem Pinned.bget (pinned : Pinned s) (blockno : Nat) : Pinned (s.bget proc blockno) := by
  unfold State.bget
  split
  case h_1 buf found =>
    refine pinned.mono (fun _ member => member) fun other dirty => ?_
    by_cases same : other = buf
    · subst same
      simpa [goto, setEntry] using dirty
    · simpa [goto, setEntry, same] using dirty
  case h_2 missing =>
    split
    case h_1 buf found =>
      have test := List.find?_some found
      have unused : s.Unused buf := of_decide_eq_true test
      refine pinned.mono (fun _ member => member) fun other dirty => ?_
      have differs : other ≠ buf := by
        rintro rfl
        exact absurd dirty (by simp [unused.2])
      simpa [goto, setEntry, differs] using dirty
    case h_2 => exact pinned.of_eq rfl rfl

variable {filled : State Process}

omit [DecidableEq Process] [Fintype Process] in
theorem iderw_cases (done : s.iderw buf = .ok filled) :
    (s.entry buf).dev = rootdev ∧
      ((s.entry buf).dirty = true ∧ filled = { s.setEntry buf { s.entry buf with
              dirty := false
              valid := true } with
            disk := update s.disk (s.entry buf).blockno (s.entry buf).data } ∨
        (s.entry buf).dirty = false ∧
          filled = s.setEntry buf { s.entry buf with
            data := s.disk (s.entry buf).blockno
            valid := true }) := by
  unfold State.iderw at done
  dsimp only at done
  split_ifs at done with busy foreign outside dirty
  · exact ⟨not_not.mp foreign, .inl ⟨dirty, (Except.ok.inj done).symm⟩⟩
  · exact ⟨not_not.mp foreign, .inr ⟨Bool.eq_false_iff.mpr dirty, (Except.ok.inj done).symm⟩⟩

/-- `bread` returns a valid buffer. -/
theorem Faithful.deliver (faithful : Faithful s) (place : s.location proc = .filling buf blockno)
    (valid : (s.entry buf).valid = true) : Faithful (s.deliver proc buf blockno) where
  mirrors := faithful.mirrors
  guards := faithful.guards.deliver place valid
  listed := faithful.listed
  returned := by
    intro returned member
    rcases List.mem_cons.mp member with rfl | before
    · obtain ⟨⟨_, number⟩, _⟩ := faithful.guards.filling _ _ _ place
      obtain ⟨_, data⟩ := faithful.mirrors.contents buf valid
      rw [number] at data
      exact data
    · exact faithful.returned returned before

omit [DecidableEq Process] in
theorem Faithful.read (faithful : Faithful s)
    (invalid : (s.entry buf).valid = false) (done : s.iderw buf = .ok filled) :
    Faithful filled ∧ (Pinned s → Pinned filled) ∧ filled.location = s.location ∧
      (filled.entry buf).valid = true := by
  obtain ⟨rooted, ⟨dirty, _⟩ | ⟨clean, rfl⟩⟩ := iderw_cases done
  · have valid := faithful.mirrors.dirty buf dirty
    exact absurd valid (by simp [invalid])
  · refine ⟨⟨faithful.mirrors.read rooted clean, ?_, faithful.listed,
      faithful.returned⟩, fun pinned => ?_, rfl, ?_⟩
    · refine faithful.guards.entries (fun other => ?_) fun other valid => ?_
      · by_cases same : other = buf
        · subst same
          simp [setEntry]
        · simp [setEntry, same]
      · by_cases same : other = buf
        · subst same
          simp [setEntry]
        · simpa [setEntry, same] using valid
    · refine pinned.mono (fun _ member => member) fun other dirty => ?_
      have differs : other ≠ buf := by
        rintro rfl
        exact absurd dirty (by simp [clean])
      simpa [setEntry, differs] using dirty
    · simp [setEntry]

omit [DecidableEq Process] in
theorem Faithful.valid_of_holds (faithful : Faithful s) (holds : s.Holds proc buf) :
    (s.entry buf).valid = true := by
  refine faithful.guards.valid holds.2 ⟨fun number => ?_, fun message => ?_⟩
  all_goals
    rw [holds.1]
    nofun

omit [DecidableEq Process] in
/-- The caller changes a buffer it has locked, and the contents are stored. -/
theorem Faithful.store (changed : Entry) (faithful : Faithful s)
    (holds : s.Holds proc buf) (refcnt : changed.refcnt = (s.entry buf).refcnt)
    (dev : changed.dev = (s.entry buf).dev)
    (blockno : changed.blockno = (s.entry buf).blockno) (valid : changed.valid = true)
    (written : changed.dirty = true ∨ next.disk (s.entry buf).blockno = changed.data)
    (others : ∀ number, number ≠ (s.entry buf).blockno → next.disk number = s.disk number)
    (entry : next.entry = update s.entry buf changed)
    (stored : next.stored = update s.stored (s.entry buf).blockno changed.data)
    (rest : next.lock = s.lock ∧ next.location = s.location ∧
      next.links = s.links ∧ next.returned = s.returned) : Faithful next := by
  obtain ⟨lock, location, links, returned⟩ := rest
  have ready := faithful.valid_of_holds holds
  have rooted := (faithful.mirrors.contents buf ready).1
  constructor
  · rw [entry, stored]
    exact faithful.mirrors.store changed rooted dev blockno valid written others
  · rw [entry, lock, location]
    refine faithful.guards.entries (fun other => ?_) fun other before => ?_
    · by_cases same : other = buf
      · subst same
        simpa using ⟨refcnt, dev, blockno⟩
      · simp [same]
    · by_cases same : other = buf
      · subst same
        simpa using valid
      · simpa [same] using before
  · rw [links]
    exact faithful.listed
  · rw [returned]
    exact faithful.returned

/-- The rest of `bread`. -/
theorem Faithful.fill (faithful : Faithful s) (moved : s.step (.fill proc) = some next) :
    Faithful next ∧ (Pinned s → Pinned next) := by
  simp only [State.step] at moved
  split at moved
  case h_2 => nomatch moved
  case h_1 buf blockno place =>
    split_ifs at moved with valid
    · cases moved
      exact ⟨faithful.deliver place valid, fun pinned => pinned.of_eq rfl rfl⟩
    · split at moved
      · cases moved
        refine ⟨faithful.panic _ fun other => ?_,
          fun pinned => pinned.of_eq rfl rfl⟩
        rw [place]
        rfl
      case h_2 filled done =>
        cases moved
        obtain ⟨kept, pins, location, ready⟩ := faithful.read (Bool.eq_false_iff.mpr valid) done
        refine ⟨kept.deliver ?_ ready, fun pinned => (pins pinned).of_eq rfl rfl⟩
        rw [location]
        exact place

/-- A locked buffer is changed and logged. -/
theorem Faithful.logWrite {data : Block} (faithful : Faithful s)
    (moved : s.step (.logWrite proc buf data) = some next) :
    Faithful next ∧ (Pinned s → Pinned next) := by
  simp only [State.step] at moved
  split_ifs at moved with holds
  cases moved
  have valid := faithful.valid_of_holds holds
  constructor
  · exact faithful.store
      { s.entry buf with
        data := data
        dirty := true } holds rfl rfl rfl valid (.inl rfl) (fun _ _ => rfl)
      rfl rfl ⟨rfl, rfl, rfl, rfl⟩
  · intro pinned blockno member
    rcases (Log.mem_absorb ..).mp member with before | rfl
    rotate_left
    · have rooted := (faithful.mirrors.contents buf valid).1
      exact ⟨buf, by simpa [setEntry, Entry.Assigned] using rooted, by simp [setEntry]⟩
    · obtain ⟨other, assigned, dirty⟩ := pinned blockno before
      by_cases same : other = buf
      · subst same
        exact ⟨other, by simpa [setEntry, Entry.Assigned] using assigned,
          by simp [setEntry]⟩
      · exact ⟨other, by simpa [setEntry, same] using assigned,
          by simpa [setEntry, same] using dirty⟩

/-- A locked buffer is changed and written. -/
theorem Faithful.bwrite {data : Block} (faithful : Faithful s)
    (moved : s.step (.bwrite proc buf data) = some next) :
    Faithful next ∧ ((s.entry buf).blockno ∉ s.logged → Pinned s → Pinned next) := by
  simp only [State.step] at moved
  split_ifs at moved with holds
  split at moved
  · cases moved
    refine ⟨faithful.panic _ fun other => ?_,
      fun _ pinned => pinned.of_eq rfl rfl⟩
    rw [holds.1]
    rfl
  case h_2 written done =>
    cases moved
    obtain ⟨_, ⟨_, rfl⟩ | ⟨clean, _⟩⟩ := iderw_cases done
    · constructor
      · refine faithful.store
          { s.entry buf with
            data := data
            dirty := false
            valid := true } holds rfl rfl rfl rfl (.inr ?_) (fun number other => ?_)
          ?_ rfl ⟨rfl, rfl, rfl, rfl⟩
        · simp [setEntry]
        · simp [setEntry, other]
        · simp [setEntry]
      · intro careful pinned blockno member
        obtain ⟨other, assigned, dirty⟩ := pinned blockno member
        have differs : other ≠ buf := by
          rintro rfl
          rw [assigned.2] at careful
          exact careful member
        exact ⟨other, by simpa [setEntry, differs] using assigned,
          by simpa [setEntry, differs] using dirty⟩
    · simp [setEntry] at clean

omit [Fintype Process] [DecidableEq Process] in
/-- What `brelse` does besides moving the buffer in the list. -/
theorem unrefBuf_fields (s : State Process) (buf : Buf) :
    (s.unrefBuf buf).entry = update s.entry buf
        { s.entry buf with refcnt := (s.entry buf).refcnt - 1 } ∧
      (s.unrefBuf buf).disk = s.disk ∧
      (s.unrefBuf buf).lock = s.lock ∧
      (s.unrefBuf buf).location = s.location ∧
      (s.unrefBuf buf).logged = s.logged ∧
      (s.unrefBuf buf).stored = s.stored ∧
      (s.unrefBuf buf).returned = s.returned := by
  unfold unrefBuf
  dsimp only
  split_ifs <;> exact ⟨rfl, rfl, rfl, rfl, rfl, rfl, rfl⟩

/-- The rest of `brelse`. -/
theorem Faithful.unref (faithful : Faithful s) (moved : s.step (.unref proc) = some next) :
    Faithful next ∧ (Pinned s → Pinned next) := by
  simp only [State.step] at moved
  split at moved
  case h_2 => nomatch moved
  case h_1 buf place =>
    cases moved
    have links : Listed (s.unrefBuf buf).links := by
      unfold unrefBuf
      dsimp only
      split_ifs
      · exact faithful.listed.moveToFront buf
      · exact faithful.listed
    obtain ⟨entry, disk, lock, location, logged, stored, returned⟩ := unrefBuf_fields s buf
    constructor
    · refine ⟨?_, ?_, links, ?_⟩
      · simpa only [goto, entry, disk, stored] using faithful.mirrors.refcnt buf _
      · simpa only [goto, entry, lock, location] using faithful.guards.unref place
      · simpa only [goto, returned] using faithful.returned
    · intro pinned
      refine pinned.mono (by simp [goto, logged]) fun other dirty => ?_
      by_cases same : other = buf
      · subst same
        simpa [goto, entry] using dirty
      · simpa [goto, entry, same] using dirty

/-- Every step keeps the invariant, and pinned blocks stay pinned. -/
theorem Faithful.step {action : Action Process}
    (faithful : Faithful s) (moved : s.step action = some next) :
    Faithful next ∧ (Careful s action → Pinned s → Pinned next) := by
  cases action with
  | bread proc blockno =>
    simp only [State.step] at moved
    split_ifs at moved with place
    cases moved
    exact ⟨faithful.bget blockno place, fun _ pinned => pinned.bget blockno⟩
  | acquire proc =>
    simp only [State.step] at moved
    split at moved
    case h_2 => nomatch moved
    case h_1 buf blockno place =>
      split_ifs at moved with free
      cases moved
      exact ⟨⟨faithful.mirrors, faithful.guards.acquire place free,
        faithful.listed, faithful.returned⟩,
        fun _ pinned => pinned.of_eq rfl rfl⟩
  | fill proc => exact ⟨(faithful.fill moved).1, fun _ => (faithful.fill moved).2⟩
  | logWrite proc buf data =>
    exact ⟨(faithful.logWrite moved).1, fun _ => (faithful.logWrite moved).2⟩
  | bwrite proc buf data => exact faithful.bwrite moved
  | brelse proc buf =>
    simp only [State.step] at moved
    split_ifs at moved with holds
    cases moved
    exact ⟨⟨faithful.mirrors, faithful.guards.brelse holds.1 holds.2,
      faithful.listed, faithful.returned⟩,
      fun _ pinned => pinned.of_eq rfl rfl⟩
  | unref proc => exact ⟨(faithful.unref moved).1, fun _ => (faithful.unref moved).2⟩
  | commit =>
    cases moved
    exact ⟨⟨faithful.mirrors, faithful.guards, faithful.listed,
      faithful.returned⟩, fun _ _ => nofun⟩

omit [DecidableEq Process] in
theorem faithful_started (disk : Nat → Block) (disksize : Nat) :
    Faithful (started disk disksize : State Process) where
  mirrors := by
    refine ⟨fun _ valid => absurd valid Bool.false_ne_true,
      fun _ dirty => absurd dirty Bool.false_ne_true, ?_, fun _ => .inl rfl⟩
    intro buf other blockno assigned _
    exact absurd assigned.1 Nat.zero_ne_one
  guards := by
    refine ⟨fun buf => ?_, fun _ _ _ place => Location.noConfusion place,
      fun _ _ _ place => Location.noConfusion place,
      fun _ _ held => absurd held (Option.some_ne_none _).symm⟩
    simp [started, Entry.zero, count, Location.refers]
  listed := listed_binit
  returned := fun _ member => absurd member List.not_mem_nil

end Preservation

/-- `bread` returns what was last stored for the block, a block has at most one
buffer, the list pointers visit each buffer once in either direction, and the
buffer of a block in the uncommitted log is not recycled, provided `bwrite` was
not called on such a block. -/
theorem blockStore_of_run {disk : Nat → Block} {disksize : Nat}
    {actions : List (Action Process)} {final : State Process}
    (ended : run State.step (started disk disksize) actions = some final) :
    (∀ returned ∈ final.returned, returned.data = returned.last) ∧
      (∀ buf other blockno, final.Assigned buf blockno →
        final.Assigned other blockno → buf = other) ∧
      final.forward.Perm (List.finRange nbuf) ∧
      final.backward.Perm (List.finRange nbuf) ∧
      (Along State.step Careful (started disk disksize) actions →
        ∀ buf blockno, final.Assigned buf blockno →
          blockno ∈ final.logged → ¬ final.Unused buf) := by
  have start : Faithful (started disk disksize : State Process) := faithful_started disk disksize
  have faithful := run_invariant Faithful
    (fun _ _ _ before moved => (before.step moved).1) start ended
  refine ⟨faithful.returned, faithful.mirrors.unique, faithful.listed.perm.1,
    faithful.listed.perm.2, fun careful buf blockno assigned member => ?_⟩
  have both := run_invariant_along (fun s => Faithful s ∧ Pinned s)
    (fun _ _ _ before allowed moved =>
      have after := before.1.step moved
      ⟨after.1, after.2 allowed before.2⟩)
    ⟨start, fun _ member => absurd member List.not_mem_nil⟩ careful ended
  obtain ⟨other, pinned, dirty⟩ := both.2 blockno member
  have same := faithful.mirrors.unique buf other blockno assigned pinned
  subst same
  exact fun unused => absurd (unused.2.symm.trans dirty) Bool.false_ne_true

/-- One process. -/
abbrev Solo := Fin 1

/-- `bread` of each block, keeping the buffers. -/
def reads (blocks : List Nat) : List (Action Solo) :=
  blocks.flatMap fun blockno => [.bread 0 blockno, .acquire 0, .fill 0]

/-- A block is logged and its buffer released; the block is read again. -/
def loggedRun : List (Action Solo) :=
  reads [1] ++ [.logWrite 0 0 7, .brelse 0 0, .unref 0] ++ reads [2, 1]

theorem blockStore_loggedRun : ∃ final, run State.step (started (fun _ => 0) 1000) loggedRun =
        some final ∧
      final.returned.map (fun returned =>
        (returned.blockno, returned.data)) = [(1, 7), (2, 0), (1, 0)] ∧
      (∀ returned ∈ final.returned, returned.data = returned.last) ∧
      ¬ final.Unused 0 := by
  have seen : ((run State.step (started (fun _ => 0) 1000) loggedRun).map
      fun final => (final.returned.map fun returned =>
        (returned.blockno, returned.data),
        decide (final.Assigned 0 1), final.logged)) =
      some ([(1, 7), (2, 0), (1, 0)], true, [1]) := by
    decide +kernel
  obtain ⟨final, ended, same⟩ := Option.map_eq_some_iff.mp seen
  obtain ⟨returned, assigned, logged⟩ :
      _ ∧ decide (final.Assigned 0 1) = true ∧ final.logged = [1] := by
    simpa only [Prod.mk.injEq] using same
  have store := blockStore_of_run ended
  refine ⟨final, ended, returned, store.1, ?_⟩
  exact store.2.2.2.2 (by decide +kernel) 0 1 (of_decide_eq_true assigned) (by simp [logged])

/-- A block is logged and then written by `bwrite`, and its buffer released;
then every other buffer is taken. -/
def overwrittenRun : List (Action Solo) :=
  reads [1] ++ [.logWrite 0 0 7, .bwrite 0 0 7, .brelse 0 0, .unref 0] ++ reads (List.range' 2 29)

/-- The buffer of a block in the uncommitted log is recycled. -/
theorem recycled_overwrittenRun : ∃ final next : State Solo,
      run State.step (started (fun _ => 0) 1000) overwrittenRun = some final ∧
      final.Assigned 0 1 ∧
      final.step (.bread 0 31) = some next ∧
      next.Assigned 0 31 ∧ 1 ∈ next.logged := by
  have seen : ((run State.step (started (fun _ => 0) 1000)
      overwrittenRun).map fun final => (decide (final.Assigned 0 1),
        (final.step (.bread 0 31)).map fun next =>
          (decide (next.Assigned 0 31), next.logged))) =
      some (true, some (true, [1])) := by
    decide +kernel
  obtain ⟨final, ended, same⟩ := Option.map_eq_some_iff.mp seen
  obtain ⟨assigned, recycled⟩ := Prod.mk.injEq .. ▸ same
  obtain ⟨next, moved, both⟩ := Option.map_eq_some_iff.mp recycled
  obtain ⟨taken, logged⟩ := Prod.mk.injEq .. ▸ both
  exact ⟨final, next, ended, of_decide_eq_true assigned, moved,
    of_decide_eq_true taken, by simp [logged]⟩

end Xv6.Buffer
