import Xv6.Log.Protocol
import Mathlib.Data.List.GetD

/-!
# Which group an operation belongs to

The log keeps a record of the `log_write` calls that were carried out and of
the groups that were committed.  The invariant of this module relates the two:
the blocks of one operation are all in one group, and a committed group holds
the blocks its operations logged and no others.
-/

namespace Xv6.Log

open List Function Foundation.Transition

/-- Writing the header of a group is part of a commit. -/
theorem Location.committing_of_posted {location : Location}
    (posted : location.posted = true) : location.committing = true := by
  cases location <;> first | rfl | cases posted

/-- Nobody has written a header while an operation is under way. -/
theorem Protocol.unposted {Process : Type} [Fintype Process]
    {s : State Process} (protocol : Protocol s) {proc : Process}
    (operating : (s.location proc).operating = true) (other : Process) :
    (s.location other).posted = false := by
  cases posted : (s.location other).posted with
  | false => rfl
  | true =>
    have committing := protocol.committing_of (Location.committing_of_posted posted)
    rw [protocol.not_committing operating] at committing
    cases committing

variable {Process : Type}

section Defs

/-- How the record of calls and the record of groups belong together. -/
structure History (s : State Process) : Prop where
  /-- Operations are numbered in the order they were admitted. -/
  numbered : ∀ entry ∈ s.entries, entry.operation < s.nextOperation
  admitted : ∀ proc, (s.location proc).operating = true →
    s.operation proc < s.nextOperation
  /-- Calls belong to a group that was committed or to the one being formed. -/
  bounded : ∀ entry ∈ s.entries, entry.group ≤ s.groups.length
  /-- The blocks of the group being formed are in the log. -/
  current : ∀ entry ∈ s.entries, entry.group = s.groups.length → entry.block ∈ s.block
  /-- Nothing is logged between the header write and the end of a commit. -/
  sealed : ∀ proc, (s.location proc).posted = true →
    ∀ entry ∈ s.entries, entry.group < s.groups.length
  /-- The log holds blocks of the group being formed or just written. -/
  pending : ∀ number ∈ s.block, (∃ proc, (s.location proc).posted = true) ∨
      ∃ entry ∈ s.entries, entry.block = number ∧ entry.group = s.groups.length
  /-- A committed group holds the blocks logged for it. -/
  archived : ∀ entry ∈ s.entries, entry.group < s.groups.length →
    entry.block ∈ s.groups.getD entry.group []
  /-- A committed group holds no other blocks. -/
  provenance : ∀ group, ∀ number ∈ s.groups.getD group [],
    ∃ entry ∈ s.entries, entry.block = number ∧ entry.group = group
  /-- An operation under way logs for the group being formed. -/
  forming : ∀ proc, (s.location proc).operating = true →
    ∀ entry ∈ s.entries, entry.operation = s.operation proc →
      entry.group = s.groups.length
  /-- The calls of one operation belong to one group. -/
  oneGroup : ∀ first ∈ s.entries, ∀ second ∈ s.entries,
    first.operation = second.operation → first.group = second.group

end Defs

namespace History

variable {s : State Process}

section Relocate

/-- The processes move and the record stays. -/
theorem relocate (history : History s) {next : State Process}
    (block : next.block = s.block) (entries : next.entries = s.entries)
    (groups : next.groups = s.groups) (nextOperation : next.nextOperation = s.nextOperation)
    (operation : next.operation = s.operation)
    (operating : ∀ proc, (next.location proc).operating = true → (s.location proc).operating = true)
    (posted : ∀ proc, (next.location proc).posted = true → (s.location proc).posted = true)
    (still : ∀ proc, (s.location proc).posted = true →
      s.block = [] ∨ ∃ other, (next.location other).posted = true) : History next where
  numbered := by
    rw [entries, nextOperation]
    exact history.numbered
  admitted := by
    rw [nextOperation, operation]
    exact fun proc member => history.admitted proc (operating _ member)
  bounded := by
    rw [entries, groups]
    exact history.bounded
  current := by
    rw [entries, groups, block]
    exact history.current
  sealed := by
    rw [entries, groups]
    exact fun proc member => history.sealed proc (posted _ member)
  pending := by
    rw [entries, groups, block]
    intro number member
    rcases history.pending number member with ⟨proc, before⟩ | logged
    · rcases still proc before with nothing | after
      · simp [nothing] at member
      · exact .inl after
    · exact .inr logged
  archived := by
    rw [entries, groups]
    exact history.archived
  provenance := by
    rw [entries, groups]
    exact history.provenance
  forming := by
    rw [entries, groups, operation]
    exact fun proc member => history.forming proc (operating _ member)
  oneGroup := by
    rw [entries]
    exact history.oneGroup

end Relocate

variable [DecidableEq Process]

section

variable (history : History s)
include history

variable {next : State Process}

/-- One process moves and the record stays. -/
theorem goto {proc : Process} {target : Location}
    (location : next.location = update s.location proc target)
    (block : next.block = s.block) (entries : next.entries = s.entries)
    (groups : next.groups = s.groups) (nextOperation : next.nextOperation = s.nextOperation)
    (operation : next.operation = s.operation)
    (operating : target.operating = true → (s.location proc).operating = true)
    (posted : target.posted = (s.location proc).posted) : History next := by
  refine history.relocate block entries groups nextOperation operation ?_ ?_ ?_
  · rw [location]
    exact forall_update (fun _ => id) operating
  · rw [location]
    exact forall_update (fun _ => id) fun member => posted.symm.trans member
  · intro other member
    rw [location]
    exact .inr ((exists_update posted).mpr ⟨other, member⟩)

/-- `begin_op` admits an operation, which has a new number. -/
theorem admits {proc : Process} (place : s.location proc = .beginTest) :
    History { s.release proc .inOp with
      outstanding := s.outstanding + 1
      nextOperation := s.nextOperation + 1
      operation :=
        update s.operation proc s.nextOperation } where
  numbered := fun entry member =>
    Nat.lt_succ_of_lt (history.numbered entry member)
  admitted := by
    intro other member
    by_cases equal : other = proc
    · subst equal
      simp
    · simp only [State.release, State.goto, update_of_ne equal] at member ⊢
      exact Nat.lt_succ_of_lt (history.admitted other member)
  bounded := history.bounded
  current := history.current
  sealed := forall_update history.sealed (by simp [Location.posted])
  pending := by
    intro number member
    refine (history.pending number member).imp_left (exists_update ?_).mpr
    rw [place]; rfl
  archived := history.archived
  provenance := history.provenance
  forming := by
    intro other member entry recorded same
    by_cases equal : other = proc
    · subst equal
      have earlier := history.numbered entry recorded
      simp only [update_self] at same
      omega
    · simp only [State.release, State.goto, update_of_ne equal] at member same ⊢
      exact history.forming other member entry recorded same
  oneGroup := history.oneGroup

/-- `log_write` records a block for the group being formed. -/
theorem store [Fintype Process] (protocol : Protocol s) {proc : Process} {number : Nat}
    (place : s.location proc = .logWriteLocked number) :
    History { s.release proc .inOp with
      block := absorb s.block number
      entries := ⟨s.operation proc, number, s.groups.length⟩ :: s.entries } := by
  have operating : (s.location proc).operating = true := by
    rw [place]; rfl
  have nobody := protocol.unposted operating
  exact {
    numbered := forall_mem_cons.mpr ⟨history.admitted proc operating, history.numbered⟩
    admitted := forall_update history.admitted
      fun _ => history.admitted proc operating
    bounded := forall_mem_cons.mpr ⟨le_refl _, history.bounded⟩
    current := forall_mem_cons.mpr
      ⟨fun _ => mem_absorb.mpr (.inr rfl), fun entry member same =>
        mem_absorb.mpr (.inl (history.current entry member same))⟩
    sealed := by
      refine forall_update (fun other posted => ?_) (by simp [Location.posted])
      rw [nobody other] at posted
      cases posted
    pending := by
      intro logged member
      rcases mem_absorb.mp member with before | rfl
      · rcases history.pending logged before with ⟨other, posted⟩ | found
        · rw [nobody other] at posted
          cases posted
        · obtain ⟨entry, recorded, same⟩ := found
          exact .inr ⟨entry, mem_cons_of_mem _ recorded, same⟩
      · exact .inr ⟨_, mem_cons_self, rfl, rfl⟩
    archived := forall_mem_cons.mpr ⟨fun early => absurd early (lt_irrefl _), history.archived⟩
    provenance := by
      intro group logged member
      obtain ⟨entry, recorded, same⟩ := history.provenance group logged member
      exact ⟨entry, mem_cons_of_mem _ recorded, same⟩
    forming := by
      refine forall_update (fun other member => ?_) fun _ => ?_
      · exact forall_mem_cons.mpr ⟨fun _ => rfl, history.forming other member⟩
      · exact forall_mem_cons.mpr ⟨fun _ => rfl, history.forming proc operating⟩
    oneGroup := by
      have own := history.forming proc operating
      rintro first firstIn second secondIn same
      rcases mem_cons.mp firstIn with rfl | firstIn <;>
        rcases mem_cons.mp secondIn with rfl | secondIn
      · rfl
      · exact (own second secondIn same.symm).symm
      · exact own first firstIn same
      · exact history.oneGroup first firstIn second secondIn same }

/-- `commit` adds the blocks of the log to the committed groups. -/
theorem post [Fintype Process] (protocol : Protocol s) {proc : Process} {target : Location}
    (commits : (s.location proc).committing = true) (unposted : (s.location proc).posted = false)
    (posts : target.posted = true) (outside : target.operating = false) :
    History { s.goto proc target with
      groups := s.groups ++ [s.block] } := by
  have committing := protocol.committing_of commits
  have idle : ∀ other, (s.location other).operating = false := by
    intro other
    cases operating : (s.location other).operating with
    | false => rfl
    | true =>
      have quiet := protocol.not_committing operating
      rw [committing] at quiet
      cases quiet
  have nobody : ∀ other, (update s.location proc target other).operating = true → False :=
    forall_update (fun other operating => by simp [idle other] at operating) (by simp [outside])
  have fresh : ∀ other, (s.location other).posted = false := by
    intro other
    cases posted : (s.location other).posted with
    | false => rfl
    | true =>
      obtain ⟨committer, exclusive, _⟩ := protocol.committer
      have same := exclusive.unique (Location.committing_of_posted posted) commits
      rw [same, unposted] at posted
      cases posted
  exact {
    numbered := history.numbered
    admitted := fun other operating => (nobody other operating).elim
    bounded := by
      intro entry member
      have before := history.bounded entry member
      simp only [length_append, length_singleton]
      omega
    current := by
      intro entry member same
      have before := history.bounded entry member
      simp only [length_append, length_singleton] at same
      omega
    sealed := by
      intro _ _ entry member
      have before := history.bounded entry member
      simp only [length_append, length_singleton]
      omega
    pending := fun _ _ => .inl ⟨proc, by simpa [State.goto] using posts⟩
    archived := by
      intro entry member _
      rcases (history.bounded entry member).lt_or_eq with early | now
      · rw [getD_append _ _ _ _ early]
        exact history.archived entry member early
      · rw [getD_append_right _ _ _ _ now.ge, now, Nat.sub_self]
        exact history.current entry member now
    provenance := by
      intro group number member
      rcases lt_trichotomy group s.groups.length with early | now | late
      · rw [getD_append _ _ _ _ early] at member
        exact history.provenance group number member
      · rw [getD_append_right _ _ _ _ now.ge, now, Nat.sub_self] at member
        rcases history.pending number member with ⟨other, posted⟩ | found
        · rw [fresh other] at posted
          cases posted
        · rwa [now]
      · rw [getD_eq_default] at member
        · cases member
        · rw [length_append]
          exact late
    forming := fun other operating => (nobody other operating).elim
    oneGroup := history.oneGroup }

/-- `commit` forgets the group. -/
theorem clear {proc : Process} (place : s.location proc = .commitClear) :
    History { s.goto proc .commitErase with block := [] } where
  numbered := history.numbered
  admitted := forall_update history.admitted (by simp [Location.operating])
  bounded := history.bounded
  current := by
    intro entry member same
    have before := history.sealed proc (by rw [place]; rfl) entry member
    exact absurd same before.ne
  sealed := forall_update history.sealed
    fun _ => history.sealed proc (by rw [place]; rfl)
  pending := nofun
  archived := history.archived
  provenance := history.provenance
  forming := forall_update history.forming (by simp [Location.operating])
  oneGroup := history.oneGroup

/-- `end_op` marks the commit as done. -/
theorem unset [Fintype Process] (protocol : Protocol s) {proc : Process}
    (place : s.location proc = .commitUnset) :
    History { s.goto proc .commitWakeup with committing := false } := by
  refine history.relocate rfl rfl rfl rfl rfl ?_ ?_ ?_
  · exact forall_update (fun _ => id) (by simp [Location.operating])
  · exact forall_update (fun _ => id) (by simp [Location.posted])
  · exact fun _ _ => .inl (protocol.cleared proc (by rw [place]; rfl))

/-- Every transition keeps the record consistent. -/
theorem preserved [Fintype Process] {action : Action Process} (protocol : Protocol s)
    (transition : Transition s action next) : History next := by
  cases transition with
  | overflow proc number place _ =>
    exact history.goto rfl rfl rfl rfl rfl rfl (fun _ => by rw [place]; rfl) (by rw [place]; rfl)
  | move _ target sameRole _ _ =>
    exact history.goto rfl rfl rfl rfl rfl rfl
      (fun member => (congrArg Role.operating sameRole).symm.trans member)
      (congrArg Role.posted sameRole)
  | acquire proc target _ sameRole _ _ =>
    exact history.goto rfl rfl rfl rfl rfl rfl
      (fun member => (congrArg Role.operating sameRole).symm.trans member)
      (congrArg Role.posted sameRole)
  | release proc target sameRole _ _ _ =>
    exact history.goto rfl rfl rfl rfl rfl rfl
      (fun member => (congrArg Role.operating sameRole).symm.trans member)
      (congrArg Role.posted sameRole)
  | admits proc place _ => exact history.admits place
  | lockPtable proc place _ =>
    exact history.goto rfl rfl rfl rfl rfl rfl (by simp [Location.operating]) (by rw [place]; rfl)
  | sleep proc place =>
    exact history.goto rfl rfl rfl rfl rfl rfl (by simp [Location.operating]) (by rw [place]; rfl)
  | wakeup proc target _ _ sameRole _ _ =>
    have operating := class_awakened Location.operating rfl s.location
    have posted := class_awakened Location.posted rfl s.location
    refine history.relocate rfl rfl rfl rfl rfl ?_ ?_ ?_
    · exact forall_update (fun other member => by rwa [operating] at member)
        fun member => (congrArg Role.operating sameRole).symm.trans member
    · exact forall_update (fun other member => by rwa [posted] at member)
        fun member => (congrArg Role.posted sameRole).symm.trans member
    · intro other member
      refine .inr ((exists_update ?_).mpr ⟨other, by rwa [posted]⟩)
      rw [posted]
      exact congrArg Role.posted sameRole
  | store proc number place => exact history.store protocol place
  | surprise proc place _ =>
    exact history.goto rfl rfl rfl rfl rfl rfl (fun _ => by rw [place]; rfl) (by rw [place]; rfl)
  | leave proc place _ _ =>
    exact history.goto rfl rfl rfl rfl rfl rfl (by simp [Location.operating]) (by rw [place]; rfl)
  | last proc place _ _ =>
    exact history.goto rfl rfl rfl rfl rfl rfl (by simp [Location.operating]) (by rw [place]; rfl)
  | skip proc place nothing =>
    have posted : History { s.goto proc .commitAcquire with
        groups := s.groups ++ [s.block] } :=
      history.post protocol (by rw [place]; rfl) (by rw [place]; rfl) rfl rfl
    rwa [nothing] at posted
  | post proc place => exact history.post protocol (by rw [place]; rfl) (by rw [place]; rfl) rfl rfl
  | clear proc place => exact history.clear place
  | unset proc place => exact history.unset protocol place

end

omit [DecidableEq Process] in
theorem initlog (size : Nat) : History (Log.initlog size : State Process) where
  numbered := nofun
  admitted := nofun
  bounded := nofun
  current := nofun
  sealed := nofun
  pending := nofun
  archived := nofun
  provenance := nofun
  forming := nofun
  oneGroup := nofun

end History

/-! ## Runs of the protocol -/

variable [DecidableEq Process] [Fintype Process]

theorem invariants_of_run {size : Nat} {actions : List (Action Process)} {final : State Process}
    (ended : run State.step (initlog size) actions = some final) :
    Protocol final ∧ History final := by
  refine run_invariant (fun s => Protocol s ∧ History s) ?_ ?_ ended
  · rintro s action next ⟨protocol, history⟩ taken
    have transition := transition_of_step taken
    exact ⟨protocol.preserved transition, history.preserved protocol transition⟩
  · exact ⟨Protocol.initlog size, History.initlog size⟩

omit [Fintype Process] in
/-- Only `begin_op` makes an operation, and not while the log is being
committed. -/
theorem operating_of_transition {s next : State Process} {action : Action Process}
    (transition : Transition s action next) (committing : s.committing = true) :
    ∀ proc, (next.location proc).operating = true →
      (s.location proc).operating = true := by
  cases transition with
  | overflow proc number place _ => exact forall_update (fun _ => id) fun _ => by rw [place]; rfl
  | move _ target sameRole _ _ =>
    exact forall_update (fun _ => id)
      fun member => (congrArg Role.operating sameRole).symm.trans member
  | acquire proc target _ sameRole _ _ =>
    exact forall_update (fun _ => id)
      fun member => (congrArg Role.operating sameRole).symm.trans member
  | release proc target sameRole _ _ _ =>
    exact forall_update (fun _ => id)
      fun member => (congrArg Role.operating sameRole).symm.trans member
  | admits proc place room => exact absurd (.inl committing) room
  | wakeup proc target _ _ sameRole _ _ =>
    have operating := class_awakened Location.operating rfl s.location
    exact forall_update (fun other member => by rwa [operating] at member)
      fun member => (congrArg Role.operating sameRole).symm.trans member
  | store proc number place => exact forall_update (fun _ => id) fun _ => by rw [place]; rfl
  | surprise proc place _ => exact forall_update (fun _ => id) fun _ => by rw [place]; rfl
  | lockPtable | sleep | leave | last | skip | post | clear | unset =>
    exact forall_update (fun _ => id) (by simp [Location.operating])

/-- What group commit promises in one state. -/
structure GroupCommitted (s : State Process) : Prop where
  /-- `commit` runs only while no operation is under way. -/
  exclusive : ∀ committer, (s.location committer).inCommit = true →
    ∀ proc, (s.location proc).operating = false
  /-- No operation starts while `commit` runs. -/
  closed : ∀ committer, (s.location committer).inCommit = true →
    ∀ action next, s.step action = some next →
      ∀ proc, (next.location proc).operating = false
  /-- The blocks logged by one operation belong to one group. -/
  oneGroup : ∀ first ∈ s.entries, ∀ second ∈ s.entries,
    first.operation = second.operation → first.group = second.group
  /-- Blocks of a group that was committed are in it; the others are in the
  log. -/
  kept : ∀ entry ∈ s.entries, entry.group < s.groups.length ∧
        entry.block ∈ s.groups.getD entry.group [] ∨
      entry.group = s.groups.length ∧ entry.block ∈ s.block
  /-- A committed group holds nothing else. -/
  provenance : ∀ group, ∀ number ∈ s.groups.getD group [],
    ∃ entry ∈ s.entries, entry.block = number ∧ entry.group = group
  /-- `log.lh.block[0..n)` has no repetition. -/
  nodup : s.block.Nodup
  /-- No process sleeps although it would be admitted. -/
  awake : s.lock = none → ∀ proc, s.location proc = .sleeping → s.Full
  /-- The log is empty when nobody uses it. -/
  settled : s.outstanding = 0 → s.committing = false → s.block = []

/-- Being inside `commit` is part of having `log.committing` set. -/
theorem Location.committing_of_inCommit {location : Location}
    (inside : location.inCommit = true) : location.committing = true := by
  cases location <;> first | rfl | cases inside

/-- Group commit keeps its promises in every interleaving of `begin_op`,
`log_write` and `end_op`. -/
theorem groupCommitted_of_run (size : Nat) (actions : List (Action Process)) (final : State Process)
    (ended : run State.step (initlog size) actions = some final) : GroupCommitted final := by
  obtain ⟨protocol, history⟩ := invariants_of_run ended
  have exclusive : ∀ committer, (final.location committer).inCommit = true →
        ∀ proc, (final.location proc).operating = false := by
    intro committer inside proc
    have committing := protocol.committing_of (Location.committing_of_inCommit inside)
    cases operating : (final.location proc).operating with
    | false => rfl
    | true =>
      have quiet := protocol.not_committing operating
      rw [committing] at quiet
      cases quiet
  exact {
    exclusive := exclusive
    closed := by
      intro committer inside action next taken proc
      have committing := protocol.committing_of (Location.committing_of_inCommit inside)
      have started := operating_of_transition (transition_of_step taken) committing proc
      have idle := exclusive committer inside proc
      cases operating : (next.location proc).operating with
      | false => rfl
      | true =>
        rw [started operating] at idle
        cases idle
    oneGroup := history.oneGroup
    kept := by
      intro entry member
      rcases (history.bounded entry member).lt_or_eq with early | now
      · exact .inl ⟨early, history.archived entry member early⟩
      · exact .inr ⟨now, history.current entry member now⟩
    provenance := history.provenance
    nodup := protocol.nodup
    awake := by
      intro free proc asleep
      rcases protocol.sleepers proc (by rw [asleep]; rfl) with full | ⟨waker, wakes⟩
      · exact full
      · have holds := Location.holdsLog_of_wakes wakes
        have unlocked := free ▸ protocol.lock
        rw [unlocked.outside waker] at holds
        cases holds
    settled := protocol.settled }

/-- Two processes log a block each, and the second one to end commits; the first
begins another operation, sleeps during the commit and is awakened. -/
def overlappingOperations : List (Action Bool) :=
  [.beginOp false, .advance false, .advance false, .beginOp true, .advance true, .advance true,
    .logWrite false 40, .advance false, .advance false, .endOp false] ++
  List.replicate 4 (.advance false) ++
  [.logWrite true 41, .advance true, .advance true, .endOp true] ++
  List.replicate 3 (.advance true) ++ [.beginOp false] ++
  List.replicate 5 (.advance false) ++ List.replicate 8 (.advance true)

theorem groupCommitted_overlappingOperations : ∃ final,
      run State.step (initlog logsize) overlappingOperations = some final ∧ GroupCommitted final :=
  ⟨_, rfl, groupCommitted_of_run logsize overlappingOperations _ rfl⟩

end Xv6.Log
