import Xv6.Log.History
import Mathlib.Data.Finset.Card

/-!
# The reservation of log blocks

`begin_op` reserves `MAXOPBLOCKS` blocks of the `LOGSIZE` that the log may
hold, but the tests of `log_write` stop a process when the log holds
`log.size - 1` blocks already, and on the layout of `mkfs` that is one fewer
than `LOGSIZE`.
-/

namespace Xv6.Log

open Foundation.Transition

variable {Process : Type}

/-- The blocks logged so far for the group being formed. -/
def State.formingBlocks (s : State Process) : Finset Nat :=
  ((s.entries.filter fun entry =>
    entry.group = s.groups.length).map Entry.block).toFinset

/-- The blocks logged so far by the current operation of a process. -/
def State.operationBlocks (s : State Process) (proc : Process) : Finset Nat :=
  ((s.entries.filter fun entry =>
    entry.operation = s.operation proc).map Entry.block).toFinset

/-- An operation logs no more than `MAXOPBLOCKS` distinct blocks. -/
def WithinReservation (s : State Process) : Action Process → Prop
  | .logWrite proc number => (insert number (s.operationBlocks proc)).card ≤ maxopblocks
  | _ => True

instance (s : State Process) : ∀ action, Decidable (WithinReservation s action)
  | .logWrite _ number => inferInstanceAs (Decidable (Finset.card (insert number _) ≤ maxopblocks))
  | .beginOp _ | .endOp _ | .advance _ | .kill _ => isTrue trivial

/-- Fewer than `LOGSIZE - 1` distinct blocks are logged for the group being
formed when a process calls `log_write`. -/
def SpareBlock (s : State Process) : Action Process → Prop
  | .logWrite _ _ => s.formingBlocks.card < logsize - 1
  | _ => True

instance (s : State Process) : ∀ action, Decidable (SpareBlock s action)
  | .logWrite .. => inferInstanceAs (Decidable (_ < _))
  | .beginOp _ | .endOp _ | .advance _ | .kill _ => isTrue trivial

variable {s : State Process}

/-- While no commit has written its header, `log.lh.n` is the number of blocks
logged for the group being formed. -/
theorem card_formingBlocks (history : History s) (nodup : s.block.Nodup)
    (unposted : ∀ proc, (s.location proc).posted = false) :
    s.formingBlocks.card = s.block.length := by
  rw [← List.toFinset_card_of_nodup nodup]
  congr 1
  ext number
  simp only [State.formingBlocks, List.mem_toFinset, List.mem_map,
    List.mem_filter, decide_eq_true_eq]
  constructor
  · rintro ⟨entry, ⟨member, same⟩, rfl⟩
    exact history.current entry member same
  · intro member
    rcases history.pending number member with ⟨proc, posted⟩ | found
    · rw [unposted proc] at posted
      cases posted
    · obtain ⟨entry, recorded, rfl, same⟩ := found
      exact ⟨entry, ⟨recorded, same⟩, rfl⟩

variable [DecidableEq Process]
variable {action : Action Process} {next : State Process}

theorem size_of_transition (transition : Transition s action next) : next.size = s.size := by
  cases transition <;> rfl

/-- Processes stop only in a `log_write` that finds the log full, and those
that stopped stay where they are. -/
theorem overflowed_cases (transition : Transition s action next) :
    ((∃ proc, (next.location proc).overflowed = true) ↔
        ∃ proc, (s.location proc).overflowed = true) ∨
      ∃ proc number, action = .logWrite proc number ∧
        s.location proc = .inOp ∧ s.TooBig ∧
          next = s.goto proc (.panicked "too big a transaction") := by
  cases transition with
  | overflow proc number place tooBig => exact .inr ⟨proc, number, rfl, place, tooBig, rfl⟩
  | move _ target sameRole => exact .inl (exists_update (congrArg Role.overflowed sameRole))
  | acquire proc target _ sameRole => exact .inl (exists_update (congrArg Role.overflowed sameRole))
  | release proc target sameRole => exact .inl (exists_update (congrArg Role.overflowed sameRole))
  | wakeup proc target _ _ sameRole =>
    have same := class_awakened Location.overflowed rfl s.location
    refine .inl ((exists_update ?_).trans ?_)
    · rw [same]
      exact congrArg Role.overflowed sameRole
    · simp only [same]
  | admits _ place | lockPtable _ place | sleep _ place | store _ _ place
  | surprise _ place | leave _ place | last _ place | skip _ place
  | post _ place | clear _ place | unset _ place => exact .inl (exists_update (by rw [place]; rfl))

/-- A process that stopped in `log_write` is one that stopped. -/
theorem overflowed_goto (s : State Process) (proc : Process) : ∃ other, ((s.goto proc
      (.panicked "too big a transaction")).location other).overflowed = true :=
  ⟨proc, by simp [State.goto, Location.overflowed]⟩

variable [Fintype Process]

/-- On the layout of `mkfs`, a step stops a process exactly when it is a
`log_write` without a spare block. -/
theorem overflowed_iff (protocol : Protocol s) (history : History s) (layout : s.size = logsize)
    (before : ¬ ∃ proc, (s.location proc).overflowed = true) (taken : s.step action = some next) :
    (∃ proc, (next.location proc).overflowed = true) ↔ ¬ SpareBlock s action := by
  have counted : ∀ {proc}, s.location proc = .inOp →
      s.formingBlocks.card = s.block.length := fun place =>
    card_formingBlocks history protocol.nodup (protocol.unposted (by rw [place]; rfl))
  constructor
  · intro found
    rcases overflowed_cases (transition_of_step taken) with
      same | ⟨proc, number, rfl, place, tooBig, _⟩
    · exact absurd (same.mp found) before
    · unfold State.TooBig at tooBig
      unfold SpareBlock
      rw [counted place]
      rw [layout] at tooBig
      omega
  · intro full
    cases action with
    | logWrite proc number =>
      unfold SpareBlock at full
      simp only [State.step, Option.ite_none_right_eq_some] at taken
      obtain ⟨place, taken⟩ := taken
      rw [counted place] at full
      rw [if_pos (by unfold State.TooBig; rw [layout]; omega)] at taken
      cases taken
      exact overflowed_goto s proc
    | beginOp | endOp | advance | kill => exact absurd trivial full

/-- `log_write` never reaches `panic("too big a transaction")` in a run from
`state` exactly when each call finds a spare block. -/
theorem overflowed_run_iff {final : State Process} {actions : List (Action Process)}
    (protocol : Protocol s) (history : History s) (layout : s.size = logsize)
    (before : ¬ ∃ proc, (s.location proc).overflowed = true)
    (ended : run State.step s actions = some final) :
    (∃ proc, (final.location proc).overflowed = true) ↔
      ¬ Along State.step SpareBlock s actions := by
  induction actions generalizing s with
  | nil =>
    cases ended
    exact iff_of_false before (fun absent => absent trivial)
  | cons action actions ih =>
    obtain ⟨next, taken, rest⟩ := run_cons ended
    have transition := transition_of_step taken
    have stops := overflowed_iff protocol history layout before taken
    rw [Along, taken]
    by_cases spare : SpareBlock s action
    · rw [ih (protocol.preserved transition) (history.preserved protocol transition)
        ((size_of_transition transition).trans layout)
        (fun stopped => stops.mp stopped spare) rest]
      simp [spare]
    · refine iff_of_true ?_ (fun both => spare both.1)
      refine run_invariant (fun reached : State Process =>
        ∃ proc, (reached.location proc).overflowed = true)
        ?_ (stops.mpr spare) rest
      rintro reached action after stopped step
      rcases overflowed_cases (transition_of_step step) with same | ⟨proc, _, _, _, _, rfl⟩
      · exact same.mpr stopped
      · exact overflowed_goto reached proc

/-- In every interleaving on the layout of `mkfs`, `log_write` never reaches
`panic("too big a transaction")` exactly when fewer than `LOGSIZE - 1` distinct
blocks are logged for the current group at each of its calls. -/
theorem not_tooBig_iff (actions : List (Action Process)) (final : State Process)
    (ended : run State.step (initlog logsize) actions = some final) :
    (∀ proc, final.location proc ≠ .panicked "too big a transaction") ↔
      Along State.step SpareBlock (initlog logsize) actions := by
  have stopped := overflowed_run_iff (Protocol.initlog logsize) (History.initlog logsize) rfl
    (by simp [initlog, Location.overflowed]) ended
  rw [← not_iff_not, ← stopped]
  simp [Location.overflowed]

/-- The steps of `begin_op` when it does not wait. -/
def beginOp (proc : Process) : List (Action Process) :=
  [.beginOp proc, .advance proc, .advance proc]

/-- The steps of `log_write` for each of a list of blocks. -/
def logEach (proc : Process) (numbers : List Nat) : List (Action Process) :=
  numbers.flatMap fun number =>
    [.logWrite proc number, .advance proc, .advance proc]

/-- An operation that logs one block twice. -/
def rewritingOperation : List (Action (Fin 1)) :=
  beginOp 0 ++ logEach 0 [40, 40]

theorem not_tooBig_rewritingOperation : ∃ final,
      run State.step (initlog logsize) rewritingOperation = some final ∧
        Along State.step SpareBlock (initlog logsize) rewritingOperation ∧
        ∀ proc, final.location proc ≠ .panicked "too big a transaction" :=
  have spare : Along State.step SpareBlock (initlog logsize) rewritingOperation := by
    decide
  ⟨_, rfl, spare, (not_tooBig_iff rewritingOperation _ rfl).mpr spare⟩

/-- Three operations log the blocks they have reserved, all but one. -/
def threeOperations : List (Action (Fin 3)) :=
  beginOp 0 ++ beginOp 1 ++ beginOp 2 ++ logEach 0 (List.range' 0 10) ++
    logEach 1 (List.range' 10 10) ++ logEach 2 (List.range' 20 9)

/-- The last block that the third operation has reserved stops it. -/
theorem tooBig_withinReservation : Along State.step WithinReservation (initlog logsize)
        (threeOperations ++ [.logWrite 2 29]) ∧
      (run State.step (initlog logsize) (threeOperations ++ [.logWrite 2 29])).map
        (fun final => final.location 2) = some (.panicked "too big a transaction") := by
  decide +kernel

/-- In every run at most `LOGSIZE / MAXOPBLOCKS` operations are under way. -/
theorem operating_le_of_run {size : Nat} {actions : List (Action Process)} {final : State Process}
    (ended : run State.step (initlog size) actions = some final) :
    count Location.operating final.location ≤ logsize / maxopblocks := by
  have few : final.outstanding ≤ logsize / maxopblocks := by
    refine run_invariant (fun s => s.outstanding ≤ logsize / maxopblocks) ?_
      (Nat.zero_le _) ended
    intro s action next few taken
    cases transition_of_step taken with
    | admits proc place room =>
      simp only [State.Full, logsize, maxopblocks, not_or] at room few ⊢
      omega
    | leave | last | surprise => exact (Nat.sub_le ..).trans few
    | _ => exact few
  rwa [← (invariants_of_run ended).1.outstanding]

theorem operating_le_overlappingOperations : ∃ final,
    run State.step (initlog logsize) overlappingOperations = some final ∧
      count Location.operating final.location ≤ logsize / maxopblocks :=
  ⟨_, rfl, @operating_le_of_run _ _ _ logsize overlappingOperations _ rfl⟩

end Xv6.Log
