import Xv6.Buffer.Refinement
import Xv6.Process.Table

/-!
# Running out of buffers

`bget` panics when the block has no buffer and every buffer is dirty or used by
a process.  There are fewer buffers than processes, and a process that reads
keeps its buffer while it waits for the disk, so readers alone can take them
all.
-/

namespace Xv6.Buffer

open Function Foundation.Transition

variable {Process : Type} [DecidableEq Process] [Fintype Process]

namespace State

/-- The process has locked the buffer, or is about to lock it or to give its
reference back. -/
def Uses (s : State Process) (proc : Process) (buf : Buf) : Prop :=
  s.lock buf = some proc ∨ (s.location proc).refers buf = true

instance (s : State Process) (proc : Process) (buf : Buf) :
    Decidable (s.Uses proc buf) :=
  inferInstanceAs (Decidable (_ ∨ _))

/-- The buffers that are dirty or used by a process. -/
def busy (s : State Process) : Finset Buf :=
  Finset.univ.filter fun buf => (s.entry buf).dirty = true ∨ ∃ proc, s.Uses proc buf

/-- A process that reads a block finds it in the cache, or fewer than `NBUF`
buffers are busy. -/
def Room (s : State Process) : Action Process → Prop
  | .bread proc blockno => s.location proc = .idle →
      (∃ buf, s.Assigned buf blockno) ∨ s.busy.card < nbuf
  | _ => True

instance (s : State Process) : ∀ action, Decidable (s.Room action)
  | .bread .. => inferInstanceAs (Decidable (_ → _ ∨ _))
  | .acquire .. | .fill .. | .logWrite .. | .bwrite .. | .brelse ..
  | .unref .. | .commit => isTrue trivial

end State

/-- The process has stopped because there are no buffers. -/
abbrev Location.exhausted : Location := .panicked "bget: no buffers"

section Room

variable {s next : State Process} {proc : Process}

section

variable (faithful : Faithful s)
include faithful

/-- A buffer may be recycled exactly if it is not busy. -/
theorem Faithful.unused_iff (buf : Buf) : s.Unused buf ↔ buf ∉ s.busy := by
  have counted := faithful.guards.refcnt buf
  unfold State.Unused State.busy
  rw [Finset.mem_filter]
  simp only [Finset.mem_univ, true_and, not_or, not_exists, Bool.not_eq_true]
  constructor
  · rintro ⟨zero, clean⟩
    refine ⟨clean, fun proc uses => ?_⟩
    rcases uses with held | refers
    · rw [held, zero] at counted
      simp at counted
    · have positive := count_pos refers
      omega
  · rintro ⟨clean, unused⟩
    refine ⟨?_, clean⟩
    have free : s.lock buf = none := by
      rw [Option.eq_none_iff_forall_ne_some]
      exact fun proc held => unused proc (.inl held)
    have nobody : count (Location.refers buf) s.location = 0 := by
      unfold count
      rw [Finset.card_eq_zero, Finset.filter_eq_empty_iff]
      exact fun proc _ refers => unused proc (.inr refers)
    rw [counted, free, nobody]
    rfl

/-- Every buffer is busy exactly if none can be recycled. -/
theorem Faithful.busy_iff : nbuf ≤ s.busy.card ↔ ∀ buf, ¬ s.Unused buf := by
  have all : nbuf ≤ s.busy.card ↔ s.busy = Finset.univ := by
    rw [← Finset.card_eq_iff_eq_univ, Fintype.card_fin]
    have bound := Finset.card_le_univ s.busy
    rw [Fintype.card_fin] at bound
    omega
  rw [all, Finset.eq_univ_iff_forall]
  exact forall_congr' fun buf => by rw [faithful.unused_iff, not_not]

omit [DecidableEq Process] in
theorem Faithful.mem_backward (buf : Buf) : buf ∈ s.backward :=
  faithful.listed.perm.2.mem_iff.mpr (List.mem_finRange buf)

theorem Faithful.bget_exhausted (blockno : Nat) (place : s.location proc = .idle) :
    (s.bget proc blockno).location proc = .exhausted ↔
      ¬ s.Room (.bread proc blockno) := by
  have room : ¬ s.Room (.bread proc blockno) ↔
      (∀ buf, ¬ s.Assigned buf blockno) ∧ ∀ buf, ¬ s.Unused buf := by
    unfold State.Room
    rw [← faithful.busy_iff]
    simp only [place, true_implies, not_or, not_exists, not_lt]
  rw [room]
  unfold State.bget
  split
  case h_1 buf found =>
    have assigned : s.Assigned buf blockno := by
      have test := List.find?_some found
      exact of_decide_eq_true test
    simp only [State.goto, update_self]
    exact iff_of_false (by simp) fun missing => missing.1 buf assigned
  case h_2 missing =>
    split
    case h_1 buf found =>
      have unused : s.Unused buf := by
        have test := List.find?_some found
        exact of_decide_eq_true test
      simp only [State.goto, update_self]
      exact iff_of_false (by simp) fun taken => taken.2 buf unused
    case h_2 taken =>
      simp only [State.goto, update_self, true_iff]
      refine ⟨fun buf assigned => ?_, fun buf unused => ?_⟩
      · exact List.find?_eq_none.mp missing buf (faithful.mem_forward buf) (decide_eq_true assigned)
      · exact List.find?_eq_none.mp taken buf (faithful.mem_backward buf) (decide_eq_true unused)

end

omit [Fintype Process] in
theorem location_bget {other : Process} (blockno : Nat) (apart : other ≠ proc) :
    (s.bget proc blockno).location other = s.location other := by
  unfold State.bget
  repeat' split
  all_goals exact update_of_ne apart ..

omit [DecidableEq Process] [Fintype Process] in
theorem iderw_message {buf : Buf} {message : String}
    (failed : s.iderw buf = .error message) : message ≠ "bget: no buffers" := by
  simp only [State.iderw] at failed
  repeat' split at failed
  all_goals cases failed
  all_goals decide

omit [DecidableEq Process] [Fintype Process] in
theorem iderw_location {buf : Buf} {filled : State Process}
    (done : s.iderw buf = .ok filled) : filled.location = s.location := by
  simp only [State.iderw] at done
  repeat' split at done
  all_goals cases done
  all_goals rfl

omit [Fintype Process] in
/-- A step other than `bread` stops nobody for want of buffers. -/
theorem not_exhausted_move {target : Location} (running : ∀ other, s.location other ≠ .exhausted)
    (location : next.location = update s.location proc target)
    (other : target ≠ .exhausted) : ∀ other, next.location other ≠ .exhausted := by
  intro mover
  rw [location]
  by_cases same : mover = proc
  · subst same
    rwa [update_self]
  · rw [update_of_ne same]
    exact running mover

/-- A step with room stops nobody for want of buffers. -/
theorem not_exhausted_step {action : Action Process} (faithful : Faithful s)
    (running : ∀ other, s.location other ≠ .exhausted)
    (room : s.Room action) (taken : s.step action = some next) :
    ∀ other, next.location other ≠ .exhausted := by
  cases action with
  | bread proc blockno =>
    simp only [State.step] at taken
    split at taken
    case isTrue place =>
      cases taken
      intro other
      by_cases same : other = proc
      · subst same
        exact fun stopped =>
          (faithful.bget_exhausted blockno place).mp stopped room
      · rw [location_bget blockno same]
        exact running other
    case isFalse => cases taken
  | acquire proc =>
    simp only [State.step] at taken
    repeat' split at taken
    all_goals cases taken
    exact not_exhausted_move running rfl (by simp)
  | fill proc =>
    simp only [State.step] at taken
    split at taken
    case h_1 buf blockno place =>
      split at taken
      case isTrue =>
        cases taken
        exact not_exhausted_move running rfl (by simp)
      case isFalse =>
        split at taken
        case h_1 message failed =>
          cases taken
          exact not_exhausted_move running rfl (by simpa using iderw_message failed)
        case h_2 filled done =>
          cases taken
          have moved : ∀ other, filled.location other ≠ .exhausted := by
            rw [iderw_location done]
            exact running
          exact not_exhausted_move moved rfl (by simp)
    case h_2 => cases taken
  | logWrite proc buf data =>
    simp only [State.step] at taken
    split at taken
    case isTrue =>
      cases taken
      exact running
    case isFalse => cases taken
  | bwrite proc buf data =>
    simp only [State.step] at taken
    split at taken
    case isTrue =>
      split at taken
      case h_1 message failed =>
        cases taken
        exact not_exhausted_move running rfl (by simpa using iderw_message failed)
      case h_2 written done =>
        cases taken
        intro other
        change written.location other ≠ _
        rw [iderw_location done]
        exact running other
    case isFalse => cases taken
  | brelse proc buf =>
    simp only [State.step] at taken
    split at taken
    case isTrue =>
      cases taken
      exact not_exhausted_move running rfl (by simp)
    case isFalse => cases taken
  | unref proc =>
    simp only [State.step] at taken
    split at taken
    case h_1 buf place =>
      cases taken
      have moved : ∀ other, (s.unrefBuf buf).location other ≠ .exhausted := by
        rw [(unrefBuf_fields s buf).2.2.2.1]
        exact running
      exact not_exhausted_move moved rfl (by simp)
    case h_2 => cases taken
  | commit =>
    cases taken
    exact running

end Room

/-- In a run in which every read has room nobody stops for want of buffers; in
every state that a run reaches a read without room does stop its caller. -/
theorem buffers_of_run {disk : Nat → Block} {disksize : Nat}
    {actions : List (Action Process)} {final : State Process}
    (ended : run State.step (started disk disksize) actions = some final) :
    (Along State.step State.Room (started disk disksize) actions →
      ∀ proc, final.location proc ≠ .exhausted) ∧
    ∀ proc blockno, final.location proc = .idle →
      ((final.bget proc blockno).location proc = .exhausted ↔
        ¬ final.Room (.bread proc blockno)) := by
  have initially : Faithful (started disk disksize : State Process) :=
    faithful_started disk disksize
  constructor
  · intro along
    refine (run_invariant_along (fun s => Faithful s ∧
      ∀ proc, s.location proc ≠ .exhausted) ?_
      ⟨initially, fun _ => ?_⟩ along ended).2
    · intro s action next holds room taken
      exact ⟨(holds.1.step taken).1, not_exhausted_step holds.1 holds.2 room taken⟩
    · exact fun stopped => by cases stopped
  · have faithful := run_invariant Faithful
      (fun _ _ _ faithful taken => (faithful.step taken).1) initially ended
    exact fun proc blockno => faithful.bget_exhausted blockno

/-- One process reads two blocks, and a second one finds the first of them in the
cache and waits for its lock. -/
def sharingRun : List (Action (Fin 2)) :=
  [.bread 0 7, .acquire 0, .fill 0, .bread 1 7, .bread 0 8, .acquire 0, .fill 0]

theorem buffers_sharingRun : ∃ final, run State.step (started (fun _ => 0) 2000) sharingRun =
        some final ∧
      ∀ proc, final.location proc ≠ .exhausted := by
  have seen : ((run State.step (started (fun _ => 0) 2000)
      sharingRun).map fun final => final.location 1).isSome = true := by
    decide +kernel
  have along : Along State.step State.Room (started (fun _ => 0) 2000) sharingRun := by
    decide +kernel
  rw [Option.isSome_map] at seen
  obtain ⟨final, ended⟩ := Option.isSome_iff_exists.mp seen
  exact ⟨final, ended, (buffers_of_run ended).1 along⟩

/-- Thirty processes each lock a buffer of a block of their own and wait for the
disk, and one more reads another block. -/
def readersRun : List (Action (Fin Xv6.Process.nproc)) :=
  ((List.finRange Xv6.Process.nproc).take nbuf).flatMap (fun reader =>
    [.bread reader (100 + reader), .acquire reader]) ++ [.bread 30 130]

theorem exhausted_readersRun : ((run State.step (started (fun _ => 0) 2000) readersRun).map
      fun final => final.location 30) = some .exhausted := by
  decide +kernel

end Xv6.Buffer
