import Xv6.Pipe.Transitions
import Mathlib.Data.List.Forall2

/-!
# A pipe is a queue

The bytes delivered to readers followed by the bytes in the buffer are the bytes
stored by writers, and those of each writer are what it passed to `pipewrite`,
in order.  This holds for every interleaving of the calls and does not depend on
where the counters are when they wrap around.
-/

namespace Xv6.Pipe

open Function (update update_of_ne update_self)
open Foundation (Ring)
open Foundation.Transition (run run_invariant)

/-- The bytes of a writer: a prefix of each buffer it has passed to
`pipewrite`, one after the other. -/
def InOrder (calls : List (List Byte)) (bytes : List Byte) : Prop :=
  ∃ prefixes, List.Forall₂ (· <+: ·) prefixes calls ∧ bytes = prefixes.flatten

/-- As `InOrder`, while the last call has stored its first `i` bytes and may go
on. -/
def Sent (calls : List (List Byte)) (bytes : List Byte) : Option (List Byte × Nat) → Prop
  | none => InOrder calls bytes
  | some (addr, i) => ∃ earlier sent, calls = earlier ++ [addr] ∧
      InOrder earlier sent ∧ bytes = sent ++ addr.take i

section Sent

variable {calls : List (List Byte)} {bytes addr : List Byte} {i : Nat}

theorem InOrder.append (order : InOrder calls bytes) (addr : List Byte) (i : Nat) :
    InOrder (calls ++ [addr]) (bytes ++ addr.take i) := by
  obtain ⟨prefixes, ahead, rfl⟩ := order
  refine ⟨prefixes ++ [addr.take i], ?_, by simp⟩
  exact List.rel_append ahead (.cons (List.take_prefix i addr) .nil)

theorem Sent.inOrder {writing : Option (List Byte × Nat)}
    (sent : Sent calls bytes writing) : InOrder calls bytes := by
  cases writing with
  | none => exact sent
  | some call =>
    obtain ⟨earlier, sent, rfl, order, rfl⟩ := sent
    exact order.append call.1 call.2

theorem Sent.start (sent : Sent calls bytes none) (addr : List Byte) :
    Sent (calls ++ [addr]) bytes (some (addr, 0)) :=
  ⟨calls, bytes, rfl, sent, by simp⟩

theorem Sent.store {byte : Byte} (sent : Sent calls bytes (some (addr, i)))
    (found : addr[i]? = some byte) : Sent calls (bytes ++ [byte]) (some (addr, i + 1)) := by
  obtain ⟨earlier, sent, rfl, order, rfl⟩ := sent
  refine ⟨earlier, sent, rfl, order, ?_⟩
  rw [List.take_add_one, found, Option.toList_some, List.append_assoc]

end Sent

variable {Process : Type} [DecidableEq Process]

/-- The bytes stored by one process. -/
def bytesOf (stored : List (Process × Byte)) (proc : Process) : List Byte :=
  (stored.filter fun entry => entry.1 = proc).map Prod.snd

theorem bytesOf_append_self (stored : List (Process × Byte)) (proc : Process) (byte : Byte) :
    bytesOf (stored ++ [(proc, byte)]) proc = bytesOf stored proc ++ [byte] := by
  simp [bytesOf]

theorem bytesOf_append_of_ne (stored : List (Process × Byte)) {proc other : Process} (byte : Byte)
    (apart : other ≠ proc) : bytesOf (stored ++ [(proc, byte)]) other = bytesOf stored other := by
  simp [bytesOf, Ne.symm apart]

/-- What holds in every state of every run. -/
structure Fifo (core : Core Process) : Prop where
  /-- The buffer does not overflow. -/
  bounded : core.ring.count ≤ pipesize
  /-- The bytes come out as they went in. -/
  queue : core.delivered ++ core.ring.contents = core.stored.map Prod.snd
  /-- Each writer's bytes are in its own order. -/
  sent : ∀ proc, Sent (core.calls proc) (bytesOf core.stored proc)
    (core.location proc).writing

section Preservation

variable {core moved : Core Process} {proc : Process}

section

variable (fifo : Fifo core) (ring : moved.ring = core.ring) (calls : moved.calls = core.calls)
  (stored : moved.stored = core.stored) (delivered : moved.delivered = core.delivered)
include fifo ring calls stored delivered

theorem Fifo.move
    (writing : ∀ proc, (moved.location proc).writing = (core.location proc).writing ∨
        (moved.location proc).writing = none) : Fifo moved where
  bounded := by
    rw [ring]
    exact fifo.bounded
  queue := by
    rw [ring, delivered, stored]
    exact fifo.queue
  sent := by
    intro proc
    have sent := fifo.sent proc
    rw [stored, calls]
    rcases writing proc with same | ended
    · rw [same]
      exact sent
    · rw [ended]
      exact sent.inOrder

theorem Fifo.moveOne {target : Location}
    (location : moved.location = update core.location proc target)
    (writing : target.writing = (core.location proc).writing ∨ target.writing = none) :
    Fifo moved := by
  refine fifo.move ring calls stored delivered fun other => ?_
  rw [location]
  by_cases same : other = proc
  · subst same
    rwa [update_self]
  · exact .inl (by rw [update_of_ne same])

end

omit [DecidableEq Process] in
theorem writing_awakened (core : Core Process) (chan : Channel) (proc : Process) :
    (core.awakened chan proc).writing = (core.location proc).writing := by
  unfold Core.awakened
  split
  case h_1 sleeper here =>
    rw [here]
    split <;> cases sleeper <;> rfl
  case h_2 => rfl

theorem Fifo.start (fifo : Fifo core) (addr : List Byte) (place : core.location proc = .idle) :
    Fifo { core.goto proc (.acquire (.write addr)) with
      calls := update core.calls proc (core.calls proc ++ [addr]) } where
  bounded := fifo.bounded
  queue := fifo.queue
  sent := by
    intro other
    by_cases same : other = proc
    · subst same
      have sent := fifo.sent other
      rw [place] at sent
      simp only [Core.goto, update_self]
      exact sent.start addr
    · simp only [Core.goto, update_of_ne same]
      exact fifo.sent other

theorem Fifo.store {addr : List Byte} {i : Nat} {byte : Byte} (fifo : Fifo core)
    (place : core.location proc = .locked (.writeLoop addr i))
    (found : addr[i]? = some byte) (room : ¬ core.ring.Full) :
    Fifo { core.goto proc (.locked (.writeLoop addr (i + 1))) with
      ring := core.ring.push byte
      stored := core.stored ++ [(proc, byte)] } := by
  have small : pipesize < 2 ^ 32 := by decide
  have space : core.ring.count < pipesize :=
    lt_of_le_of_ne fifo.bounded (mt (Ring.full_iff small).mpr room)
  refine ⟨?_, ?_, fun other => ?_⟩
  · rw [Ring.count_push byte (lt_of_le_of_lt space small)]
    exact space
  · rw [Ring.contents_push (by decide) small byte space, ← List.append_assoc]
    simp only [List.map_append, ← fifo.queue]
    rfl
  · have sent := fifo.sent other
    by_cases same : other = proc
    · subst same
      rw [place] at sent
      simp only [Core.goto, update_self, bytesOf_append_self]
      exact sent.store found
    · simp only [Core.goto, update_of_ne same, bytesOf_append_of_ne _ byte same]
      exact sent

theorem Fifo.deliver {n i : Nat} (fifo : Fifo core)
    (place : core.location proc = .locked (.readCopy n i)) (some : ¬ core.ring.Empty) :
    Fifo { core.goto proc (.locked (.readCopy n (i + 1))) with
      ring := core.ring.pop
      delivered := core.delivered ++ [core.ring.top] } := by
  refine ⟨?_, ?_, fun other => ?_⟩
  · have bounded := fifo.bounded
    rw [Ring.count_pop some] at bounded
    exact (Nat.le_succ _).trans bounded
  · have queue := fifo.queue
    rw [Ring.contents_pop some, List.append_cons] at queue
    exact queue
  · have sent := fifo.sent other
    by_cases same : other = proc
    · subst same
      rw [place] at sent
      simp only [Core.goto, update_self]
      exact sent
    · simp only [Core.goto, update_of_ne same]
      exact sent

/-- Every step keeps the bytes in order. -/
theorem Fifo.transition {s next : State Process} {action : Action Process}
    (fifo : Fifo s.toCore) (transition : Transition s next action) : Fifo next.toCore := by
  cases transition with
  | move _ proc target core _ _ writing =>
    rw [core]
    exact fifo.moveOne rfl rfl rfl rfl rfl writing
  | start proc addr place core =>
    rw [core]
    exact fifo.start addr place
  | acquire proc place _ _ _ _ writing core =>
    rw [core]
    exact fifo.moveOne rfl rfl rfl rfl rfl (.inl writing)
  | release proc target _ _ _ _ _ writing core =>
    rw [core]
    exact fifo.moveOne rfl rfl rfl rfl rfl writing
  | lockPtable proc sleeper place _ core =>
    rw [core]
    refine fifo.moveOne rfl rfl rfl rfl rfl (.inl ?_)
    rw [place]
    cases sleeper <;> rfl
  | sleep proc sleeper place core =>
    rw [core]
    refine fifo.moveOne rfl rfl rfl rfl rfl (.inl ?_)
    rw [place]
    cases sleeper <;> rfl
  | wakeup proc chan target _ _ _ _ writing _ _ core =>
    rw [core]
    have awakened : Fifo { s.toCore with
        location := s.awakened chan } :=
      fifo.move rfl rfl rfl rfl fun other =>
        .inl (writing_awakened s.toCore chan other)
    refine awakened.moveOne rfl rfl rfl rfl rfl ?_
    rwa [writing_awakened]
  | store proc addr i byte place found room core =>
    rw [core]
    exact fifo.store place found room
  | giveUp proc _ core =>
    rw [core]
    exact fifo.moveOne rfl rfl rfl rfl rfl (.inr rfl)
  | deliver proc n i place some core =>
    rw [core]
    exact fifo.deliver place some
  | close proc writable _ core =>
    rw [core]
    exact fifo.moveOne rfl rfl rfl rfl rfl (.inr rfl)

end Preservation

theorem fifo_opened (counter : BitVec 32) (data : Fin pipesize → Byte) (owner : Process) :
    Fifo (opened counter data owner).toCore where
  bounded := by simp [opened]
  queue := by simp [opened]
  sent := fun _ => ⟨[], .nil, rfl⟩

variable [Fintype Process]

/-- In every state of every run on a pipe, wherever its counters start and
however often they wrap around: at most `PIPESIZE` bytes are buffered, the
bytes delivered so far and the buffered ones are the bytes stored so far, and
the bytes of each writer are in its own order. -/
theorem inOrder_of_run {counter : BitVec 32} {data : Fin pipesize → Byte} {owner : Process}
    {actions : List (Action Process)} {final : State Process}
    (ended : run State.step (opened counter data owner) actions = some final) :
    (final.ring.nwrite - final.ring.nread).toNat ≤ pipesize ∧
      final.delivered ++ final.ring.contents = final.stored.map Prod.snd ∧
      ∀ proc, InOrder (final.calls proc) (bytesOf final.stored proc) := by
  have fifo : Fifo final.toCore :=
    run_invariant (fun s => Fifo s.toCore)
      (fun _ _ _ fifo taken => fifo.transition (transition_of_step taken))
      (fifo_opened counter data owner) ended
  exact ⟨fifo.bounded, fifo.queue, fun proc => (fifo.sent proc).inOrder⟩

/-- Process 0 writes two bytes, at counters that wrap around in between, and
process 1 reads one of them. -/
def wrappingRun : List (Action (Fin 2)) :=
  [.share 0 1 false, .write 0 [7, 8]] ++ List.replicate 6 (.advance 0) ++
    [.read 1 1] ++ List.replicate 6 (.advance 1)

theorem inOrder_wrappingRun : ∃ final, run State.step (opened (-1) (fun _ => 0) 0) wrappingRun =
        some final ∧
      final.ring.nwrite = 1 ∧ final.delivered = [7] ∧
      ((final.ring.nwrite - final.ring.nread).toNat ≤ pipesize ∧
        final.delivered ++ final.ring.contents = final.stored.map Prod.snd ∧
        ∀ proc, InOrder (final.calls proc) (bytesOf final.stored proc)) := by
  have seen : (run State.step (opened (-1) (fun _ => 0) 0) wrappingRun).map
      (fun final => (final.ring.nwrite, final.delivered)) = some (1, [7]) := by
    decide +kernel
  obtain ⟨final, ended, same⟩ := Option.map_eq_some_iff.mp seen
  exact ⟨final, ended, congrArg Prod.fst same, congrArg Prod.snd same, inOrder_of_run ended⟩

end Xv6.Pipe
