import Xv6.Fs.FailedCalls
import Xv6.Fs.Writing

/-!
# Processes that share an open file

Any number of processes call `filewrite` on one open file, and the rounds of
their loops are interleaved in any order.  The offset and the contents add up,
because the offset is read and advanced under the lock of the inode.
-/

namespace Xv6.Fs

open List Foundation.Program
open Function (update update_of_ne update_self)
open Foundation.Transition (run run_invariant)
open Prod (snd)

/-- The parts that `filewrite` writes a buffer in. -/
def chunksOf (addr : List Byte) : List (List Byte) :=
  if addr = [] then []
  else addr.take filewriteMax :: chunksOf (addr.drop filewriteMax)
termination_by addr.length
decreasing_by
  rename_i some
  have positive := List.length_pos_iff.mpr some
  rw [List.length_drop]
  simp only [filewriteMax, Log.maxopblocks]
  omega

/-- Processes that share an open file.  `chunks` and `results` record what was
written, in order, and what the calls returned. -/
structure Sharing where
  kernel : Kernel
  /-- The buffers that each process has still to write; it is writing the
  first. -/
  calls : Fin nproc → List (List Byte)
  /-- `i` in `filewrite`. -/
  written : Fin nproc → Nat
  chunks : List (Fin nproc × List Byte)
  results : List (Fin nproc × Int)

namespace Sharing

/-- A process does a round of its `filewrite`. -/
def step (f : Fin nfile) (sharing : Sharing) (p : Fin nproc) : Option Sharing :=
  match sharing.calls p with
  | [] => none
  | addr :: rest =>
    match filewriteRound f addr (sharing.written p)
        { sharing.kernel with cur := p } with
    | .error _ => none
    | .ok (.inl i, os) =>
      some { sharing with
        kernel := os
        written := Function.update sharing.written p i
        chunks := sharing.chunks ++ [(p, (addr.drop (sharing.written p)).take filewriteMax)] }
    | .ok (.inr r, os) =>
      some { sharing with
        kernel := os
        calls := Function.update sharing.calls p rest
        written := Function.update sharing.written p 0
        results := sharing.results ++ [(p, r)] }

/-- The processes before they write. -/
def start (os : Kernel) (buffers : Fin nproc → List (List Byte)) : Sharing where
  kernel := os
  calls := buffers
  written := fun _ => 0
  chunks := []
  results := []

/-- The bytes written, in the order in which they were. -/
def bytes (sharing : Sharing) : List Byte :=
  sharing.chunks.flatMap Prod.snd

/-- The chunks of one process, in the order in which they were written. -/
def chunksBy (sharing : Sharing) (p : Fin nproc) : List (List Byte) :=
  (sharing.chunks.filter fun chunk => chunk.1 = p).map Prod.snd

/-- No call has failed. -/
def Succeeded (sharing : Sharing) : Prop :=
  ∀ result ∈ sharing.results, result.2 ≠ -1

/-- The chunks that a process has still to write. -/
def left (sharing : Sharing) (p : Fin nproc) : List (List Byte) :=
  match sharing.calls p with
  | [] => []
  | addr :: rest => chunksOf (addr.drop (sharing.written p)) ++ rest.flatMap chunksOf

end Sharing

/-! ## The parts of a buffer -/

theorem chunksOf_nil : chunksOf [] = [] := by
  rw [chunksOf, if_pos rfl]

variable {addr : List Byte}

theorem chunksOf_of_ne_nil (some : addr ≠ []) : chunksOf addr =
      addr.take filewriteMax :: chunksOf (addr.drop filewriteMax) := by
  rw [chunksOf, if_neg some]

theorem chunksOf_of_short (some : addr ≠ [])
    (short : addr.length ≤ filewriteMax) : chunksOf addr = [addr] := by
  rw [chunksOf_of_ne_nil some, take_of_length_le short, drop_eq_nil_of_le short, chunksOf_nil]

theorem flatten_chunksOf (addr : List Byte) : (chunksOf addr).flatten = addr := by
  fun_induction chunksOf addr with
  | case1 => rfl
  | case2 addr some ih => rw [flatten_cons, ih, take_append_drop]

/-- The buffer after a round. -/
theorem drop_chunk (addr : List Byte) (i : Nat) :
    addr.drop (i + ((addr.drop i).take filewriteMax).length) = (addr.drop i).drop filewriteMax := by
  rw [drop_drop, length_take, length_drop]
  by_cases long : filewriteMax ≤ addr.length - i
  · rw [Nat.min_eq_left long]
  · rw [drop_eq_nil_of_le (by omega), drop_eq_nil_of_le (by omega)]

/-! ## A round -/

variable {f : Fin nfile}

section Round

variable {os : Kernel} {ip : Slot} {inum i : Nat} {addr : List Byte} {stops : Stop → Prop}

/-- A round writes the next part of the buffer; or the call fails, or returns
because the buffer is written. -/
theorem filewriteRound_spec (regular : Regular os f ip inum)
    (lenient : Lenient stops) (asleep : stops .asleep) (wrong : stops (.panic "filewrite")) :
    wp (filewriteRound f addr i)
      (fun outcome next =>
        (i < addr.length ∧ outcome = .inl (i + ((addr.drop i).take filewriteMax).length) ∧
          Regular next f ip inum ∧
          (next.ftable f).off = (os.ftable f).off + ((addr.drop i).take filewriteMax).length ∧
          WrittenAt os.store next.store inum (os.ftable f).off
            ((addr.drop i).take filewriteMax)) ∨
        outcome = .inr (-1) ∨
        addr.length ≤ i ∧ outcome = .inr addr.length ∧ next = os)
      stops os := by
  unfold filewriteRound
  simp only [wp_bind, wp_get]
  rw [wp_ite]
  refine ⟨fun _ => ?_, fun _ => ?_⟩
  · rw [wp_pure]
    exact .inr (.inl rfl)
  rw [wp_ite]
  refine ⟨fun _ => ?_, fun _ => ?_⟩
  · rw [wp_throw]
    exact wrong
  rw [wp_ite]
  refine ⟨fun more => ?_, fun done => ?_⟩
  · rw [wp_bind]
    refine wp_mono (filewriteChunk_spec regular lenient asleep) ?_ fun _ => id
    rintro r next ⟨after, ftable, failed | ⟨result, bytes⟩⟩
    · rw [wp_ite]
      refine ⟨fun _ => ?_, fun positive => absurd positive (by omega)⟩
      rw [wp_pure]
      exact .inr (.inl rfl)
    · have nonneg : ¬ r < 0 := by omega
      rw [if_neg nonneg, if_neg (fun short => short result), wp_pure]
      refine .inl ⟨more, by rw [result]; rfl, after, ?_, bytes⟩
      rw [ftable, update_self, result]
      unfold File.advance
      split
      case isTrue => rfl
      case isFalse none =>
        have zero : ((addr.drop i).take filewriteMax).length = 0 := by omega
        rw [zero, Nat.add_zero]
  · rw [wp_pure]
    exact .inr (.inr ⟨by omega, rfl, rfl⟩)

end Round

/-! ## Whole runs -/

/-- What holds as long as no call has failed. -/
structure Shared (f : Fin nfile) (ip : Slot) (inum off : Nat)
    (buffers : Fin nproc → List (List Byte)) (sharing : Sharing) : Prop where
  regular : Regular sharing.kernel f ip inum
  position : (sharing.kernel.ftable f).off = off + sharing.bytes.length
  contents : ∀ offset < sharing.bytes.length, sharing.kernel.store.byte inum (off + offset) =
      sharing.bytes.getD offset 0
  order : ∀ p, sharing.chunksBy p ++ sharing.left p = (buffers p).flatMap chunksOf

section Shared

variable {ip : Slot} {inum off : Nat} {buffers : Fin nproc → List (List Byte)}
variable {sharing next : Sharing} {p : Fin nproc}

/-- Which process runs does not matter. -/
theorem Regular.cur {os : Kernel} (regular : Regular os f ip inum) (p : Fin nproc) :
    Regular { os with cur := p } f ip inum where
  quiet := regular.quiet.outer rfl rfl
  points := regular.points
  held := regular.held
  number := regular.number
  file := regular.file

theorem chunksBy_append (chunks : List (Fin nproc × List Byte)) (p other : Fin nproc)
    (chunk : List Byte) :
    ((chunks ++ [(p, chunk)]).filter fun entry => entry.1 = other).map snd =
      (chunks.filter fun entry => entry.1 = other).map snd ++
        if p = other then [chunk] else [] := by
  rw [filter_append, map_append]
  by_cases same : p = other
  · simp [same]
  · simp [same]

variable {rest : List (List Byte)}

section

variable (shared : Shared f ip inum off buffers sharing) (calls : sharing.calls p = addr :: rest)
include shared calls

theorem Shared.write {os : Kernel}
    (more : sharing.written p < addr.length) (regular : Regular os f ip inum)
    (advanced : (os.ftable f).off = (sharing.kernel.ftable f).off +
      ((addr.drop (sharing.written p)).take filewriteMax).length)
    (bytes : WrittenAt sharing.kernel.store os.store inum (sharing.kernel.ftable f).off
      ((addr.drop (sharing.written p)).take filewriteMax)) :
    Shared f ip inum off buffers { sharing with
      kernel := os
      written := update sharing.written p (sharing.written p +
        ((addr.drop (sharing.written p)).take filewriteMax).length)
      chunks := sharing.chunks ++ [(p, (addr.drop (sharing.written p)).take filewriteMax)] } := by
  have added : ∀ chunk, (sharing.chunks ++ [(p, chunk)]).flatMap snd =
      sharing.bytes ++ chunk := by
    intro chunk
    rw [flatMap_append]
    simp [Sharing.bytes]
  refine ⟨regular, ?_, ?_, ?_⟩
  · change _ = off + ((sharing.chunks ++ [_]).flatMap snd).length
    rw [added, length_append, advanced, shared.position, Nat.add_assoc]
  · intro offset inside
    change offset < ((sharing.chunks ++ [_]).flatMap snd).length at inside
    change os.store.byte inum (off + offset) =
      ((sharing.chunks ++ [_]).flatMap snd).getD offset 0
    rw [added, length_append] at inside
    rw [added, bytes (off + offset), shared.position]
    by_cases early : offset < sharing.bytes.length
    · rw [if_neg (by omega), shared.contents offset early, getD_append _ _ _ _ early]
    · rw [if_pos (by omega), getD_append_right _ _ _ _ (by omega)]
      congr 1
      omega
  · intro other
    refine Eq.trans ?_ (shared.order other)
    unfold Sharing.chunksBy
    rw [chunksBy_append, append_assoc]
    refine congrArg _ ?_
    unfold Sharing.left
    dsimp only
    by_cases same : p = other
    · subst same
      have some : addr.drop (sharing.written p) ≠ [] := by
        intro empty
        have short := drop_eq_nil_iff.mp empty
        omega
      simp only [calls]
      rw [if_pos trivial, update_self, drop_chunk, chunksOf_of_ne_nil some]
      rfl
    · rw [if_neg same, update_of_ne (Ne.symm same), nil_append]

/-- A call has returned with its buffer written. -/
theorem Shared.finish {result : Int} (done : addr.length ≤ sharing.written p) :
    Shared f ip inum off buffers { sharing with
      kernel := { sharing.kernel with cur := p }
      calls := update sharing.calls p rest
      written := update sharing.written p 0
      results := sharing.results ++ [(p, result)] } where
  regular := shared.regular.cur p
  position := shared.position
  contents := shared.contents
  order := by
    intro other
    refine Eq.trans ?_ (shared.order other)
    refine congrArg (sharing.chunksBy other ++ ·) ?_
    unfold Sharing.left
    dsimp only
    by_cases same : other = p
    · subst same
      simp only [calls, update_self]
      rw [drop_eq_nil_of_le done, chunksOf_nil, nil_append]
      cases rest with
      | nil => rfl
      | cons first rest => rfl
    · rw [update_of_ne same, update_of_ne same]

end

theorem Shared.step (shared : sharing.Succeeded → Shared f ip inum off buffers sharing)
    (taken : sharing.step f p = some next) :
    next.Succeeded → Shared f ip inum off buffers next := by
  intro succeeded
  simp only [Sharing.step] at taken
  split at taken
  case h_1 => cases taken
  case h_2 addr rest calls =>
    have spec : sharing.Succeeded → wp (filewriteRound f addr (sharing.written p)) _ (fun _ => True)
          { sharing.kernel with cur := p } := fun before =>
      filewriteRound_spec ((shared before).regular.cur p)
        ⟨trivial, trivial, trivial, trivial, trivial⟩ trivial trivial
    unfold wp at spec
    split at taken
    case h_1 => cases taken
    case h_2 i os returned =>
      cases taken
      have before : sharing.Succeeded := succeeded
      have known := spec before
      rw [returned] at known
      obtain ⟨more, same, regular, advanced, bytes⟩ | failed | done := known
      · cases same
        exact (shared before).write calls more regular advanced bytes
      · cases failed
      · cases done.2.1
    case h_3 r os returned =>
      cases taken
      have before : sharing.Succeeded := fun result member =>
        succeeded result (mem_append_left _ member)
      have known := spec before
      rw [returned] at known
      obtain wrote | failed | ⟨done, same, rfl⟩ := known
      · cases wrote.2.1
      · cases failed
        exact absurd rfl (succeeded (p, -1) (mem_append_right _ mem_cons_self))
      · exact (shared before).finish calls done

/-- The bytes of all chunks are those of the chunks of each process. -/
theorem length_bytes (sharing : Sharing) : sharing.bytes.length =
      ∑ p, (sharing.chunksBy p).flatten.length := by
  unfold Sharing.bytes Sharing.chunksBy
  induction sharing.chunks with
  | nil => simp
  | cons chunk chunks ih =>
    have split : ∀ p, (((chunk :: chunks).filter fun entry =>
          entry.1 = p).map snd).flatten.length =
        (if chunk.1 = p then chunk.2.length else 0) + ((chunks.filter fun entry => entry.1 = p).map
            snd).flatten.length := by
      intro p
      by_cases same : chunk.1 = p
      · simp [same]
      · simp [same]
    rw [flatMap_cons, length_append, ih,
      Finset.sum_congr rfl fun p _ => split p, Finset.sum_add_distrib,
      Finset.sum_ite_eq, if_pos (Finset.mem_univ _)]

theorem length_flatten_chunksOf (addrs : List (List Byte)) :
    (addrs.flatMap chunksOf).flatten.length = (addrs.map List.length).sum := by
  induction addrs with
  | nil => rfl
  | cons addr addrs ih =>
    rw [flatMap_cons, flatten_append, length_append, flatten_chunksOf, ih, map_cons, sum_cons]

/-- If every call succeeds, then in the end the offset has advanced by the bytes
of all buffers; the file holds from the first offset on the chunks one after
another, those of each process in its own order; and a short buffer is one
chunk. -/
theorem sharedWrites_of_run {os : Kernel} {actions : List (Fin nproc)} {final : Sharing}
    (regular : Regular os f ip inum)
    (ended : run (Sharing.step f) (Sharing.start os buffers) actions = some final)
    (finished : ∀ p, final.calls p = []) (succeeded : final.Succeeded) :
    (final.kernel.ftable f).off = (os.ftable f).off + ∑ p, ((buffers p).map List.length).sum ∧
      (List.range' (os.ftable f).off final.bytes.length).map
          (final.kernel.store.byte inum) = final.bytes ∧
      (∀ p, final.chunksBy p = (buffers p).flatMap chunksOf) ∧
      ∀ p, ∀ addr ∈ buffers p, addr ≠ [] → addr.length ≤ filewriteMax → chunksOf addr = [addr] := by
  have initially : (Sharing.start os buffers).Succeeded →
      Shared f ip inum (os.ftable f).off buffers (Sharing.start os buffers) := by
    intro _
    refine ⟨regular, rfl, fun offset inside => absurd inside (Nat.not_lt_zero offset), fun p => ?_⟩
    unfold Sharing.left Sharing.start
    dsimp only
    cases buffers p with
    | nil => rfl
    | cons addr rest => rfl
  have shared := run_invariant (fun sharing => sharing.Succeeded →
      Shared f ip inum (os.ftable f).off buffers sharing)
    (fun _ _ _ before taken => Shared.step before taken) initially ended
    succeeded
  have order : ∀ p, final.chunksBy p = (buffers p).flatMap chunksOf := by
    intro p
    have order := shared.order p
    unfold Sharing.left at order
    rw [finished p] at order
    rwa [append_nil] at order
  refine ⟨?_, ?_, order, fun p addr _ => chunksOf_of_short⟩
  · rw [shared.position, length_bytes]
    refine congrArg _ (Finset.sum_congr rfl fun p _ => ?_)
    rw [order p, length_flatten_chunksOf]
  · refine ext_getElem (by simp) fun offset inside within => ?_
    rw [getElem_map, getElem_range', Nat.one_mul,
      shared.contents offset within, getD_eq_getElem _ _ within]

end Shared

/-- A small disk with an empty file. -/
def fileStore : Store :=
  smallStore [.zero, smallDinode tDir 48 34, smallDinode tFile 0 0]
    [direntBlock [linkEntry dot rootino, linkEntry dotdot rootino, linkEntry [0x61] 2]]

/-- The empty file is open for writing. -/
def sharedKernel : Kernel :=
  ((boot fileStore fun _ => none).setInode 1
    { Inode.unused with dev := rootdev, inum := 2, ref := 1 }).setFile 0
      { type := .inode, ref := 2, readable := false, writable := true,
        ip := 1, off := 0 }

theorem checked_fileStore : Checked fileStore ∧ WholeEntries fileStore := by
  decide +kernel

theorem linked_fileStore (inum : Nat) (node : Node)
    (present : fileStore.volume inum = some node) : node.nlink ≠ 0 :=
  linked_of_dinodes (by decide +kernel) inum node present

theorem regular_sharedKernel : Regular sharedKernel 0 1 2 where
  quiet := by
    have sound : Sound fileStore := sound_iff.mpr
      ⟨checked_fileStore.1.wellFormed, checked_fileStore.2⟩
    have cached : Cached ((boot fileStore fun _ => none).setInode 1
        { Inode.unused with dev := rootdev, inum := 2, ref := 1 }) := by
      refine (boot_cached sound.valid).setInode (by decide) (fun _ => ?_)
        fun _ valid => absurd valid Bool.false_ne_true
      refine ⟨rfl, by decide, fun jp _ held => ?_⟩
      rw [boot_held held]
      decide
    have retained : Retained ((boot fileStore fun _ => none).setInode 1
        { Inode.unused with dev := rootdev, inum := 2, ref := 1 })
        ((boot fileStore fun _ => none).setInode 1
        { Inode.unused with dev := rootdev, inum := 2, ref := 1 }).refs :=
      fun inum node present unlinked =>
        absurd unlinked (linked_fileStore inum node present)
    refine Quiet.outer ⟨sound, cached, ?_, retained⟩ rfl rfl
    decide +kernel
  points := rfl
  held := by decide
  number := rfl
  file := ⟨_, volume_eq_some.mpr ⟨by decide, by decide +kernel, rfl⟩, by decide +kernel⟩

/-- Two processes write in turn. -/
def sharedBuffers : Fin nproc → List (List Byte) :=
  Function.update (Function.update (fun _ => []) 0 [[0x61, 0x62], [0x63]]) 1 [[0x78, 0x79]]

theorem sharedWrites_sharedBuffers :
    ∃ final, run (Sharing.step 0) (Sharing.start sharedKernel sharedBuffers)
        [0, 1, 0, 0, 1, 0] = some final ∧
      (final.kernel.ftable 0).off = 5 ∧
      (List.range' 0 5).map (final.kernel.store.byte 2) = [0x61, 0x62, 0x78, 0x79, 0x63] := by
  have seen : ((run (Sharing.step 0) (Sharing.start sharedKernel sharedBuffers)
      [0, 1, 0, 0, 1, 0]).map fun final => decide
        ((∀ p, final.calls p = []) ∧ (∀ result ∈ final.results, result.2 ≠ -1) ∧
          final.bytes = [0x61, 0x62, 0x78, 0x79, 0x63])) = some true := by
    decide +kernel
  obtain ⟨final, ended, same⟩ := Option.map_eq_some_iff.mp seen
  obtain ⟨finished, succeeded, bytes⟩ := of_decide_eq_true same
  obtain ⟨off, contents, -, -⟩ := sharedWrites_of_run regular_sharedKernel
    ended finished succeeded
  rw [bytes] at contents
  exact ⟨final, ended, off.trans (by decide +kernel), contents⟩

end Xv6.Fs
