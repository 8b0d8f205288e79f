import Xv6.Log.Recovery

/-!
# Crash atomicity of the redo log

A disk on the way from one transaction to the next is in one of three
conditions.  It is *clear* when its header counts no blocks, and then recovery
only rewrites the header.  It is *pending* when the header names the blocks of
the transaction and the log holds their new contents, and then every prefix of
recovery leaves it pending or finishes the transaction.  The first
`write_head` of `commit` is the step from the first condition to the second.
-/

namespace Xv6.Log

open List Foundation.WriteSequence
open Function (update update_of_ne update_self)

/-- A machine that is about to commit: the header on disk is clear, `log.lh`
names distinct blocks outside the log that fit in the log, and the cache
differs from the disk at most in these blocks. -/
structure ReadyToCommit (area : Area) (machine : Machine) : Prop where
  clear : headerCount (machine.disk area.start) = 0
  distinct : machine.header.Nodup
  /-- `block` of `struct logheader` has `LOGSIZE` entries. -/
  short : machine.header.length ≤ logsize
  /-- At most `log.size - 1` blocks. -/
  fits : machine.header.length < area.size
  outside : Outside area machine.header
  synced : ∀ block, block ∉ machine.header.map BitVec.toNat →
    machine.bread block = machine.disk block

/-- The log of `disk` holds a committed transaction: the blocks of the header
with the contents `fresh`. -/
structure Pending (area : Area) (blocks : List (BitVec 32)) (fresh : Nat → Block)
    (disk : Disk) : Prop where
  header : headerBlocks (disk area.start) = blocks
  copies : ∀ index < blocks.length,
    disk (area.start + index + 1) = fresh (blocks.getD index 0).toNat

/-- The transaction is installed in `disk` and its log is clear. -/
structure Installed (area : Area) (blocks : List (BitVec 32)) (fresh : Nat → Block)
    (disk : Disk) : Prop where
  clear : headerCount (disk area.start) = 0
  homes : ∀ block ∈ blocks, disk block.toNat = fresh block.toNat

/-- Two disks agree on all blocks that are neither in the log nor homes. -/
def SameElsewhere (area : Area) (blocks : List (BitVec 32)) (left right : Disk) : Prop :=
  ∀ block, block ∉ blocks.map BitVec.toNat → ¬area.Contains block → left block = right block

variable {area : Area} {blocks : List (BitVec 32)}

theorem SameElsewhere.trans {first second third : Disk}
    (left : SameElsewhere area blocks first second)
    (right : SameElsewhere area blocks second third) : SameElsewhere area blocks first third :=
  fun block notHome outside =>
    (left block notHome outside).trans (right block notHome outside)

/-- The writes of recovery: the installation of the logged blocks, then the
cleared header. -/
def recoveryWrites (area : Area) (blocks : List (BitVec 32)) (view : Nat → Block) :
    List (Nat × Block) :=
  installWrites area view 0 blocks ++ [(area.start, headerBlock (view area.start) [])]

theorem area_contains_start (nonempty : 0 < area.size) : area.Contains area.start := by
  constructor <;> omega

theorem start_notMem_of_outside (nonempty : 0 < area.size) (outside : Outside area blocks) :
    area.start ∉ blocks.map BitVec.toNat := by
  intro member
  obtain ⟨block, inBlocks, equal⟩ := mem_map.mp member
  apply outside block inBlocks
  rw [equal]
  exact area_contains_start nonempty

/-- Installing and clearing, as `recover_from_log` and the second half of
`commit` both do it, issues the recovery writes. -/
theorem installAndClear_eq_issue (area : Area) (machine : Machine)
    (outside : Outside area machine.header) (fits : machine.header.length < area.size) :
    writeHead area { installTrans area machine with header := [] } =
      { machine.issue (recoveryWrites area machine.header machine.bread)
        with header := [] } := by
  have installed := installTransFrom_eq_issue area 0 machine.header machine outside (by omega)
  have kept : (machine.issue (installWrites area machine.bread 0 machine.header)).bread area.start =
        machine.bread area.start := by
    rw [Machine.issue_bread]
    apply applyWrites_of_notMem
    rw [map_fst_installWrites]
    exact start_notMem_of_outside (by omega) outside
  rw [installTrans, installed, recoveryWrites, Machine.issue_append, writeHead]
  change Machine.bwrite _ _ (headerBlock ((machine.issue
    (installWrites area machine.bread 0 machine.header)).bread area.start) []) = _
  rw [kept]
  rfl

theorem recoverFromLog_boot (area : Area) (disk : Disk) (blocks : List (BitVec 32))
    (header : headerBlocks (disk area.start) = blocks)
    (outside : Outside area blocks) (fits : blocks.length < area.size) :
    (recoverFromLog area (boot disk)).writes = recoveryWrites area blocks disk ∧
      recovered area disk = applyWrites disk (recoveryWrites area blocks disk) := by
  subst header
  have step := installAndClear_eq_issue area (readHead area (boot disk)) outside fits
  have writes : (recoverFromLog area (boot disk)).writes =
      recoveryWrites area (headerBlocks (disk area.start)) disk := by
    rw [recoverFromLog, step]
    exact Machine.issue_writes _ _
  refine ⟨writes, ?_⟩
  rw [recovered, recoverFromLog, step]
  exact Machine.issue_disk _ _

/-- Running recovery to its end is recovery cut after its last write. -/
theorem recovered_eq_recoverCrash (area : Area) (disk : Disk) (blocks : List (BitVec 32))
    (header : headerBlocks (disk area.start) = blocks)
    (outside : Outside area blocks) (fits : blocks.length < area.size) :
    recovered area disk = recoverCrash area disk (blocks.length + 1) := by
  obtain ⟨writes, final⟩ := recoverFromLog_boot area disk blocks header outside fits
  rw [final, recoverCrash, writes, take_of_length_le]
  simp [recoveryWrites]

/-! ## One recovery, cut anywhere -/

/-- Recovery of a clear disk changes nothing but the header, which stays
clear. -/
theorem recoverCrash_of_clear (area : Area) (disk : Disk) (count : Nat)
    (nonempty : 0 < area.size) (clear : headerCount (disk area.start) = 0) :
    headerCount (recoverCrash area disk count area.start) = 0 ∧ ∀ block, block ≠ area.start →
        recoverCrash area disk count block = disk block := by
  obtain ⟨writes, -⟩ := recoverFromLog_boot area disk []
    (headerBlocks_of_count_zero clear) (by simp [Outside]) (by simpa)
  rw [recoverCrash, writes]
  cases count with
  | zero => exact ⟨clear, fun block _ => rfl⟩
  | succ count =>
    simp only [recoveryWrites, installWrites, nil_append,
      take_succ_cons, take_nil, applyWrites_cons,
      applyWrites_nil]
    constructor
    · simp [headerCount_headerBlock]
    · intro block apart
      exact update_of_ne apart _ _

variable {fresh : Nat → Block} {disk : Disk}

/-- Cut before its last write, recovery leaves a pending disk pending. -/
theorem Pending.recoverCrash (pending : Pending area blocks fresh disk)
    (outside : Outside area blocks) (fits : blocks.length < area.size)
    (count : Nat) (early : count ≤ blocks.length) :
    Pending area blocks fresh (recoverCrash area disk count) ∧
      SameElsewhere area blocks (recoverCrash area disk count) disk := by
  obtain ⟨writes, -⟩ := recoverFromLog_boot area disk blocks pending.header outside fits
  have cut : (recoveryWrites area blocks disk).take count =
      (installWrites area disk 0 blocks).take count := by
    rw [recoveryWrites, take_append_of_le_length]
    simpa using early
  have homeOnly : ∀ block, block ∉ blocks.map BitVec.toNat →
      Log.recoverCrash area disk count block = disk block := by
    intro block notHome
    rw [Log.recoverCrash, writes, cut]
    apply applyWrites_of_notMem
    rw [map_take, map_fst_installWrites]
    exact fun member => notHome (mem_of_mem_take member)
  have logKept : ∀ block, area.Contains block →
      Log.recoverCrash area disk count block = disk block := by
    intro block inLog
    apply homeOnly
    intro member
    obtain ⟨home, inBlocks, equal⟩ := mem_map.mp member
    exact outside home inBlocks (equal ▸ inLog)
  refine ⟨⟨?_, ?_⟩, fun block notHome _ => homeOnly block notHome⟩
  · rw [logKept _ (area_contains_start (by omega))]
    exact pending.header
  · intro index inside
    rw [logKept _ ⟨by omega, by omega⟩]
    exact pending.copies index inside

/-- Recovery that reaches its last write installs a pending transaction. -/
theorem Pending.recoverCrash_installed (pending : Pending area blocks fresh disk)
    (distinct : blocks.Nodup) (outside : Outside area blocks)
    (fits : blocks.length < area.size) (count : Nat) (late : blocks.length < count) :
    Installed area blocks fresh (Log.recoverCrash area disk count) ∧
      SameElsewhere area blocks (Log.recoverCrash area disk count) disk := by
  obtain ⟨writes, -⟩ := recoverFromLog_boot area disk blocks pending.header outside fits
  have whole : (recoveryWrites area blocks disk).take count = recoveryWrites area blocks disk := by
    apply take_of_length_le
    simp only [recoveryWrites, length_append, length_installWrites, length_singleton]
    omega
  have final : Log.recoverCrash area disk count =
      update (applyWrites disk (installWrites area disk 0 blocks))
        area.start (headerBlock (disk area.start) []) := by
    rw [Log.recoverCrash, writes, whole, recoveryWrites, applyWrites_append]
    rfl
  have startNotHome : area.start ∉ blocks.map BitVec.toNat :=
    start_notMem_of_outside (by omega) outside
  rw [final]
  refine ⟨⟨?_, ?_⟩, ?_⟩
  · simp [headerCount_headerBlock]
  · intro block member
    have notStart : block.toNat ≠ area.start := fun equal =>
      startNotHome (equal ▸ mem_map_of_mem member)
    have keys : ((installWrites area disk 0 blocks).map Prod.fst).Nodup := by
      rw [map_fst_installWrites]
      exact distinct.map fun _ _ => BitVec.eq_of_toNat_eq
    have written : block.toNat ∈ (installWrites area disk 0 blocks).map Prod.fst := by
      rw [map_fst_installWrites]
      exact mem_map_of_mem member
    obtain ⟨⟨home, contents⟩, inWrites, equal⟩ := mem_map.mp written
    have value : contents = fresh home :=
      mem_installWrites_eq (by simpa using pending.copies) inWrites
    simp only at equal
    subst equal
    rw [update_of_ne notStart, applyWrites_of_mem disk _ keys inWrites, value]
  · intro block notHome notLog
    have notStart : block ≠ area.start := fun equal =>
      notLog (equal ▸ area_contains_start (by omega))
    rw [update_of_ne notStart]
    apply applyWrites_of_notMem
    rw [map_fst_installWrites]
    exact notHome

/-- Once installed, a transaction stays installed under recovery. -/
theorem Installed.recoverCrash (installed : Installed area blocks fresh disk)
    (outside : Outside area blocks) (nonempty : 0 < area.size) (count : Nat) :
    Installed area blocks fresh (Log.recoverCrash area disk count) ∧
      SameElsewhere area blocks (Log.recoverCrash area disk count) disk := by
  obtain ⟨clear, kept⟩ := recoverCrash_of_clear area disk count nonempty installed.clear
  have startNotHome := start_notMem_of_outside nonempty outside
  refine ⟨⟨clear, fun block member => ?_⟩, fun block _ notLog => ?_⟩
  · rw [kept _ fun equal =>
      startNotHome (equal ▸ mem_map_of_mem member)]
    exact installed.homes block member
  · exact kept _ fun equal =>
      notLog (equal ▸ area_contains_start nonempty)

/-- Recovery that runs to its end installs a logged transaction. -/
theorem recovered_installed (distinct : blocks.Nodup)
    (outside : Outside area blocks) (fits : blocks.length < area.size)
    (s : Pending area blocks fresh disk ∨ Installed area blocks fresh disk) :
    Installed area blocks fresh (recovered area disk) ∧
      SameElsewhere area blocks (recovered area disk) disk := by
  rcases s with pending | installed
  · rw [recovered_eq_recoverCrash area disk blocks pending.header outside fits]
    exact pending.recoverCrash_installed distinct outside fits _ (by omega)
  · rw [recovered_eq_recoverCrash area disk []
      (headerBlocks_of_count_zero installed.clear) (by simp [Outside])
      (by simp; omega)]
    exact installed.recoverCrash outside (by omega) _

/-! ## The commit, cut anywhere -/

/-- The disk at the moment the first `write_head` of `commit` has reached it:
the log copies and the header are written, the homes are not. -/
def committedDisk (area : Area) (machine : Machine) : Disk :=
  applyWrites machine.disk (logWrites area machine.bread 0 machine.header ++
      [(area.start, headerBlock (machine.bread area.start) machine.header)])

/-- The view of the buffers and the disk both hold the log copies once
`write_log` and `write_head` are done. -/
theorem applyWrites_committed_copies (area : Area) (machine : Machine)
    (store : Nat → Block) (index : Nat) (inside : index < machine.header.length) :
    applyWrites store (logWrites area machine.bread 0 machine.header ++ [(area.start,
            headerBlock (machine.bread area.start) machine.header)])
        (area.start + index + 1) =
      machine.bread (machine.header.getD index 0).toNat := by
  have copies := applyWrites_logWrites area store machine.bread 0 machine.header index inside
  rw [applyWrites_append, applyWrites_cons, applyWrites_nil, update_of_ne (by omega)]
  simpa using copies

section Commit

variable {area : Area} {machine : Machine}
variable (ready : ReadyToCommit area machine)

include ready

theorem logWrites_keys_inLog {write : Nat × Block}
    (member : write ∈ logWrites area machine.bread 0 machine.header) :
    area.Contains write.1 ∧ write.1 ≠ area.start := by
  have bounds := mem_logWrites member
  have fits := ready.fits
  refine ⟨⟨?_, ?_⟩, ?_⟩ <;> omega

theorem applyWrites_logWrites_elsewhere (store : Nat → Block) (count block : Nat)
    (elsewhere : ¬area.Contains block ∨ block = area.start) :
    applyWrites store ((logWrites area machine.bread 0 machine.header).take count) block =
      store block := by
  apply applyWrites_of_notMem
  intro member
  obtain ⟨write, inWrites, equal⟩ := mem_map.mp member
  have keys := logWrites_keys_inLog ready (mem_of_mem_take inWrites)
  rw [equal] at keys
  rcases elsewhere with outside | start
  · exact outside keys.1
  · exact keys.2 start

theorem committedDisk_pending : Pending area machine.header machine.bread
      (committedDisk area machine) := by
  refine ⟨?_, fun index inside =>
    applyWrites_committed_copies area machine machine.disk index inside⟩
  rw [committedDisk, applyWrites_append, applyWrites_cons, applyWrites_nil, update_self]
  exact headerBlocks_headerBlock _ _ ready.short

theorem committedDisk_sameElsewhere : SameElsewhere area machine.header (committedDisk area machine)
      machine.disk := by
  intro block _ outside
  have notStart : block ≠ area.start := by
    intro equal
    have fits := ready.fits
    exact outside (equal ▸ area_contains_start (by omega))
  have kept := applyWrites_logWrites_elsewhere ready machine.disk
    machine.header.length block (Or.inl outside)
  rw [take_of_length_le (by simp)] at kept
  rw [committedDisk, applyWrites_append, applyWrites_cons, applyWrites_nil,
    update_of_ne notStart, kept]

/-- The writes of `commit`: the log copies, the header, and then exactly the
writes recovery would make of the committed disk. -/
theorem commit_writes (nonempty : 0 < machine.header.length) :
    (commit area { machine with writes := [] }).writes =
      (logWrites area machine.bread 0 machine.header ++ [(area.start,
          headerBlock (machine.bread area.start) machine.header)]) ++
        recoveryWrites area machine.header (committedDisk area machine) := by
  let fresh : Machine := { machine with writes := [] }
  let logged := logWrites area machine.bread 0 machine.header
  let head : Nat × Block :=
    (area.start, headerBlock (machine.bread area.start) machine.header)
  have wroteLog : writeLog area fresh = fresh.issue logged :=
    writeLogFrom_eq_issue area 0 machine.header fresh ready.outside (by simpa using ready.fits)
  have startKept : (fresh.issue logged).bread area.start = machine.bread area.start := by
    have kept := applyWrites_logWrites_elsewhere ready machine.bread
      machine.header.length area.start (Or.inr rfl)
    rw [take_of_length_le (by simp)] at kept
    rw [Machine.issue_bread]
    exact kept
  have wroteHead : writeHead area (writeLog area fresh) = fresh.issue (logged ++ [head]) := by
    rw [wroteLog, Machine.issue_append, writeHead, startKept, Machine.issue_header]
    rfl
  have cleared := installAndClear_eq_issue area (fresh.issue (logged ++ [head]))
    (by simpa using ready.outside) (by simpa using ready.fits)
  have sameRecovery : recoveryWrites area machine.header (fresh.issue (logged ++ [head])).bread =
        recoveryWrites area machine.header (committedDisk area machine) := by
    rw [Machine.issue_bread, recoveryWrites, recoveryWrites]
    congr 1
    · apply installWrites_congr
      intro index _ high
      have inside : index < machine.header.length := by simpa using high
      rw [applyWrites_committed_copies area machine _ index inside]
      exact (applyWrites_committed_copies area machine _ index inside).symm
    · rw [committedDisk]
      simp only [applyWrites_append, applyWrites_cons, applyWrites_nil, update_self, head]
  rw [commit, if_pos nonempty]
  change (writeHead area { installTrans area (writeHead area (writeLog area fresh)) with
      header := [] }).writes = _
  rw [wroteHead, cleared]
  change ((fresh.issue (logged ++ [head])).issue _).writes = _
  rw [Machine.issue_writes, Machine.issue_writes, Machine.issue_header, sameRecovery]
  rfl

/-- The first `write_head` has reached the disk exactly after one write more
than there are log copies. -/
theorem headReached_iff (nonempty : 0 < machine.header.length) (count : Nat) :
    area.start ∈ ((commit area { machine with writes := [] }).writes.take count).map Prod.fst ↔
      machine.header.length < count := by
  rw [commit_writes ready nonempty]
  constructor
  · intro reached
    by_contra early
    rw [append_assoc, take_append_of_le_length (by simpa using early)] at reached
    obtain ⟨write, inWrites, equal⟩ := mem_map.mp reached
    exact (logWrites_keys_inLog ready (mem_of_mem_take inWrites)).2 equal
  · intro late
    obtain ⟨extra, rfl⟩ := Nat.exists_eq_add_of_lt late
    rw [append_assoc, Nat.add_assoc, take_append, take_of_length_le (by simp)]
    simp

/-- Cut before the first `write_head`, `commit` has changed the log only. -/
theorem commitCrash_early (count : Nat) (early : count ≤ machine.header.length) :
    headerCount (commitCrash area machine count area.start) = 0 ∧ ∀ block, ¬area.Contains block →
        commitCrash area machine count block = machine.disk block := by
  rcases Nat.eq_zero_or_pos machine.header.length with empty | nonempty
  · have none : commitCrash area machine count = machine.disk := by
      simp [commitCrash, commit, empty]
    rw [none]
    exact ⟨ready.clear, fun block _ => rfl⟩
  · have cut : commitCrash area machine count = applyWrites machine.disk
          ((logWrites area machine.bread 0 machine.header).take count) := by
      rw [commitCrash, commit_writes ready nonempty, append_assoc,
        take_append_of_le_length (by simpa using early)]
    rw [cut]
    refine ⟨?_, fun block outside =>
      applyWrites_logWrites_elsewhere ready _ _ _ (Or.inl outside)⟩
    rw [applyWrites_logWrites_elsewhere ready _ _ _ (Or.inr rfl)]
    exact ready.clear

/-- Cut at or after the first `write_head`, `commit` leaves the disk that
recovery of the committed disk leaves when it is cut accordingly. -/
theorem commitCrash_late (nonempty : 0 < machine.header.length) (count : Nat)
    (late : machine.header.length < count) :
    commitCrash area machine count = recoverCrash area (committedDisk area machine)
        (count - (machine.header.length + 1)) := by
  have fits := ready.fits
  obtain ⟨writes, -⟩ := recoverFromLog_boot area (committedDisk area machine)
    machine.header (committedDisk_pending ready).header ready.outside fits
  rw [commitCrash, commit_writes ready nonempty, take_append,
    take_of_length_le (by simp; omega), applyWrites_append,
    recoverCrash, writes]
  simp only [length_append, length_logWrites, length_singleton]
  rfl

end Commit

/-! ## Any number of crashes -/

/-- Clear disks that agree with `original` outside the log stay so under any
number of interrupted recoveries. -/
theorem foldl_recoverCrash_clear (area : Area) (nonempty : 0 < area.size)
    (original disk : Disk) (crashes : List Nat) (clear : headerCount (disk area.start) = 0)
    (same : ∀ block, ¬area.Contains block → disk block = original block) :
    headerCount (crashes.foldl (recoverCrash area) disk area.start) = 0 ∧
      ∀ block, ¬area.Contains block →
        crashes.foldl (recoverCrash area) disk block = original block := by
  induction crashes generalizing disk with
  | nil => exact ⟨clear, same⟩
  | cons count crashes ih =>
    obtain ⟨stillClear, kept⟩ := recoverCrash_of_clear area disk count nonempty clear
    refine ih _ stillClear fun block outside => ?_
    have notStart : block ≠ area.start := fun equal =>
      outside (equal ▸ area_contains_start nonempty)
    rw [kept block notStart, same block outside]

/-- Interrupted recoveries of a pending disk leave it pending or installed. -/
theorem foldl_recoverCrash_pending (distinct : blocks.Nodup)
    (outside : Outside area blocks) (fits : blocks.length < area.size)
    (disk : Disk) (crashes : List Nat)
    (s : Pending area blocks fresh disk ∨ Installed area blocks fresh disk) :
    (Pending area blocks fresh (crashes.foldl (recoverCrash area) disk) ∨
        Installed area blocks fresh (crashes.foldl (recoverCrash area) disk)) ∧
      SameElsewhere area blocks (crashes.foldl (recoverCrash area) disk) disk := by
  induction crashes generalizing disk with
  | nil => exact ⟨s, fun _ _ _ => rfl⟩
  | cons count crashes ih =>
    have step : (Pending area blocks fresh (recoverCrash area disk count) ∨
          Installed area blocks fresh (recoverCrash area disk count)) ∧
        SameElsewhere area blocks (recoverCrash area disk count) disk := by
      rcases s with pending | installed
      · rcases Nat.lt_or_ge blocks.length count with late | early
        · obtain ⟨done, same⟩ := pending.recoverCrash_installed distinct outside fits count late
          exact ⟨Or.inr done, same⟩
        · obtain ⟨still, same⟩ := pending.recoverCrash outside fits count early
          exact ⟨Or.inl still, same⟩
      · obtain ⟨still, same⟩ := installed.recoverCrash outside (by omega) count
        exact ⟨Or.inr still, same⟩
    obtain ⟨next, same⟩ := ih _ step.1
    exact ⟨next, same.trans step.2⟩

/-- What recovery leaves when `commit` was stopped after `count` block writes and
any number of recoveries anywhere: the new contents of the home blocks if more
writes than those to the log were made, the old ones otherwise. -/
theorem recovered_cases {machine : Machine} (ready : ReadyToCommit area machine) (count : Nat)
    (crashes : List Nat) :
    let final := recovered area
      (crashes.foldl (recoverCrash area) (commitCrash area machine count))
    (∀ block ∈ machine.header, final block.toNat =
        if machine.header.length < count then machine.bread block.toNat
        else machine.disk block.toNat) ∧
      (∀ block, block ∉ machine.header.map BitVec.toNat →
        ¬area.Contains block → final block = machine.disk block) ∧
      headerCount (final area.start) = 0 := by
  intro final
  have fits := ready.fits
  have nonemptyLog : 0 < area.size := by omega
  by_cases late : 0 < machine.header.length ∧ machine.header.length < count
  · -- the header is on the disk: every later disk is pending or installed
    obtain ⟨nonempty, late⟩ := late
    have folded := foldl_recoverCrash_pending ready.distinct ready.outside
      fits (committedDisk area machine)
      ((count - (machine.header.length + 1)) :: crashes)
      (Or.inl (committedDisk_pending ready))
    rw [foldl_cons, ← commitCrash_late ready nonempty count late] at folded
    obtain ⟨s, same⟩ := folded
    have finished := recovered_installed ready.distinct ready.outside fits s
    have elsewhere := (finished.2.trans same).trans (committedDisk_sameElsewhere ready)
    refine ⟨fun block member => ?_, elsewhere, finished.1.clear⟩
    rw [if_pos late]
    exact finished.1.homes block member
  · -- the header on the disk is still the old, clear one
    have early : machine.header.length = 0 ∨ count ≤ machine.header.length := by omega
    have cut : headerCount (commitCrash area machine count area.start) = 0 ∧
        ∀ block, ¬area.Contains block →
          commitCrash area machine count block = machine.disk block := by
      rcases early with empty | early
      · have none : commitCrash area machine count = machine.disk := by
          simp [commitCrash, commit, empty]
        rw [none]
        exact ⟨ready.clear, fun block _ => rfl⟩
      · exact commitCrash_early ready count early
    obtain ⟨clear, same⟩ := foldl_recoverCrash_clear area nonemptyLog
      machine.disk _ (crashes ++ [1]) cut.1 cut.2
    have last : final = (crashes ++ [1]).foldl (recoverCrash area)
        (commitCrash area machine count) := by
      have before := foldl_recoverCrash_clear area nonemptyLog machine.disk _ crashes cut.1 cut.2
      rw [foldl_append, foldl_cons, foldl_nil]
      exact recovered_eq_recoverCrash area _ []
        (headerBlocks_of_count_zero before.1) (by simp [Outside])
        (by simpa)
    rw [last]
    refine ⟨fun block member => ?_, fun block _ outside => same block outside, clear⟩
    have nonempty : 0 < machine.header.length := length_pos_of_mem member
    rw [if_neg (by omega)]
    exact same _ (ready.outside block member)

/-- Crash atomicity.  Stop `commit` after any number of block writes, stop any
number of recoveries anywhere, then let recovery finish: the home blocks hold
the new contents if the first `write_head` of `commit` had reached the disk and
the old ones otherwise, nothing else outside the log has changed, and the log
is clear. -/
theorem recovered_commitCrash (area : Area) (machine : Machine)
    (ready : ReadyToCommit area machine) (count : Nat) (crashes : List Nat) :
    let final := recovered area
      (crashes.foldl (recoverCrash area) (commitCrash area machine count))
    let headReached := area.start ∈
      ((commit area { machine with writes := [] }).writes.take count).map Prod.fst
    (headReached → ∀ block ∈ machine.header, final block.toNat = machine.bread block.toNat) ∧
      (¬headReached → ∀ block ∈ machine.header, final block.toNat = machine.disk block.toNat) ∧
      (∀ block, block ∉ machine.header.map BitVec.toNat →
        ¬area.Contains block → final block = machine.disk block) ∧
      headerCount (final area.start) = 0 := by
  intro final headReached
  obtain ⟨homes, elsewhere, clear⟩ := recovered_cases ready count crashes
  refine ⟨fun reached block member => ?_, fun lost block member => ?_, elsewhere, clear⟩
  · have late := (headReached_iff ready (length_pos_of_mem member) count).mp reached
    exact (homes block member).trans (if_pos late)
  · have early := mt (headReached_iff ready (length_pos_of_mem member) count).mpr lost
    exact (homes block member).trans (if_neg early)

/-- A machine with two logged blocks whose new contents differ from the disk. -/
def twoBlockMachine : Machine where
  disk := fun _ => 0
  cache := fun block => if block = 100 then some 1 else if block = 101 then some 2 else none
  header := [100, 101]
  writes := []

theorem twoBlockMachine_ready : ReadyToCommit ⟨2, 30⟩ twoBlockMachine where
  clear := by decide +kernel
  distinct := by decide
  short := by decide
  fits := by decide
  outside := by
    intro block member inLog
    have high := inLog.2
    simp only [twoBlockMachine, mem_cons, not_mem_nil, or_false] at member
    rcases member with rfl | rfl <;> simp at high
  synced := by
    intro block notHome
    have none : twoBlockMachine.cache block = none := by
      unfold twoBlockMachine
      dsimp only
      rw [if_neg (by rintro rfl; exact notHome (by decide)),
        if_neg (by rintro rfl; exact notHome (by decide))]
    rw [Machine.bread, none, Option.getD_none]

/-- The theorem at a concrete transaction: three writes into `commit` the header
is on disk, and the new contents survive two interrupted recoveries. -/
theorem recovered_twoBlockMachine :
    let final := recovered ⟨2, 30⟩
      ([0, 1].foldl (recoverCrash ⟨2, 30⟩) (commitCrash ⟨2, 30⟩ twoBlockMachine 3))
    final 100 = 1 ∧ final 101 = 2 := by
  have atomic := (recovered_commitCrash ⟨2, 30⟩ twoBlockMachine twoBlockMachine_ready 3 [0, 1]).1
  have reached := (headReached_iff twoBlockMachine_ready (by decide) 3).mpr (by decide)
  exact ⟨atomic reached 100 (by decide), atomic reached 101 (by decide)⟩

end Xv6.Log
