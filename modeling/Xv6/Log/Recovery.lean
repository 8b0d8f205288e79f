import Xv6.Disk.Block
import Xv6.Foundation.WriteSequence

/-!
# Commit and recovery of the redo log

The model of `write_log`, `write_head`, `install_trans`, `read_head`,
`commit` and `recover_from_log` of `log.c`, over a disk, the buffer cache and
the in-memory log header.  Every `bwrite` is recorded, so that a crash after
any number of block writes is a prefix of the record.
-/

namespace Xv6.Log

open List Function Foundation.WriteSequence

/-- `LOGSIZE`, the length of `block` in `struct logheader`. -/
abbrev logsize : Nat := 30

/-- The disk: block numbers to contents. -/
abbrev Disk := Nat → Block

/-- Where the log lies on the disk: `log.start` and `log.size`. -/
structure Area where
  /-- Block number of the log header. -/
  start : Nat
  /-- Number of log blocks, the header included. -/
  size : Nat

/-- A block number inside the log area. -/
def Area.Contains (area : Area) (block : Nat) : Prop :=
  area.start ≤ block ∧ block < area.start + area.size

/-- The parts of the machine that the log code reads and writes. -/
structure Machine where
  /-- What is on the disk. -/
  disk : Disk
  /-- The buffer cache. -/
  cache : Nat → Option Block
  /-- `log.lh`: the `n` block numbers of the in-memory header. -/
  header : List (BitVec 32)
  /-- The block writes issued so far, in order. -/
  writes : List (Nat × Block)

namespace Machine

/-- `bread`: the cached contents, or those on the disk. -/
def bread (machine : Machine) (block : Nat) : Block :=
  (machine.cache block).getD (machine.disk block)

/-- `bwrite`: the contents reach the disk and stay cached. -/
def bwrite (machine : Machine) (block : Nat) (contents : Block) : Machine where
  disk := update machine.disk block contents
  cache := update machine.cache block (some contents)
  header := machine.header
  writes := machine.writes ++ [(block, contents)]

end Machine

/-- The machine after a reboot: nothing is cached. -/
def boot (disk : Disk) : Machine where
  disk := disk
  cache := fun _ => none
  header := []
  writes := []

/-- The loop of `write_log` from index `tail` on. -/
def writeLogFrom (area : Area) : Nat → List (BitVec 32) → Machine → Machine
  | _, [], machine => machine
  | tail, block :: blocks, machine =>
    writeLogFrom area (tail + 1) blocks
      (machine.bwrite (area.start + tail + 1) (machine.bread block.toNat))

/-- `write_log`: copy modified blocks from cache to log. -/
def writeLog (area : Area) (machine : Machine) : Machine :=
  writeLogFrom area 0 machine.header machine

/-- The header block with `n` and `block[0..n)` stored into it. -/
def headerBlock (old : Block) (blocks : List (BitVec 32)) : Block :=
  (old.setWord 0 (BitVec.ofNat 32 blocks.length)).setWords 1 blocks

/-- `write_head`: write the in-memory log header to disk. -/
def writeHead (area : Area) (machine : Machine) : Machine :=
  machine.bwrite area.start (headerBlock (machine.bread area.start) machine.header)

/-- The `n` of a header block, an `int`. -/
def headerCount (block : Block) : Int :=
  (block.word 0).toInt

/-- The block numbers that the loop of `read_head` copies. -/
def headerBlocks (block : Block) : List (BitVec 32) :=
  (List.range (headerCount block).toNat).map fun index =>
    block.word (index + 1)

/-- `read_head`: read the log header from disk into memory. -/
def readHead (area : Area) (machine : Machine) : Machine :=
  { machine with header := headerBlocks (machine.bread area.start) }

/-- The loop of `install_trans` from index `tail` on. -/
def installTransFrom (area : Area) : Nat → List (BitVec 32) → Machine → Machine
  | _, [], machine => machine
  | tail, block :: blocks, machine =>
    installTransFrom area (tail + 1) blocks
      (machine.bwrite block.toNat (machine.bread (area.start + tail + 1)))

/-- `install_trans`: copy committed blocks from log to their home location. -/
def installTrans (area : Area) (machine : Machine) : Machine :=
  installTransFrom area 0 machine.header machine

/-- `recover_from_log`. -/
def recoverFromLog (area : Area) (machine : Machine) : Machine :=
  let installed := installTrans area (readHead area machine)
  writeHead area { installed with header := [] }

/-- `commit`. -/
def commit (area : Area) (machine : Machine) : Machine :=
  if 0 < machine.header.length then
    let installed :=
      installTrans area (writeHead area (writeLog area machine))
    writeHead area { installed with header := [] }
  else machine

/-! ## Crashes -/

/-- The disk when `commit` is stopped after `count` block writes. -/
def commitCrash (area : Area) (machine : Machine) (count : Nat) : Disk :=
  applyWrites machine.disk ((commit area { machine with writes := [] }).writes.take count)

/-- The disk when `recover_from_log`, run after a reboot, is stopped after
`count` block writes. -/
def recoverCrash (area : Area) (disk : Disk) (count : Nat) : Disk :=
  applyWrites disk ((recoverFromLog area (boot disk)).writes.take count)

/-- The disk after `recover_from_log` has run to its end. -/
def recovered (area : Area) (disk : Disk) : Disk :=
  (recoverFromLog area (boot disk)).disk

/-! ## Issuing a list of writes -/

namespace Machine

/-- Issue a list of block writes in order. -/
def issue (machine : Machine) : List (Nat × Block) → Machine
  | [] => machine
  | write :: writes => (machine.bwrite write.1 write.2).issue writes

@[simp] theorem bread_bwrite (machine : Machine) (block : Nat) (contents : Block) :
    (machine.bwrite block contents).bread = update machine.bread block contents := by
  funext other
  by_cases equal : other = block
  · subst equal
    simp [bread, bwrite]
  · simp [bread, bwrite, equal]

theorem issue_append (machine : Machine) (first second : List (Nat × Block)) :
    machine.issue (first ++ second) = (machine.issue first).issue second := by
  induction first generalizing machine with
  | nil => rfl
  | cons write writes ih => exact ih _

section

variable (machine : Machine) (writes : List (Nat × Block))
include machine writes

@[simp] theorem issue_disk :
    (machine.issue writes).disk = applyWrites machine.disk writes := by
  induction writes generalizing machine with
  | nil => rfl
  | cons write writes ih => exact ih _

@[simp] theorem issue_header :
    (machine.issue writes).header = machine.header := by
  induction writes generalizing machine with
  | nil => rfl
  | cons write writes ih => exact ih _

@[simp] theorem issue_writes :
    (machine.issue writes).writes = machine.writes ++ writes := by
  induction writes generalizing machine with
  | nil => simp [issue]
  | cons write writes ih =>
    rw [issue, ih]
    simp [bwrite]

theorem issue_bread : (machine.issue writes).bread = applyWrites machine.bread writes := by
  induction writes generalizing machine with
  | nil => rfl
  | cons write writes ih => rw [issue, ih, bread_bwrite, applyWrites_cons]

end

end Machine

/-- The writes of `write_log` when the buffers hold `view`. -/
def logWrites (area : Area) (view : Nat → Block) : Nat → List (BitVec 32) → List (Nat × Block)
  | _, [] => []
  | tail, block :: blocks =>
    (area.start + tail + 1, view block.toNat) :: logWrites area view (tail + 1) blocks

/-- The writes of `install_trans` when the buffers hold `view`. -/
def installWrites (area : Area) (view : Nat → Block) : Nat → List (BitVec 32) → List (Nat × Block)
  | _, [] => []
  | tail, block :: blocks =>
    (block.toNat, view (area.start + tail + 1)) :: installWrites area view (tail + 1) blocks

/-- A list of block numbers all outside the log area. -/
def Outside (area : Area) (blocks : List (BitVec 32)) : Prop :=
  ∀ block ∈ blocks, ¬area.Contains block.toNat

variable {blocks : List (BitVec 32)} {area : Area}

theorem Outside.tail {block : BitVec 32}
    (outside : Outside area (block :: blocks)) : Outside area blocks :=
  fun other member => outside other (mem_cons_of_mem _ member)

theorem logWrites_congr (area : Area) (left right : Nat → Block)
    (tail : Nat) (blocks : List (BitVec 32))
    (agree : ∀ block ∈ blocks, left block.toNat = right block.toNat) :
    logWrites area left tail blocks = logWrites area right tail blocks := by
  induction blocks generalizing tail with
  | nil => rfl
  | cons block blocks ih =>
    simp only [logWrites, agree block (by simp)]
    rw [ih (tail + 1) fun other member => agree other (mem_cons_of_mem _ member)]

theorem installWrites_congr (area : Area) (left right : Nat → Block)
    (tail : Nat) (blocks : List (BitVec 32))
    (agree : ∀ index, tail ≤ index → index < tail + blocks.length →
      left (area.start + index + 1) = right (area.start + index + 1)) :
    installWrites area left tail blocks = installWrites area right tail blocks := by
  induction blocks generalizing tail with
  | nil => rfl
  | cons block blocks ih =>
    simp only [length_cons] at agree
    simp only [installWrites, agree tail (by omega) (by omega)]
    rw [ih (tail + 1) fun index low high => agree index (by omega) (by omega)]

/-- The loop of `write_log` issues the log copies: a log block it has written
is never one of the home blocks still to be read. -/
theorem writeLogFrom_eq_issue
    (area : Area) (tail : Nat) (blocks : List (BitVec 32)) (machine : Machine)
    (outside : Outside area blocks) (fits : tail + blocks.length < area.size) :
    writeLogFrom area tail blocks machine =
      machine.issue (logWrites area machine.bread tail blocks) := by
  induction blocks generalizing tail machine with
  | nil => rfl
  | cons block blocks ih =>
    simp only [length_cons] at fits
    rw [writeLogFrom, ih _ _ outside.tail (by omega), logWrites, Machine.issue]
    congr 1
    apply logWrites_congr
    intro other member
    rw [Machine.bread_bwrite, update_of_ne]
    intro equal
    apply outside.tail other member
    rw [equal]
    constructor <;> omega

/-- The loop of `install_trans` issues the log copies to their homes: a home
block it has written is never a log block still to be read. -/
theorem installTransFrom_eq_issue
    (area : Area) (tail : Nat) (blocks : List (BitVec 32)) (machine : Machine)
    (outside : Outside area blocks) (fits : tail + blocks.length < area.size) :
    installTransFrom area tail blocks machine =
      machine.issue (installWrites area machine.bread tail blocks) := by
  induction blocks generalizing tail machine with
  | nil => rfl
  | cons block blocks ih =>
    simp only [length_cons] at fits
    rw [installTransFrom, ih _ _ outside.tail (by omega),
      installWrites, Machine.issue]
    congr 1
    apply installWrites_congr
    intro index low high
    rw [Machine.bread_bwrite, update_of_ne]
    intro equal
    apply outside block (by simp)
    rw [← equal]
    constructor <;> omega

@[simp] theorem length_logWrites (area : Area) (view : Nat → Block) (tail : Nat)
    (blocks : List (BitVec 32)) :
    (logWrites area view tail blocks).length = blocks.length := by
  induction blocks generalizing tail with
  | nil => rfl
  | cons block blocks ih => simp [logWrites, ih]

@[simp] theorem length_installWrites (area : Area) (view : Nat → Block) (tail : Nat)
    (blocks : List (BitVec 32)) :
    (installWrites area view tail blocks).length = blocks.length := by
  induction blocks generalizing tail with
  | nil => rfl
  | cons block blocks ih => simp [installWrites, ih]

/-- Every log copy lies behind the header and inside the log area. -/
theorem mem_logWrites {view : Nat → Block} {tail : Nat} {write : Nat × Block}
    (member : write ∈ logWrites area view tail blocks) :
    area.start + tail < write.1 ∧ write.1 ≤ area.start + tail + blocks.length := by
  induction blocks generalizing tail with
  | nil => simp [logWrites] at member
  | cons block blocks ih =>
    simp only [logWrites, mem_cons] at member
    simp only [length_cons]
    rcases member with rfl | member
    · constructor <;> omega
    · have bounds := ih member
      omega

/-- After all log copies are written, copy `index` is that of block `index`. -/
theorem applyWrites_logWrites (area : Area) (disk : Disk) (view : Nat → Block) (tail : Nat)
    (blocks : List (BitVec 32)) (index : Nat) (inside : index < blocks.length) :
    applyWrites disk (logWrites area view tail blocks) (area.start + tail + index + 1) =
      view (blocks.getD index 0).toNat := by
  induction blocks generalizing disk tail index with
  | nil => simp at inside
  | cons block blocks ih =>
    rw [logWrites, applyWrites_cons]
    cases index with
    | zero =>
      rw [applyWrites_of_notMem]
      · simp
      · intro present
        obtain ⟨write, member, equal⟩ := mem_map.mp present
        have bounds := mem_logWrites member
        omega
    | succ index =>
      simp only [length_cons] at inside
      have step := ih (update disk (area.start + tail + 1) (view block.toNat))
        (tail + 1) index (by omega)
      rw [getD_cons_succ, ← step]
      congr 1
      omega

@[simp] theorem map_fst_installWrites (area : Area) (view : Nat → Block) (tail : Nat)
    (blocks : List (BitVec 32)) :
    (installWrites area view tail blocks).map Prod.fst = blocks.map BitVec.toNat := by
  induction blocks generalizing tail with
  | nil => rfl
  | cons block blocks ih => simp [installWrites, ih]

/-- When log copy `index` is the new contents of block `index`, installing
writes new contents only. -/
theorem mem_installWrites_eq {view fresh : Nat → Block} {tail : Nat} {write : Nat × Block}
    (copies : ∀ index < blocks.length, view (area.start + tail + index + 1) =
        fresh (blocks.getD index 0).toNat)
    (member : write ∈ installWrites area view tail blocks) : write.2 = fresh write.1 := by
  induction blocks generalizing tail with
  | nil => simp [installWrites] at member
  | cons block blocks ih =>
    simp only [installWrites, mem_cons] at member
    rcases member with rfl | member
    · simpa using copies 0 (by simp)
    · refine ih (fun index inside => ?_) member
      have step := copies (index + 1) (by simpa using inside)
      rw [getD_cons_succ] at step
      rw [← step]
      congr 1
      omega

/-! ## The header block -/

@[simp] theorem headerCount_headerBlock (old : Block) (blocks : List (BitVec 32))
    (short : blocks.length ≤ logsize) :
    headerCount (headerBlock old blocks) = blocks.length := by
  have outside : ¬(1 ≤ 0 ∧ 0 < 1 + blocks.length) := by omega
  have small : blocks.length ≤ 30 := short
  rw [headerCount, headerBlock, Block.word_setWords _ _ _ _ (by omega),
    if_neg outside, Block.word_setWord _ _ _ _ (by omega), if_pos rfl,
    BitVec.toInt_ofNat']
  apply Int.bmod_eq_of_le <;> omega

/-- `read_head` reads back what `write_head` wrote. -/
@[simp] theorem headerBlocks_headerBlock (old : Block) (blocks : List (BitVec 32))
    (short : blocks.length ≤ logsize) :
    headerBlocks (headerBlock old blocks) = blocks := by
  have small : blocks.length ≤ 30 := short
  rw [headerBlocks, headerCount_headerBlock old blocks short, Int.toNat_natCast]
  apply ext_getElem
  · simp
  · intro index low high
    simp only [length_map, length_range] at low
    have covered : 1 ≤ index + 1 ∧ index + 1 < 1 + blocks.length := by omega
    rw [getElem_map, getElem_range, headerBlock,
      Block.word_setWords _ _ _ _ (by omega), if_pos covered]
    simp [low]

theorem headerBlocks_of_count_zero {block : Block} (empty : headerCount block = 0) :
    headerBlocks block = [] := by
  simp [headerBlocks, empty]

end Xv6.Log
