import Xv6.Foundation.BitField

/-!
# Disk blocks

A block is the `BSIZE` bytes of one disk sector.  It is kept as one bit vector
whose low bits are byte zero, which is how the little-endian machine sees it:
an `int` at word index `i`, a byte at index `i` and bit `i` of the block are
all fields of the same vector.
-/

namespace Xv6

open Foundation.BitField

/-- `BSIZE`, the bytes of a block. -/
abbrev bsize : Nat := 512

/-- An unsigned byte. -/
abbrev Byte := BitVec 8

/-- The contents of one block, `8 * BSIZE` bits. -/
abbrev Block := BitVec 4096

namespace Block

/-- The 32-bit word at word index `index`. -/
def word (block : Block) (index : Nat) : BitVec 32 :=
  cell 32 block index

/-- Replace the 32-bit word at word index `index`. -/
def setWord (block : Block) (index : Nat) (value : BitVec 32) : Block :=
  setCell block index value

/-- The byte at byte index `index`. -/
def byte (block : Block) (index : Nat) : Byte :=
  cell 8 block index

theorem word_setWord (block : Block) (index other : Nat) (value : BitVec 32) (fits : index < 128) :
    (block.setWord index value).word other =
      if other = index then value else block.word other :=
  cell_setCell block index other value (by omega)

@[simp] theorem word_zero (index : Nat) : word (0#4096) index = 0#32 :=
  cell_zero 32 index

/-- Store consecutive words from word index `index` on. -/
def setWords (block : Block) (index : Nat) (values : List (BitVec 32)) : Block :=
  setCells block index values

/-- The `count` bytes from byte `offset` on. -/
def bytes (block : Block) (offset count : Nat) : List Byte :=
  (List.range' offset count).map block.byte

/-- Store consecutive bytes from byte `offset` on. -/
def setBytes (block : Block) (offset : Nat) (values : List Byte) : Block :=
  setCells block offset values

/-- Stored words are read back, and words outside the range are kept. -/
theorem word_setWords (block : Block) (index : Nat) (values : List (BitVec 32)) (other : Nat)
    (fits : index + values.length ≤ 128) :
    (block.setWords index values).word other =
      if index ≤ other ∧ other < index + values.length then
        values.getD (other - index) 0
      else block.word other :=
  cell_setCells block index values other (by omega)

/-- Stored bytes are read back, and bytes outside the range are kept. -/
theorem byte_setBytes (block : Block) (offset : Nat) (values : List Byte) (other : Nat)
    (fits : offset + values.length ≤ 512) :
    (block.setBytes offset values).byte other =
      if offset ≤ other ∧ other < offset + values.length then
        values.getD (other - offset) 0
      else block.byte other :=
  cell_setCells block offset values other (by omega)

end Block
end Xv6
