import Xv6.Fs.Sysfile
import Xv6.Memory.UserMemory

/-!
# Loading a program

`exec` as far as it uses the file system.  Whether memory is available is a
parameter; the page tables and the contents of pages are left out.
-/

namespace Xv6.Fs

open Xv6.Memory (pgsize kernbase)

/-- `sizeof(struct elfhdr)`. -/
abbrev elfhdrSize : Nat := 52

/-- `sizeof(struct proghdr)`. -/
abbrev proghdrSize : Nat := 32

/-- `ELF_MAGIC`. -/
abbrev elfMagic : Nat := 0x464C457F

/-- An unsigned little-endian number of `count` bytes. -/
def littleEndian (bytes : List Byte) (start : Nat) : Nat → Nat
  | 0 => 0
  | count + 1 => (bytes.getD start 0).toNat + 256 * littleEndian bytes (start + 1) count

/-- The fields of `struct elfhdr` that `exec` reads. -/
structure Elfhdr where
  magic : Nat
  phoff : Nat
  phnum : Nat

/-- Read a `struct elfhdr`. -/
def Elfhdr.ofBytes (bytes : List Byte) : Elfhdr where
  magic := littleEndian bytes 0 4
  phoff := littleEndian bytes 28 4
  phnum := littleEndian bytes 44 2

/-- The fields of `struct proghdr` that `exec` reads. -/
structure Proghdr where
  type : Nat
  off : Nat
  vaddr : Nat
  filesz : Nat
  memsz : Nat

/-- Read a `struct proghdr`. -/
def Proghdr.ofBytes (bytes : List Byte) : Proghdr where
  type := littleEndian bytes 0 4
  off := littleEndian bytes 4 4
  vaddr := littleEndian bytes 8 4
  filesz := littleEndian bytes 16 4
  memsz := littleEndian bytes 20 4

/-- Which requests for memory succeed during one `exec`. -/
structure Memory where
  setupkvm : Bool
  /-- The pages of each program header. -/
  segment : Nat → Bool
  /-- The stack and the arguments on it. -/
  stack : Bool

/-- `allocuvm`: the new size, or 0. -/
def allocuvm (available : Bool) (oldsz newsz : Nat) : Nat :=
  if kernbase ≤ newsz then 0
  else if newsz < oldsz then oldsz
  else if available then newsz
  else 0

/-- The loop of `loaduvm`, into pages that `allocuvm` has made; `left` is
`sz - i`. -/
def loaduvmLoop (ip : Slot) : Nat → Nat → Nat → KernelM Bool
  | 0, _, _ => return true
  | fuel + 1, offset, left => do
    if left = 0 then return true
    else
      let n := min left pgsize
      match ← readi ip (offset % 2 ^ 32) n with
      | none => return false
      | some bytes =>
        if bytes.length ≠ n then return false
        else loaduvmLoop ip fuel (offset + n) (left - n)

/-- `loaduvm`: whether it succeeds. -/
def loaduvm (ip : Slot) (offset sz : Nat) : KernelM Bool :=
  loaduvmLoop ip (sz / pgsize + 1) offset sz

/-- The loop of `exec` over the program headers; `left` is `phnum - i`.  It
returns whether all segments were loaded. -/
def execLoop (memory : Memory) (ip : Slot) : Nat → Nat → Nat → KernelM Bool
  | 0, _, _ => return true
  | left + 1, off, sz => do
    match ← readi ip (off % 2 ^ 32) proghdrSize with
    | none => return false
    | some bytes =>
      let ph := Proghdr.ofBytes bytes
      if bytes.length ≠ proghdrSize then return false
      else if ph.type ≠ 1 then
        execLoop memory ip left (off + proghdrSize) sz
      else if ph.memsz < ph.filesz then return false
      else if (ph.vaddr + ph.memsz) % 2 ^ 32 < ph.vaddr then return false
      else
        let newsz := allocuvm (memory.segment left) sz
          (ph.vaddr + ph.memsz)
        if newsz = 0 then return false
        else if ph.vaddr % pgsize ≠ 0 then return false
        else if ← loaduvm ip ph.off ph.filesz then
          execLoop memory ip left (off + proghdrSize) newsz
        else return false

/-- The part of `exec` that reads the file. -/
def execRead (memory : Memory) (ip : Slot) : KernelM Bool := do
  match ← readi ip 0 elfhdrSize with
  | none => return false
  | some bytes =>
    let elf := Elfhdr.ofBytes bytes
    if bytes.length ≠ elfhdrSize then return false
    else if elf.magic ≠ elfMagic then return false
    else if !memory.setupkvm then return false
    else execLoop memory ip elf.phnum elf.phoff 0

/-- `exec`. -/
def exec (memory : Memory) (path : List Byte) : KernelM Int := do
  onStore beginOp
  match ← namei path with
  | none =>
    onStore endOp
    return -1
  | some ip =>
    ilock ip
    let loaded ← execRead memory ip
    iunlockput ip
    onStore endOp
    return if loaded && memory.stack then 0 else -1

end Xv6.Fs
