import Xv6.Foundation.Program
import Mathlib.Data.List.GetD

/-!
# Page directories

Page directories and page tables of `vm.c`.  A page directory has a page table
for each of its entries that is present.  An address is a number below 2³²; its
upper twenty bits are the number of its page.
-/

namespace Xv6.Memory

/-- `PGSIZE`. -/
abbrev pgsize : Nat := 4096

/-- `NPTENTRIES`. -/
abbrev nptentries : Nat := 1024

/-- Addresses are below this number. -/
abbrev addresses : Nat := 4294967296

/-- A page of physical memory, or of the kernel's mapping of it. -/
abbrev Frame := BitVec 20

/-- A page table entry: `PTE_ADDR`, `PTE_P`, `PTE_W` and `PTE_U`. -/
structure Pte where
  frame : Frame
  present : Bool
  writable : Bool
  user : Bool
  deriving DecidableEq

/-- An entry that is not present. -/
def Pte.zero : Pte :=
  ⟨0, false, false, false⟩

/-- A page directory.  A table that is not present is `none`. -/
abbrev PageDir := Nat → Option (Nat → Pte)

/-- `PDX`. -/
def pdx (va : Nat) : Nat :=
  va / pgsize / nptentries

/-- `PTX`. -/
def ptx (va : Nat) : Nat :=
  va / pgsize % nptentries

/-- `walkpgdir` without `alloc`: the entry for an address, or a null
pointer. -/
def walkpgdir (pgdir : PageDir) (va : Nat) : Option Pte :=
  (pgdir (pdx va)).map fun pgtab => pgtab (ptx va)

/-- The page at which the kernel maps a page of physical memory. -/
@[irreducible] def direct (frame : Frame) : Frame :=
  frame + 0x80000

theorem direct_injective {frame other : Frame} (same : direct frame = direct other) :
    frame = other := by
  unfold direct at same
  bv_omega

/-- `P2V`, for pages; it panics on addresses above `KERNBASE`. -/
def p2v (frame : Frame) : Option Frame :=
  if 0x80000 < frame then none else some (direct frame)

/-- The contents of the pages of the kernel's address space. -/
abbrev Contents := Frame → Nat → BitVec 8

/-- Two addresses on one page have the same entry. -/
theorem walkpgdir_congr {pgdir : PageDir} {va va' : Nat} (page : va / pgsize = va' / pgsize) :
    walkpgdir pgdir va = walkpgdir pgdir va' := by
  unfold walkpgdir pdx ptx
  rw [page]

end Xv6.Memory
