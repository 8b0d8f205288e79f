import Xv6.Memory.PageTable
import Mathlib.Logic.Function.Basic

/-!
# Growing and shrinking user memory

`kalloc`, `kfree`, `mappages`, `allocuvm`, `deallocuvm` and `growproc`, on one
page directory.  Other processes allocate and free pages as well, so what the
calls of `kalloc` return is given: a page, or nothing.
-/

namespace Xv6.Memory

open Function Foundation.Program

/-- `KERNBASE`. -/
abbrev kernbase : Nat := 2147483648

/-- The pages below `KERNBASE`. -/
abbrev userPages : Nat := 524288

/-- What the functions work on. -/
structure Vm where
  pgdir : PageDir
  contents : Contents
  /-- What `kalloc` returns, call by call. -/
  supply : List (Option Frame)

/-- Code that works on user memory; it may panic. -/
abbrev VmM := StateT Vm (Except String)

/-- A page that `kalloc` gives out, between `end` and `PHYSTOP`. -/
def Ram (kend : Nat) (frame : Frame) : Prop :=
  kend ≤ frame.toNat ∧ frame.toNat < 0xE000

instance (kend : Nat) (frame : Frame) : Decidable (Ram kend frame) :=
  inferInstanceAs (Decidable (_ ∧ _))

/-- `memset` of a page. -/
def Vm.fill (vm : Vm) (frame : Frame) (byte : BitVec 8) : Vm :=
  { vm with contents := update vm.contents (direct frame) fun _ => byte }

/-- `kalloc`. -/
def kalloc : VmM (Option Frame) := do
  let vm ← get
  match vm.supply with
  | [] => return none
  | result :: supply =>
    set { vm with supply := supply }
    return result

/-- `kfree`; `kend` is the first page after the kernel. -/
def kfree (kend : Nat) (frame : Frame) : VmM Unit := do
  if ¬ Ram kend frame then throw "kfree"
  modify fun vm => vm.fill frame 1

/-- A page table without entries. -/
def PageDir.addTable (pgdir : PageDir) (va : Nat) : PageDir :=
  update pgdir (pdx va) (some fun _ => Pte.zero)

/-- Change the entry of an address. -/
def PageDir.set (pgdir : PageDir) (va : Nat) (pte : Pte) : PageDir :=
  update pgdir (pdx va)
    ((pgdir (pdx va)).map fun pgtab => update pgtab (ptx va) pte)

/-- `walkpgdir` with `alloc`: whether it returns an entry. -/
def walkpgdirAlloc (va : Nat) : VmM Bool := do
  match (← get).pgdir (pdx va) with
  | some _ => return true
  | none =>
    match ← kalloc with
    | none => return false
    | some pgtab =>
      modify fun vm =>
        { vm.fill pgtab 0 with pgdir := vm.pgdir.addTable va }
      return true

/-- The entry of an address is present. -/
def PageDir.present (pgdir : PageDir) (va : Nat) : Bool :=
  ((walkpgdir pgdir va).map Pte.present).getD false

/-- `mappages` of one page with `PTE_W|PTE_U`. -/
def mappages (va : Nat) (frame : Frame) : VmM Int := do
  if ← walkpgdirAlloc va then
    if (← get).pgdir.present va then throw "remap"
    modify fun vm =>
      { vm with pgdir := vm.pgdir.set va ⟨frame, true, true, true⟩ }
    return 0
  else return -1

/-- `PGROUNDUP`. -/
def pgroundup (sz : Nat) : Nat :=
  (sz + (pgsize - 1)) % addresses / pgsize * pgsize

/-- The loop of `deallocuvm`. -/
def deallocuvmLoop (kend oldsz : Nat) : Nat → Nat → VmM Unit
  | 0, _ => throw "no fuel"
  | fuel + 1, a =>
    if a < oldsz then do
      match walkpgdir (← get).pgdir a with
      | none =>
        let jump := ((pdx a + 1) * (nptentries * pgsize) + (addresses - pgsize)) % addresses
        deallocuvmLoop kend oldsz fuel ((jump + pgsize) % addresses)
      | some pte =>
        if pte.present then
          if pte.frame = 0 then throw "kfree"
          kfree kend pte.frame
          modify fun vm => { vm with pgdir := vm.pgdir.set a .zero }
        deallocuvmLoop kend oldsz fuel ((a + pgsize) % addresses)
    else return

/-- Enough rounds for every page. -/
abbrev rounds : Nat := 1048577

/-- `deallocuvm`. -/
def deallocuvm (kend oldsz newsz : Nat) : VmM Nat := do
  if oldsz ≤ newsz then return oldsz
  else
    deallocuvmLoop kend oldsz rounds (pgroundup newsz)
    return newsz

/-- The loop of `allocuvm`. -/
def allocuvmLoop (kend oldsz newsz : Nat) : Nat → Nat → VmM Nat
  | 0, _ => throw "no fuel"
  | fuel + 1, a =>
    if a < newsz then do
      match ← kalloc with
      | none =>
        discard (deallocuvm kend newsz oldsz)
        return 0
      | some mem =>
        modify fun vm => vm.fill mem 0
        if (← mappages a mem) < 0 then
          discard (deallocuvm kend newsz oldsz)
          kfree kend mem
          return 0
        else allocuvmLoop kend oldsz newsz fuel ((a + pgsize) % addresses)
    else return newsz

/-- `allocuvm`. -/
def allocuvm (kend oldsz newsz : Nat) : VmM Nat :=
  if kernbase ≤ newsz then return 0
  else if newsz < oldsz then return oldsz
  else allocuvmLoop kend oldsz newsz rounds (pgroundup oldsz)

/-- `growproc`: its result and `curproc->sz`. -/
def growproc (kend sz : Nat) (n : Int) : VmM (Int × Nat) := do
  let newsz := ((sz + n) % addresses).toNat
  if 0 < n then
    let size ← allocuvm kend sz newsz
    if size = 0 then return (-1, sz) else return (0, size)
  else if n < 0 then
    let size ← deallocuvm kend sz newsz
    if size = 0 then return (-1, sz) else return (0, size)
  else return (0, sz)

/-! ## Entries -/

/-- The entry of a page that is present. -/
def PageDir.entry (pgdir : PageDir) (page : Nat) : Option Pte :=
  (pgdir (page / nptentries)).bind fun pgtab =>
    if (pgtab (page % nptentries)).present = true then
      some (pgtab (page % nptentries))
    else none

section Entries

variable {pgdir : PageDir}

theorem pdx_page (page : Nat) : pdx (page * pgsize) = page / nptentries := by
  unfold pdx
  rw [Nat.mul_div_cancel _ (by decide)]

theorem ptx_page (page : Nat) : ptx (page * pgsize) = page % nptentries := by
  unfold ptx
  rw [Nat.mul_div_cancel _ (by decide)]

variable {page : Nat}

theorem entry_of_walk {pte : Pte} (found : walkpgdir pgdir (page * pgsize) = some pte) :
    pgdir.entry page = if pte.present = true then some pte else none := by
  unfold walkpgdir at found
  rw [pdx_page, ptx_page] at found
  obtain ⟨pgtab, table, rfl⟩ := Option.map_eq_some_iff.mp found
  unfold PageDir.entry
  rw [table]
  rfl

/-- Pages without a page table are not present. -/
theorem entry_of_walk_none {page other : Nat} (missing : walkpgdir pgdir (page * pgsize) = none)
    (table : other / nptentries = page / nptentries) : pgdir.entry other = none := by
  unfold walkpgdir at missing
  rw [pdx_page] at missing
  unfold PageDir.entry
  rw [table, Option.map_eq_none_iff.mp missing]
  rfl

theorem entry_addTable (missing : walkpgdir pgdir (page * pgsize) = none) (other : Nat) :
    (pgdir.addTable (page * pgsize)).entry other = pgdir.entry other := by
  by_cases table : other / nptentries = page / nptentries
  · rw [entry_of_walk_none missing table]
    unfold PageDir.entry PageDir.addTable
    rw [pdx_page, table, update_self]
    rfl
  · unfold PageDir.entry PageDir.addTable
    rw [pdx_page, update_of_ne table]

theorem entry_set {old : Pte}
    (found : walkpgdir pgdir (page * pgsize) = some old) (pte : Pte) (other : Nat) :
    (pgdir.set (page * pgsize) pte).entry other =
      if other = page then if pte.present = true then some pte else none
      else pgdir.entry other := by
  unfold walkpgdir at found
  obtain ⟨pgtab, table, -⟩ := Option.map_eq_some_iff.mp found
  unfold PageDir.entry PageDir.set
  rw [pdx_page] at table
  rw [pdx_page, ptx_page, table]
  by_cases same : other / nptentries = page / nptentries
  · rw [same, update_self, table]
    simp only [Option.map_some, Option.bind_some]
    by_cases here : other = page
    · rw [if_pos here, here, update_self]
    · rw [if_neg here, update_of_ne]
      intro equal
      have := Nat.div_add_mod other nptentries
      have := Nat.div_add_mod page nptentries
      rw [same, equal] at *
      omega
  · rw [update_of_ne same, if_neg]
    rintro rfl
    exact same rfl

end Entries

end Xv6.Memory
