import Xv6.Memory.Growth

/-!
# The memory allocator of user programs

`malloc` and `free` of `umalloc.c` over `sbrk`.  A block is named by the address
of its header.  The headers are two functions of addresses; reading or writing
one outside the pages of the process is a fault.
-/

namespace Xv6.Malloc

open Memory (addresses kernbase)

/-- `sizeof(Header)`. -/
abbrev unit : Nat := 8

/-- The memory of a process, as far as the allocator uses it. -/
structure Heap where
  /-- `s.ptr` of the header at an address. -/
  ptr : Nat → Nat
  /-- `s.size` of the header at an address. -/
  size : Nat → Nat
  freep : Nat
  sz : Nat
  /-- Whether the kernel finds the memory for a call of `sbrk`. -/
  grants : List Bool

/-- How the allocator stops other than by returning. -/
inductive Stop where
  | fault
  | fuel
  deriving DecidableEq

/-- Code of the allocator. -/
abbrev HeapM := StateT Heap (Except Stop)

/-- A word is in the pages of the process. -/
def access (address : Nat) : HeapM Unit := do
  if Memory.pgroundup (← get).sz < address + 4 then throw .fault

/-- `p->s.ptr`. -/
def loadPtr (p : Nat) : HeapM Nat := do
  access p
  return (← get).ptr p

/-- `p->s.size`. -/
def loadSize (p : Nat) : HeapM Nat := do
  access (p + 4)
  return (← get).size p

/-- `p->s.ptr = value`. -/
def storePtr (p value : Nat) : HeapM Unit := do
  access p
  modify fun heap => { heap with ptr := Function.update heap.ptr p value }

/-- `p->s.size = value`. -/
def storeSize (p value : Nat) : HeapM Unit := do
  access (p + 4)
  modify fun heap => { heap with size := Function.update heap.size p value }

/-- `p + units`. -/
def plus (p units : Nat) : Nat :=
  (p + unit * units) % addresses

/-- A word as an `int`. -/
def toInt (word : Nat) : Int :=
  if word < kernbase then word else (word : Int) - addresses

/-- What `allocuvm` or `deallocuvm` returns to `growproc`. -/
def resize (sz newsz : Nat) (n : Int) (granted : Bool) : Nat :=
  if 0 < n then
    if kernbase ≤ newsz then 0
    else if newsz < sz then sz
    else if granted then newsz
    else 0
  else if n < 0 then
    if sz ≤ newsz then sz else newsz
  else sz

/-- The result of `growproc` and the new size. -/
def growth (sz : Nat) (n : Int) (granted : Bool) : Int × Nat :=
  let size := resize sz ((sz + n) % addresses).toNat n granted
  if n ≠ 0 ∧ size = 0 then (-1, sz) else (0, size)

/-- `sbrk`: the old size, unless it fails. -/
def sbrk (n : Int) : HeapM (Option Nat) := do
  let heap ← get
  let (result, size) := growth heap.sz n (heap.grants.headD false)
  set { heap with sz := size, grants := heap.grants.tail }
  if result < 0 then return none else return some heap.sz

/-- More rounds than there are addresses, for every loop. -/
abbrev rounds : Nat := 17179869184

/-- The loop of `free`. -/
def freeLoop (bp : Nat) : Nat → Nat → HeapM Nat
  | 0, _ => throw .fuel
  | fuel + 1, p => do
    let next ← loadPtr p
    if p < bp ∧ bp < next then return p
    else if next ≤ p ∧ (p < bp ∨ bp < next) then return p
    else freeLoop bp fuel next

/-- The first half of `free` after its loop: what comes after the block. -/
def joinNext (bp p : Nat) : HeapM Unit := do
  let next ← loadPtr p
  let size ← loadSize bp
  if plus bp size = next then
    storeSize bp ((size + (← loadSize next)) % addresses)
    storePtr bp (← loadPtr next)
  else storePtr bp next

/-- The second half: what comes before the block. -/
def joinPrevious (bp p : Nat) : HeapM Unit := do
  let size ← loadSize p
  if plus p size = bp then
    storeSize p ((size + (← loadSize bp)) % addresses)
    storePtr p (← loadPtr bp)
  else storePtr p bp

/-- `free`. -/
def free (ap : Nat) : HeapM Unit := do
  let bp := (ap + (addresses - unit)) % addresses
  let p ← freeLoop bp rounds (← get).freep
  joinNext bp p
  joinPrevious bp p
  modify fun heap => { heap with freep := p }

/-- `morecore`. -/
def morecore (nu : Nat) : HeapM Nat := do
  let nu := if nu < 4096 then 4096 else nu
  match ← sbrk (toInt (nu * unit % addresses)) with
  | none => return 0
  | some hp =>
    storeSize hp nu
    free (plus hp 1)
    return (← get).freep

/-- A block of the right size from the free block `p`, which comes after
`prevp`. -/
def take (nunits prevp p : Nat) : HeapM Nat := do
  let size ← loadSize p
  if size = nunits then
    storePtr prevp (← loadPtr p)
    modify fun heap => { heap with freep := prevp }
    return plus p 1
  else
    storeSize p (size - nunits)
    let q := plus p (size - nunits)
    storeSize q nunits
    modify fun heap => { heap with freep := prevp }
    return plus q 1

/-- The loop of `malloc`. -/
def mallocLoop (nunits : Nat) : Nat → Nat → Nat → HeapM Nat
  | 0, _, _ => throw .fuel
  | fuel + 1, prevp, p => do
    if nunits ≤ (← loadSize p) then take nunits prevp p
    else if p = (← get).freep then
      let p ← morecore nunits
      if p = 0 then return 0
      else mallocLoop nunits fuel p (← loadPtr p)
    else mallocLoop nunits fuel p (← loadPtr p)

/-- `nunits` of `malloc`. -/
def units (nbytes : Nat) : Nat :=
  (nbytes + unit - 1) % addresses / unit + 1

/-- The first `if` of `malloc`; `base` is the address of the variable of this
name. -/
def startList (base : Nat) : HeapM Unit := do
  if (← get).freep = 0 then
    storePtr base base
    modify fun heap => { heap with freep := base }
    storeSize base 0

/-- `malloc`. -/
def malloc (base nbytes : Nat) : HeapM Nat := do
  startList base
  let prevp := (← get).freep
  mallocLoop (units nbytes) rounds prevp (← loadPtr prevp)

/-! ## `sbrk` is the kernel's -/

theorem growth_of_resize {sz newsz size : Nat} {n : Int} {granted : Bool}
    (wrapped : ((sz + n) % addresses).toNat = newsz) (resized : resize sz newsz n granted = size) :
    growth sz n granted =
      if n ≠ 0 ∧ size = 0 then (-1, sz) else (0, size) := by
  unfold growth
  rw [wrapped, resized]

/-- The kernel's `growproc` returns what `growth` says, if it finds the memory
or if it does not. -/
theorem growproc_eq_growth {kend sz : Nat} {vm : Memory.Vm} {n : Int}
    (space : Memory.UserSpace kend vm sz) (lower : -kernbase ≤ n) (upper : n < kernbase) :
    ∃ granted next, Memory.growproc kend sz n vm = .ok (growth sz n granted, next) := by
  have small := space.small
  simp only [Memory.kernbase] at small lower upper
  rcases Int.lt_trichotomy n 0 with negative | rfl | positive
  · obtain ⟨newsz, wrapped⟩ : ∃ newsz, ((sz + n) % addresses).toNat = newsz := ⟨_, rfl⟩
    have resized : resize sz newsz n true =
        if sz ≤ newsz then sz else newsz := by
      unfold resize
      rw [if_neg (by omega), if_pos negative]
    by_cases rest : 0 ≤ sz + n
    · obtain ⟨size, next, sum, returned, -⟩ := space.deallocated negative rest
      obtain rfl : newsz = size := by
        simp only [addresses] at wrapped
        omega
      rw [if_neg (by omega)] at resized
      refine ⟨true, next, returned.trans ?_⟩
      rw [growth_of_resize wrapped resized]
      simp [Int.ne_of_lt negative]
    · have large : sz ≤ newsz := by
        simp only [addresses] at wrapped
        omega
      have kept : Memory.deallocuvm kend sz newsz vm = .ok (sz, vm) := by
        unfold Memory.deallocuvm
        rw [if_pos large]
        rfl
      rw [if_pos large] at resized
      refine ⟨true, vm, (Memory.growproc_of_negative negative wrapped kept).trans ?_⟩
      rw [growth_of_resize wrapped resized]
      simp [Int.ne_of_lt negative]
  · exact ⟨true, vm, rfl⟩
  · obtain ⟨result, size, next, returned, outcome⟩ := space.grows positive upper
    have wrapped : ((sz + n) % addresses).toNat = (sz + n).toNat := by
      simp only [addresses]
      omega
    have larger : ¬ (sz + n).toNat < sz := by omega
    rcases outcome with ⟨rfl, -, bound, sum, -⟩ | ⟨rfl, rfl, -⟩
    · have resized : resize sz (sz + n).toNat n true = size := by
        have within : ¬ kernbase ≤ (sz + n).toNat := by
          simp only [Memory.kernbase] at bound ⊢
          omega
        unfold resize
        rw [if_pos positive, if_neg within, if_neg larger, if_pos rfl]
        omega
      refine ⟨true, next, returned.trans ?_⟩
      rw [growth_of_resize wrapped resized, if_neg (by omega)]
    · have resized : resize size (size + n).toNat n false = 0 := by
        unfold resize
        rw [if_pos positive, if_neg larger, if_neg Bool.false_ne_true]
        exact ite_self 0
      refine ⟨false, next, returned.trans ?_⟩
      rw [growth_of_resize wrapped resized, if_pos ⟨by omega, rfl⟩]

theorem growproc_eq_growth_onePage : ∃ granted next,
    Memory.growproc 0x200 4096 (-4096) Memory.onePage = .ok (growth 4096 (-4096) granted, next) :=
  growproc_eq_growth Memory.onePage_space (by decide) (by decide)

end Xv6.Malloc
