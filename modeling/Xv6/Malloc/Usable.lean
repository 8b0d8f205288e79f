import Xv6.Malloc.FreeBlocks
import Xv6.Foundation.Transition

/-!
# `malloc` returns usable memory, unless it is asked for too much

In every run in which no call of `malloc` asks for more than 0x7FFFFFF0 bytes,
`malloc` returns 0 or memory that is the caller's own.  For more bytes, the
computation of the size overflows, or the argument of `sbrk` is negative.
-/

namespace Xv6.Malloc

open Function Foundation.Program Foundation.FreeList Foundation.Transition
open Memory (addresses kernbase)

/-- `malloc` returned a new block of the given size. -/
def Taken (base nunits : Nat) (heap : Heap) (used : Set Nat) (result : Nat) (next : Heap) : Prop :=
  ∃ a rest, result = a + unit ∧ a ∉ used ∧
    Arena base next rest (insert a used) ∧ next.size a = nunits ∧
    ∀ b ∈ used, next.size b = heap.size b

/-- `malloc` returned 0. -/
def Refused (base : Nat) (heap : Heap) (used : Set Nat) (result : Nat) (next : Heap) : Prop :=
  result = 0 ∧ ∃ rest, Arena base next rest used ∧ ∀ b ∈ used, next.size b = heap.size b

variable {heap : Heap}

section Malloc

variable {base nunits : Nat} {free used : Set Nat} {prevp p b fuel : Nat}

section

variable (arena : Arena base heap free used) (memberPrev : prevp ∈ free)
include arena memberPrev

theorem Arena.take_whole (inner : heap.ptr prevp ≠ base)
    (same : heap.size (heap.ptr prevp) = nunits) :
    Taken base nunits heap used (heap.ptr prevp + unit)
      { heap with
        ptr := update heap.ptr prevp (heap.ptr (heap.ptr prevp))
        freep := prevp } := by
  have member := arena.ring.next_mem prevp memberPrev
  have order := arena.ring.lt_next memberPrev inner
  have unused := arena.disjoint _ member
  refine ⟨heap.ptr prevp, free \ {heap.ptr prevp}, rfl, unused, ?_, same, fun _ _ => rfl⟩
  exact
    { base_pos := arena.base_pos
      small := arena.small
      base_le := arena.base_le
      base_size := arena.base_size
      ring := by
        refine arena.ring.remove memberPrev inner ?_ fun a _ here _ => ?_
        · exact update_self ..
        · exact update_of_ne here _ _
      freep_mem := ⟨memberPrev, fun same => Nat.ne_of_lt order same⟩
      extents := by
        have whole : blocks base (free \ {heap.ptr prevp})
            (insert (heap.ptr prevp) used) = blocks base free used := by
          ext a
          simp only [blocks, Set.mem_union, Set.mem_insert_iff, Set.mem_sdiff,
            Set.mem_singleton_iff]
          grind
        rw [whole]
        exact arena.extents
      disjoint := by
        intro a isFree isUsed
        rcases Set.mem_insert_iff.mp isUsed with rfl | isUsed
        · exact isFree.2 rfl
        · exact arena.disjoint a isFree.1 isUsed }

theorem Arena.take_end (member : p ∈ free) (notBase : p ≠ base)
    (some : 0 < nunits) (more : nunits < heap.size p) :
    Taken base nunits heap used (p + unit * (heap.size p - nunits) + unit)
      { heap with
        size := update (update heap.size p (heap.size p - nunits))
          (p + unit * (heap.size p - nunits)) nunits
        freep := prevp } := by
  have block : p ∈ blocks base free used := .inl ⟨member, notBase⟩
  have low := arena.extents.low_le p block
  have new : p + unit * (heap.size p - nunits) ∉ blocks base free used := by
    refine arena.extents.not_mem block ?_ ?_ <;> simp only [Heap.length, unit] <;> omega
  have notP : p ≠ p + unit * (heap.size p - nunits) := by
    simp only [unit]
    omega
  have elsewhere : ∀ c ∈ blocks base free used, c ≠ p →
      update (update heap.size p (heap.size p - nunits))
        (p + unit * (heap.size p - nunits)) nunits c = heap.size c := by
    intro c memberC here
    have notNew : c ≠ p + unit * (heap.size p - nunits) :=
      fun same => new (same ▸ memberC)
    rw [update_of_ne notNew, update_of_ne here]
  have unusedP := arena.disjoint p member
  refine ⟨p + unit * (heap.size p - nunits), free, rfl,
    fun isUsed => new (.inr isUsed), ?_, ?_, fun b isUsed => ?_⟩
  · exact
      { base_pos := arena.base_pos
        small := arena.small
        base_le := arena.base_le
        base_size := by
          dsimp only
          rw [update_of_ne, update_of_ne (Ne.symm notBase), arena.base_size]
          simp only [unit] at low ⊢
          omega
        ring := arena.ring
        freep_mem := memberPrev
        extents := by
          have parts : blocks base free (insert (p + unit * (heap.size p - nunits)) used) =
                insert (p + unit * (heap.size p - nunits)) (blocks base free used) := by
            unfold blocks
            rw [Set.union_insert]
          rw [parts]
          have sum : heap.length p = unit * (heap.size p - nunits) + unit * nunits := by
            rw [← Nat.mul_add, Nat.sub_add_cancel (Nat.le_of_lt more)]
          refine arena.extents.split block sum ?_ ?_ ?_ ?_
            fun c memberC here => ?_
          · simp only [unit]
            omega
          · simp only [unit]
            omega
          · simp only [Heap.length, update_of_ne notP, update_self]
          · simp only [Heap.length, update_self]
          · simp only [Heap.length, elsewhere c memberC here]
        disjoint := by
          intro a isFree isUsed
          rcases Set.mem_insert_iff.mp isUsed with rfl | isUsed
          · by_cases first : p + unit * (heap.size p - nunits) = base
            · simp only [unit] at low first
              omega
            · exact new (.inl ⟨isFree, first⟩)
          · exact arena.disjoint a isFree isUsed }
  · exact update_self ..
  · exact elsewhere b (.inr isUsed) fun same => unusedP (same ▸ isUsed)

theorem Arena.take (next : heap.ptr prevp = p) (some : 0 < nunits) (fits : nunits ≤ heap.size p) :
    wp (take nunits prevp p) (Taken base nunits heap used) Never heap := by
  subst next
  have member := arena.ring.next_mem prevp memberPrev
  have notBase : heap.ptr prevp ≠ base := by
    intro first
    rw [first, arena.base_size] at fits
    omega
  have block : heap.ptr prevp ∈ blocks base free used := .inl ⟨member, notBase⟩
  have header := arena.header member
  have high := arena.extents.le_high _ block
  have small := arena.small
  unfold Malloc.take
  rw [wp_bind]
  refine header.loadSize ?_
  by_cases same : heap.size (heap.ptr prevp) = nunits
  · have result : plus (heap.ptr prevp) 1 = heap.ptr prevp + unit := by
      apply plus_eq
      simp only [Heap.length, unit, addresses, kernbase] at *
      omega
    rw [if_pos same, wp_bind]
    refine header.loadPtr ?_
    rw [wp_bind]
    refine (arena.header memberPrev).storePtr ?_
    rw [result]
    exact arena.take_whole memberPrev notBase same
  · have more : nunits < heap.size (heap.ptr prevp) := by omega
    have start : plus (heap.ptr prevp) (heap.size (heap.ptr prevp) - nunits) =
        heap.ptr prevp + unit * (heap.size (heap.ptr prevp) - nunits) := by
      apply plus_eq
      simp only [Heap.length, unit, addresses, kernbase] at *
      omega
    have result : plus (heap.ptr prevp + unit * (heap.size (heap.ptr prevp) - nunits)) 1 =
          heap.ptr prevp + unit * (heap.size (heap.ptr prevp) - nunits) + unit := by
      apply plus_eq
      simp only [Heap.length, unit, addresses, kernbase] at *
      omega
    have headerEnd : Header heap
        (heap.ptr prevp + unit * (heap.size (heap.ptr prevp) - nunits)) := by
      refine ⟨arena.small, ?_⟩
      simp only [Heap.length, unit] at *
      omega
    rw [if_neg same, wp_bind]
    refine header.storeSize ?_
    rw [start, wp_bind]
    refine Header.storeSize (headerEnd.transfer (by rfl)) ?_
    rw [result]
    exact arena.take_end memberPrev member notBase some more

/-- The loop of `malloc` when a block that is large enough is ahead. -/
theorem Arena.mallocLoop_found (next : heap.ptr prevp = p)
    (some : 0 < nunits) (memberB : b ∈ free) (fits : nunits ≤ heap.size b)
    (ahead : walk heap.sz heap.freep b ≤ walk heap.sz heap.freep p)
    (enough : walk heap.sz heap.freep p < fuel) :
    wp (mallocLoop nunits fuel prevp p) (Taken base nunits heap used) Never heap := by
  induction fuel generalizing prevp p with
  | zero => omega
  | succ fuel ih =>
    have member : p ∈ free := next ▸ arena.ring.next_mem prevp memberPrev
    have header := arena.header member
    unfold mallocLoop
    rw [wp_bind]
    refine header.loadSize ?_
    by_cases here : nunits ≤ heap.size p
    · rw [if_pos here]
      exact arena.take memberPrev next some here
    have other : p ≠ b := fun same => here (same ▸ fits)
    have notLast : p ≠ heap.freep := by
      intro last
      rw [last, walk_self] at ahead
      exact other (last.trans (eq_of_walk_le_zero ahead).symm)
    rw [if_neg here, wp_bind, wp_get, if_neg notLast, wp_bind]
    refine header.loadPtr ?_
    have further := arena.ring.walk_ahead member memberB arena.freep_mem other ahead arena.le_sz
    have closer := arena.ring.walk_next member arena.le_sz
      (arena.ring.base_le _ arena.freep_mem) notLast
      (arena.ring.after p member _ arena.freep_mem)
    exact ih member rfl further (by omega)

end

/-- `growproc` of a positive number that is not too large. -/
theorem growth_of_pos {sz n : Nat} (granted : Bool)
    (positive : 0 < n) (small : sz < kernbase) (bound : n < kernbase) :
    growth sz n granted = (-1, sz) ∨ growth sz n granted = (0, sz + n) ∧ sz + n < kernbase := by
  have wrapped : (((sz : Int) + n) % addresses).toNat = sz + n := by
    simp only [addresses, kernbase] at *
    omega
  have nonzero : (n : Int) ≠ 0 := by omega
  have resized : resize sz (sz + n) n granted = 0 ∨
      resize sz (sz + n) n granted = sz + n ∧ sz + n < kernbase := by
    unfold resize
    rw [if_pos (by omega)]
    by_cases high : kernbase ≤ sz + n
    · rw [if_pos high]
      exact .inl rfl
    · rw [if_neg high, if_neg (by omega)]
      cases granted with
      | false => exact .inl rfl
      | true => exact .inr ⟨rfl, Nat.lt_of_not_le high⟩
  rcases resized with none | ⟨all, below⟩
  · rw [growth_of_resize wrapped none, if_pos ⟨nonzero, rfl⟩]
    exact .inl rfl
  · rw [growth_of_resize wrapped all, if_neg (by omega)]
    exact .inr ⟨rfl, below⟩

/-- The arena after more memory was added as a block in use. -/
theorem Arena.extend (arena : Arena base heap free used) {nu : Nat} (some : 0 < nu)
    {grants : List Bool} (bound : heap.sz + unit * nu < kernbase) :
    Arena base
      { heap with
        sz := heap.sz + unit * nu
        grants := grants
        size := update heap.size heap.sz nu }
      free (insert heap.sz used) := by
  have outside : ∀ c ∈ blocks base free used, c ≠ heap.sz := by
    intro c member
    have below := (arena.header_of_block member).below
    simp only [unit] at below
    omega
  exact
    { base_pos := arena.base_pos
      small := bound
      base_le := Nat.le_trans arena.base_le (Nat.le_add_right ..)
      base_size := by
        have low := arena.base_le
        dsimp only
        rw [update_of_ne, arena.base_size]
        simp only [unit] at low
        omega
      ring := arena.ring
      freep_mem := arena.freep_mem
      extents := by
        have parts : blocks base free (insert heap.sz used) =
            insert heap.sz (blocks base free used) := by
          unfold blocks
          rw [Set.union_insert]
        rw [parts]
        refine arena.extents.extend arena.base_le ?_ ?_ fun c member => ?_
        · simp only [Heap.length, update_self, unit]
          omega
        · simp only [Heap.length, update_self]
          exact Nat.le_refl _
        · simp only [Heap.length, update_of_ne (outside c member)]
      disjoint := by
        intro a isFree isUsed
        rcases Set.mem_insert_iff.mp isUsed with rfl | isUsed
        · have below := (arena.header isFree).below
          simp only [unit] at below
          omega
        · exact arena.disjoint a isFree isUsed }

/-- `morecore` returns 0, or there is a free block that is large enough. -/
theorem Arena.morecore (arena : Arena base heap free used) (modest : unit * nunits < kernbase) :
    wp (morecore nunits) (fun result next => result = 0 ∧ Refused base heap used 0 next ∨
        ∃ rest, Arena base next rest used ∧ result = next.freep ∧
          (∀ a ∈ used, next.size a = heap.size a) ∧
          ∃ b ∈ rest, nunits ≤ next.size b)
      Never heap := by
  obtain ⟨nu, enlarged, enough, large, fits⟩ : ∃ nu,
      (if nunits < 4096 then 4096 else nunits) = nu ∧ nunits ≤ nu ∧ 0 < nu ∧
        unit * nu < kernbase := by
    refine ⟨_, rfl, ?_, ?_, ?_⟩ <;> split <;> simp only [unit, kernbase] at * <;> omega
  have argument : toInt (nu * unit % addresses) = ((unit * nu : Nat) : Int) := by
    unfold toInt
    rw [Nat.mul_comm nu, Nat.mod_eq_of_lt, if_pos fits]
    simp only [addresses, kernbase] at *
    omega
  unfold Malloc.morecore sbrk
  dsimp only
  rw [enlarged, argument, wp_bind, wp_bind, wp_get]
  rcases growth_of_pos (heap.grants.headD false)
    (by simp only [unit]; omega : 0 < unit * nu) arena.small fits
    with failed | ⟨grown, bound⟩
  · rw [failed, wp_bind, wp_set, if_pos (by decide : (-1 : Int) < 0)]
    refine .inl ⟨rfl, rfl, free, ?_, fun _ _ => rfl⟩
    exact { arena with }
  · rw [grown, wp_bind, wp_set, if_neg (by decide : ¬ (0 : Int) < 0), wp_pure]
    dsimp only
    have header : Header
        { heap with sz := heap.sz + unit * nu, grants := heap.grants.tail }
        heap.sz := by
      refine ⟨bound, ?_⟩
      simp only [unit]
      omega
    have start : plus heap.sz 1 = heap.sz + unit := by
      apply plus_eq
      simp only [unit, addresses, kernbase] at *
      omega
    have unused : heap.sz ∉ used := by
      intro isUsed
      have below := (arena.header_of_block (.inr isUsed)).below
      simp only [unit] at below
      omega
    have rest : insert heap.sz used \ {heap.sz} = used := by
      ext a
      simp only [Set.mem_sdiff, Set.mem_insert_iff, Set.mem_singleton_iff]
      grind
    rw [wp_bind]
    refine header.storeSize ?_
    rw [start]
    refine wp_bind_of ((arena.extend large bound).free_block (Set.mem_insert heap.sz used)) ?_
    rintro - next ⟨free', arena', unchanged, b, isFree, larger⟩
    rw [rest] at arena' unchanged
    refine .inr ⟨free', arena', rfl, fun a isUsed => ?_, b, isFree, ?_⟩
    · refine (unchanged.sizes a isUsed).trans (update_of_ne ?_ _ _)
      exact fun same => unused (same ▸ isUsed)
    · refine Nat.le_trans enough (Nat.le_trans (Nat.le_of_eq ?_) larger)
      exact (update_self heap.sz nu heap.size).symm

theorem Arena.mallocLoop (arena : Arena base heap free used) (modest : unit * nunits < kernbase)
    (memberPrev : prevp ∈ free) (next : heap.ptr prevp = p) (some : 0 < nunits)
    (enough : walk heap.sz heap.freep p + (2 * kernbase + 2) < fuel) :
    wp (Malloc.mallocLoop nunits fuel prevp p)
      (fun result next => Refused base heap used result next ∨
        Taken base nunits heap used result next)
      Never heap := by
  induction fuel generalizing prevp p with
  | zero => omega
  | succ fuel ih =>
    have member : p ∈ free := next ▸ arena.ring.next_mem prevp memberPrev
    have header := arena.header member
    unfold Malloc.mallocLoop
    rw [wp_bind]
    refine header.loadSize ?_
    by_cases here : nunits ≤ heap.size p
    · rw [if_pos here]
      exact wp_mono (arena.take memberPrev next some here) (fun _ _ => .inr) fun _ => id
    rw [if_neg here, wp_bind, wp_get]
    by_cases last : p = heap.freep
    · rw [if_pos last]
      refine wp_bind_of (arena.morecore modest) ?_
      rintro result grown (⟨rfl, refused⟩ | ⟨rest, arena', rfl, sizes, b, memberB, fits⟩)
      · exact .inl refused
      · have positive : grown.freep ≠ 0 := by
          have low := arena'.ring.base_le _ arena'.freep_mem
          have := arena'.base_pos
          omega
        rw [if_neg positive, wp_bind]
        refine (arena'.header arena'.freep_mem).loadPtr ?_
        have start := arena'.ring.walk_start arena'.freep_mem memberB arena'.le_sz
        have limit := walk_le grown.sz grown.freep (grown.ptr grown.freep)
        have below := arena'.le_sz _ arena'.freep_mem
        have small := arena'.small
        refine wp_mono (arena'.mallocLoop_found arena'.freep_mem rfl some
          memberB fits start (by omega)) ?_ fun _ => id
        rintro result final ⟨a, rest', rfl, unused, arena'', size, kept⟩
        exact .inr ⟨a, rest', rfl, unused, arena'', size,
          fun b isUsed => (kept b isUsed).trans (sizes b isUsed)⟩
    · rw [if_neg last, wp_bind]
      refine header.loadPtr ?_
      have closer := arena.ring.walk_next member arena.le_sz
        (arena.ring.base_le _ arena.freep_mem) last
        (arena.ring.after p member _ arena.freep_mem)
      exact ih member rfl (by omega)

theorem units_of_modest {nbytes : Nat} (modest : nbytes ≤ 0x7FFFFFF0) :
    0 < units nbytes ∧ unit * units nbytes < kernbase ∧ nbytes + unit ≤ unit * units nbytes := by
  unfold units
  simp only [unit, addresses, kernbase]
  omega

/-- Nothing was allocated yet. -/
structure Fresh (base : Nat) (heap : Heap) : Prop where
  base_pos : 0 < base
  small : heap.sz < kernbase
  base_le : base + unit ≤ heap.sz
  freep_eq : heap.freep = 0

/-- Before the first call there is no list yet. -/
def Ready (base : Nat) (heap : Heap) (used : Set Nat) : Prop :=
  Fresh base heap ∧ used = ∅ ∨ ∃ free, Arena base heap free used

theorem Fresh.startList (fresh : Fresh base heap) :
    wp (startList base) (fun _ next => Arena base next {base} ∅) Never heap := by
  have header : Header heap base := ⟨fresh.small, fresh.base_le⟩
  unfold Malloc.startList
  rw [wp_bind, wp_get, if_pos fresh.freep_eq, wp_bind]
  refine header.storePtr ?_
  rw [wp_bind, wp_modify]
  refine Header.storeSize (header.transfer (by rfl)) ?_
  exact
    { base_pos := fresh.base_pos
      small := fresh.small
      base_le := fresh.base_le
      base_size := update_self ..
      ring := Ring.singleton (update_self ..)
      freep_mem := Set.mem_singleton base
      extents := by
        have none : blocks base {base} ∅ = ∅ := by
          unfold blocks
          rw [Set.union_empty]
          ext a
          simp
        rw [none]
        exact Extents.empty
      disjoint := fun a _ => Set.notMem_empty a }

theorem Ready.startList (ready : Ready base heap used) : wp (startList base)
      (fun _ next => (∃ free, Arena base next free used) ∧ ∀ a ∈ used, next.size a = heap.size a)
      Never heap := by
  rcases ready with ⟨fresh, rfl⟩ | ⟨free, arena⟩
  · refine wp_mono fresh.startList ?_ fun _ => id
    intro _ next arena
    exact ⟨⟨{base}, arena⟩, fun a isUsed => isUsed.elim⟩
  · have low := arena.ring.base_le _ arena.freep_mem
    have positive := arena.base_pos
    unfold Malloc.startList
    rw [wp_bind, wp_get, if_neg (by omega : ¬ heap.freep = 0)]
    exact ⟨⟨free, arena⟩, fun _ _ => rfl⟩

theorem Ready.malloc (ready : Ready base heap used) {nbytes : Nat} (modest : nbytes ≤ 0x7FFFFFF0) :
    wp (malloc base nbytes) (fun result next => Refused base heap used result next ∨
        Taken base (units nbytes) heap used result next)
      Never heap := by
  obtain ⟨some, bound, -⟩ := units_of_modest modest
  unfold Malloc.malloc
  refine wp_bind_of ready.startList ?_
  rintro - started ⟨⟨free, arena⟩, sizes⟩
  have far : walk started.sz started.freep (started.ptr started.freep) +
      (2 * kernbase + 2) < rounds := by
    have limit := walk_le started.sz started.freep (started.ptr started.freep)
    have below := arena.le_sz _ arena.freep_mem
    have small := arena.small
    simp only [rounds, kernbase] at *
    omega
  rw [wp_bind, wp_get]
  dsimp only
  rw [wp_bind]
  refine (arena.header arena.freep_mem).loadPtr ?_
  refine wp_mono (arena.mallocLoop bound arena.freep_mem rfl some far) ?_
    fun _ => id
  rintro result next (⟨rfl, rest, arena', kept⟩ | ⟨a, rest, rfl, unused, arena', size, kept⟩)
  · exact .inl ⟨rfl, rest, arena', fun b isUsed => (kept b isUsed).trans (sizes b isUsed)⟩
  · exact .inr ⟨a, rest, rfl, unused, arena', size,
      fun b isUsed => (kept b isUsed).trans (sizes b isUsed)⟩

end Malloc

/-! ## Runs -/

/-- A process and the blocks that it has from `malloc`: pointers and how many
bytes it asked for. -/
structure Process where
  heap : Heap
  live : List (Nat × Nat)

/-- Calls of the allocator. -/
inductive Call where
  | malloc (nbytes : Nat)
  | free (ap : Nat)

/-- One call.  Only what `malloc` returned may be freed. -/
def step (base : Nat) (proc : Process) : Call → Option Process
  | .malloc nbytes =>
    match malloc base nbytes proc.heap with
    | .error _ => none
    | .ok (result, heap) =>
      if result = 0 then some { proc with heap := heap }
      else some ⟨heap, (result, nbytes) :: proc.live⟩
  | .free ap =>
    if ap ∈ proc.live.map Prod.fst then
      match free ap proc.heap with
      | .error _ => none
      | .ok (_, heap) => some ⟨heap, proc.live.filter fun block => block.1 ≠ ap⟩
    else none

/-- A call of `malloc` does not ask for too much. -/
def Call.Modest : Call → Prop
  | .malloc nbytes => nbytes ≤ 0x7FFFFFF0
  | .free _ => True

/-- The bytes that were asked for are memory of the process, in no other block,
and there is no header among them. -/
structure Usable (heap : Heap) (live : List (Nat × Nat)) (p nbytes : Nat) : Prop where
  inside : p + nbytes ≤ heap.sz
  apart : ∀ block ∈ live, p + nbytes ≤ block.1 ∨ block.1 + block.2 ≤ p
  live_header : ∀ block ∈ (p, nbytes) :: live, p + nbytes + unit ≤ block.1 ∨ block.1 ≤ p
  free_header : ∀ k, p + nbytes ≤ heap.ptr^[k] heap.freep ∨ heap.ptr^[k] heap.freep + unit ≤ p

/-- The blocks in use. -/
def used (live : List (Nat × Nat)) : Set Nat :=
  {a | ∃ nbytes, (a + unit, nbytes) ∈ live}

/-- The invariant of runs. -/
structure Sound (base : Nat) (proc : Process) : Prop where
  ready : Ready base proc.heap (used proc.live)
  header : ∀ block ∈ proc.live, unit ≤ block.1
  room : ∀ block ∈ proc.live, block.2 + unit ≤ unit * proc.heap.size (block.1 - unit)

section Runs

variable {base : Nat} {proc next : Process} {nbytes : Nat}

theorem Sound.used_of_mem (sound : Sound base proc) {block : Nat × Nat}
    (member : block ∈ proc.live) : block.1 - unit ∈ used proc.live := by
  refine ⟨block.2, ?_⟩
  rw [Nat.sub_add_cancel (sound.header block member)]
  exact member

/-- What comes from the list of free blocks is free. -/
theorem Arena.iterate_mem {free used : Set Nat} (arena : Arena base heap free used) (k : Nat) :
    heap.ptr^[k] heap.freep ∈ free := by
  induction k with
  | zero => exact arena.freep_mem
  | succ k ih =>
    rw [Function.iterate_succ_apply']
    exact arena.ring.next_mem _ ih

theorem Sound.usable (sound : Sound base proc) (modest : nbytes ≤ 0x7FFFFFF0) {p : Nat}
    (taken : Taken base (units nbytes) proc.heap (used proc.live) p heap) :
    Usable heap proc.live p nbytes := by
  obtain ⟨a, rest, rfl, unused, arena, size, sizes⟩ := taken
  obtain ⟨-, -, large⟩ := units_of_modest modest
  have block : a ∈ blocks base rest (insert a (used proc.live)) := .inr (Set.mem_insert a _)
  have low := arena.extents.low_le a block
  have high := arena.extents.le_high a block
  have apart : ∀ b ∈ blocks base rest (insert a (used proc.live)), b ≠ a →
      a + unit * units nbytes ≤ b ∨ b + heap.length b ≤ a := by
    intro b member differs
    rcases Nat.lt_or_gt_of_ne differs with below | above
    · exact .inr (arena.extents.apart b member a block below)
    · have := arena.extents.apart a block b member above
      rw [Heap.length, size] at this
      exact .inl this
  have others : ∀ block ∈ proc.live, a + unit * units nbytes + unit ≤ block.1 ∨
        block.1 + block.2 ≤ a := by
    intro other member
    have isUsed := sound.used_of_mem member
    have header := sound.header other member
    have room := sound.room other member
    rw [← sizes _ isUsed] at room
    have differs : other.1 - unit ≠ a := fun same => unused (same ▸ isUsed)
    rcases apart _ (.inr (Set.mem_insert_of_mem a isUsed)) differs with before | after
    · omega
    · rw [Heap.length] at after
      omega
  rw [Heap.length, size] at high
  refine ⟨by omega, fun other member => ?_, fun other member => ?_,
    fun k => ?_⟩
  · have := others other member
    omega
  · rcases List.mem_cons.mp member with rfl | member
    · exact .inr (Nat.le_refl _)
    · have := others other member
      omega
  · have isFree := arena.iterate_mem k
    by_cases first : heap.ptr^[k] heap.freep = base
    · omega
    · have differs : heap.ptr^[k] heap.freep ≠ a := fun same =>
        arena.disjoint a (same ▸ isFree) (Set.mem_insert a _)
      have member : heap.ptr^[k] heap.freep ∈ blocks base rest (insert a (used proc.live)) :=
        .inl ⟨isFree, first⟩
      have positive := arena.extents.pos _ member
      rcases apart _ member differs with before | after
      · omega
      · simp only [Heap.length, unit] at *
        omega

theorem used_cons (a : Nat) (live : List (Nat × Nat)) :
    used ((a + unit, nbytes) :: live) = insert a (used live) := by
  ext b
  simp only [used, Set.mem_ofPred_eq, List.mem_cons, Prod.mk.injEq, Set.mem_insert_iff]
  constructor
  · rintro ⟨m, ⟨same, -⟩ | member⟩
    · exact .inl (by omega)
    · exact .inr ⟨m, member⟩
  · rintro (rfl | ⟨m, member⟩)
    · exact ⟨nbytes, .inl ⟨rfl, rfl⟩⟩
    · exact ⟨m, .inr member⟩

theorem used_filter (a : Nat) (live : List (Nat × Nat)) :
    used (live.filter fun block => block.1 ≠ a + unit) = used live \ {a} := by
  ext b
  simp only [used, Set.mem_ofPred_eq, List.mem_filter, Set.mem_sdiff,
    Set.mem_singleton_iff, decide_eq_true_eq]
  constructor
  · rintro ⟨m, member, differs⟩
    exact ⟨⟨m, member⟩, by omega⟩
  · rintro ⟨⟨m, member⟩, differs⟩
    exact ⟨m, member, by omega⟩

theorem Sound.malloc (sound : Sound base proc) (modest : nbytes ≤ 0x7FFFFFF0)
    (taken : step base proc (.malloc nbytes) = some next) : Sound base next := by
  obtain ⟨result, heap, returned, outcome⟩ := ok_of_wp (sound.ready.malloc modest) fun _ => id
  simp only [step, returned] at taken
  rcases outcome with ⟨rfl, rest, arena, sizes⟩ |
    ⟨a, rest, rfl, unused, arena, size, sizes⟩
  · rw [if_pos rfl] at taken
    cases taken
    refine ⟨.inr ⟨rest, arena⟩, sound.header, fun block member => ?_⟩
    have room := sound.room block member
    rw [← sizes _ (sound.used_of_mem member)] at room
    exact room
  · rw [if_neg (by simp only [unit]; omega)] at taken
    cases taken
    obtain ⟨-, -, large⟩ := units_of_modest modest
    refine ⟨.inr ⟨rest, ?_⟩, fun block member => ?_, fun block member => ?_⟩
    · rw [used_cons]
      exact arena
    · rcases List.mem_cons.mp member with rfl | member
      · exact Nat.le_add_left ..
      · exact sound.header block member
    · rcases List.mem_cons.mp member with rfl | member
      · rw [Nat.add_sub_cancel, size]
        exact large
      · have room := sound.room block member
        rw [← sizes _ (sound.used_of_mem member)] at room
        exact room

theorem Sound.free_returns (sound : Sound base proc) {block : Nat × Nat}
    (member : block ∈ proc.live) :
    wp (Malloc.free block.1) (fun _ heap => Sound base
        ⟨heap, proc.live.filter fun other => other.1 ≠ block.1⟩)
      Never proc.heap := by
  have isUsed := sound.used_of_mem member
  have pointer := Nat.sub_add_cancel (sound.header block member)
  rcases sound.ready with ⟨-, none⟩ | ⟨free, arena⟩
  · rw [none] at isUsed
    exact isUsed.elim
  have freed := arena.free_block isUsed
  have rest := used_filter (block.1 - unit) proc.live
  rw [pointer] at freed rest
  refine wp_mono freed ?_ fun _ => id
  rintro - heap ⟨free', arena', unchanged, -⟩
  rw [← rest] at arena' unchanged
  refine ⟨.inr ⟨free', arena'⟩, fun other kept => ?_, fun other kept => ?_⟩
  · exact sound.header other (List.mem_of_mem_filter kept)
  · have was := List.mem_of_mem_filter kept
    have room := sound.room other was
    have still : other.1 - unit ∈ used (proc.live.filter fun other => other.1 ≠ block.1) := by
      refine ⟨other.2, ?_⟩
      rw [Nat.sub_add_cancel (sound.header other was)]
      exact kept
    rw [← unchanged.sizes _ still] at room
    exact room

theorem Sound.step (sound : Sound base proc) {call : Call} (modest : call.Modest)
    (taken : Malloc.step base proc call = some next) : Sound base next := by
  cases call with
  | malloc nbytes => exact sound.malloc modest taken
  | free ap =>
    simp only [Malloc.step] at taken
    split at taken
    case isTrue isLive =>
      obtain ⟨block, member, rfl⟩ := List.mem_map.mp isLive
      obtain ⟨_, heap, returned, after⟩ := ok_of_wp (sound.free_returns member) fun _ => id
      rw [returned] at taken
      cases taken
      exact after
    case isFalse => cases taken

/-- After every run in which `malloc` was not asked for too much, it returns 0
or usable memory when it is not asked for too much, and `free` returns. -/
theorem malloc_usable_of_run {start : Process} {calls : List Call}
    (fresh : Fresh base start.heap) (none : start.live = []) (modest : ∀ call ∈ calls, call.Modest)
    (ended : run (Malloc.step base) start calls = some proc) :
    (∀ nbytes ≤ 0x7FFFFFF0, ∃ p heap, Malloc.malloc base nbytes proc.heap = .ok (p, heap) ∧
          (p = 0 ∨ Usable heap proc.live p nbytes)) ∧
      ∀ block ∈ proc.live, ∃ heap, Malloc.free block.1 proc.heap = .ok ((), heap) := by
  have initially : Sound base start := by
    refine ⟨.inl ⟨fresh, ?_⟩, fun block member => ?_, fun block member => ?_⟩
    · rw [none]
      ext a
      simp [used]
    · rw [none] at member
      cases member
    · rw [none] at member
      cases member
  have sound : Sound base proc :=
    run_invariant_along (Sound base)
      (fun _ _ _ sound modest taken => sound.step modest taken) initially
      (Along.of_mem (fun call member _ => modest call member) start) ended
  constructor
  · intro nbytes modest
    obtain ⟨p, heap, returned, outcome⟩ := ok_of_wp (sound.ready.malloc modest) fun _ => id
    refine ⟨p, heap, returned, ?_⟩
    rcases outcome with refused | taken
    · exact .inl refused.1
    · exact .inr (sound.usable modest taken)
  · intro block member
    obtain ⟨_, heap, returned, -⟩ := ok_of_wp (sound.free_returns member) fun _ => id
    exact ⟨heap, returned⟩

/-- A process before its first allocation, with 16 KB. -/
def newProcess : Process where
  heap :=
    { ptr := fun _ => 0
      size := fun _ => 0
      freep := 0
      sz := 0x4000
      grants := [true, true] }
  live := []

theorem newProcess_fresh : Fresh 0x1000 newProcess.heap where
  base_pos := by decide
  small := by decide
  base_le := by decide
  freep_eq := rfl

theorem malloc_usable_newProcess : ∃ proc, run (Malloc.step 0x1000) newProcess [.malloc 40000] =
        some proc ∧
      ∃ p heap, Malloc.malloc 0x1000 100 proc.heap = .ok (p, heap) ∧
        (p = 0 ∨ Usable heap proc.live p 100) := by
  have completes : (run (Malloc.step 0x1000) newProcess [.malloc 40000]).isSome = true := by
    decide +kernel
  obtain ⟨proc, ended⟩ := Option.isSome_iff_exists.mp completes
  have modest : ∀ call ∈ [Call.malloc 40000], call.Modest := by
    intro call member
    rw [List.mem_singleton.mp member]
    exact (by decide : 40000 ≤ 0x7FFFFFF0)
  exact ⟨proc, ended, (malloc_usable_of_run newProcess_fresh rfl modest ended).1 100 (by decide)⟩

/-- What `malloc` returns is not inside memory. -/
theorem unusable_of_result {live : List (Nat × Nat)} {p sz : Nat}
    (result : (Malloc.malloc base nbytes heap).toOption.map
      (fun returned => (returned.1, returned.2.sz)) = some (p, sz))
    (outside : sz < p + nbytes) :
    ∃ heap', Malloc.malloc base nbytes heap = .ok (p, heap') ∧ ¬ Usable heap' live p nbytes := by
  cases returned : Malloc.malloc base nbytes heap with
  | error stop =>
    rw [returned] at result
    cases result
  | ok pair =>
    rw [returned] at result
    cases result
    exact ⟨pair.2, rfl, fun usable =>
      Nat.not_lt_of_le usable.inside outside⟩

/-- After a block of 40000 bytes the memory does not end at the end of a page.
For 0x80000000 bytes the argument of `sbrk` is negative and the memory stays as
it is, for 0xFFFFFFFF bytes the size in units is 1: `malloc` returns memory that
the process does not have. -/
theorem malloc_unusable_newProcess :
    (∃ proc heap, run (Malloc.step 0x1000) newProcess [.malloc 40000] = some proc ∧
      Malloc.malloc 0x1000 0x80000000 proc.heap = .ok (56400, heap) ∧
      ¬ Usable heap proc.live 56400 0x80000000) ∧
    ∃ heap, Malloc.malloc 0x1000 0xFFFFFFFF newProcess.heap = .ok (49152, heap) ∧
      ¬ Usable heap newProcess.live 49152 0xFFFFFFFF := by
  constructor
  · have seen : ((run (Malloc.step 0x1000) newProcess [.malloc 40000]).bind fun proc =>
          (Malloc.malloc 0x1000 0x80000000 proc.heap).toOption.map
            fun returned => (returned.1, returned.2.sz)) =
        some (56400, 56392) := by
      decide +kernel
    obtain ⟨proc, ended, result⟩ := Option.bind_eq_some_iff.mp seen
    obtain ⟨heap, returned, unusable⟩ := unusable_of_result result (by decide)
    exact ⟨proc, heap, ended, returned, unusable⟩
  · exact unusable_of_result (by decide +kernel :
      (Malloc.malloc 0x1000 0xFFFFFFFF newProcess.heap).toOption.map
        (fun returned => (returned.1, returned.2.sz)) = some (49152, 49152))
      (by decide)

end Runs

end Xv6.Malloc
