import Xv6.Malloc.Allocator
import Xv6.Foundation.FreeList

/-!
# Free and used blocks

The invariant of the allocator: free blocks are linked in the order of their
addresses, and blocks do not overlap.  `free` and `malloc` keep it.
-/

namespace Xv6.Malloc

open Function Foundation.Program Foundation.FreeList
open Memory (addresses kernbase)

/-- The length of the block at an address. -/
abbrev Heap.length (heap : Heap) (a : Nat) : Nat :=
  unit * heap.size a

/-- The blocks, but for the empty one of `base`. -/
def blocks (base : Nat) (free used : Set Nat) : Set Nat :=
  free \ {base} ∪ used

/-- The blocks of `free` are linked, those of `used` are in use. -/
structure Arena (base : Nat) (heap : Heap) (free used : Set Nat) : Prop where
  base_pos : 0 < base
  small : heap.sz < kernbase
  base_le : base + unit ≤ heap.sz
  base_size : heap.size base = 0
  ring : Ring base heap.ptr free
  freep_mem : heap.freep ∈ free
  extents : Extents (base + unit) heap.sz heap.length (blocks base free used)
  disjoint : ∀ a ∈ free, a ∉ used

variable {heap : Heap}

section Access

variable {p value : Nat} {stops : Stop → Prop}

theorem le_pgroundup {sz : Nat} (small : sz < kernbase) : sz ≤ Memory.pgroundup sz := by
  unfold Memory.pgroundup
  simp only [Memory.pgsize, Memory.addresses, Memory.kernbase] at *
  omega

/-- There is a header at the address. -/
structure Header (heap : Heap) (p : Nat) : Prop where
  small : heap.sz < kernbase
  below : p + unit ≤ heap.sz

theorem Header.transfer (header : Header heap p) {next : Heap} (same : next.sz = heap.sz) :
    Header next p :=
  ⟨same ▸ header.small, same ▸ header.below⟩

variable {post : Unit → Heap → Prop}

section

variable (header : Header heap p)
include header

theorem Header.access {address : Nat} (within : address ≤ p + 4)
    (after : post () heap) : wp (access address) post stops heap := by
  have mapped := le_pgroundup header.small
  have below := header.below
  unfold Malloc.access
  rw [wp_bind, wp_get, if_neg (by simp only [unit] at below; omega)]
  exact after

theorem Header.loadPtr {post : Nat → Heap → Prop}
    (after : post (heap.ptr p) heap) : wp (loadPtr p) post stops heap := by
  unfold Malloc.loadPtr
  rw [wp_bind]
  exact header.access (by omega) after

theorem Header.loadSize {post : Nat → Heap → Prop}
    (after : post (heap.size p) heap) : wp (loadSize p) post stops heap := by
  unfold Malloc.loadSize
  rw [wp_bind]
  exact header.access (Nat.le_refl _) after

theorem Header.storePtr (after : post () { heap with ptr := update heap.ptr p value }) :
    wp (storePtr p value) post stops heap := by
  unfold Malloc.storePtr
  rw [wp_bind]
  exact header.access (by omega) after

theorem Header.storeSize (after : post () { heap with size := update heap.size p value }) :
    wp (storeSize p value) post stops heap := by
  unfold Malloc.storeSize
  rw [wp_bind]
  exact header.access (Nat.le_refl _) after

end

theorem plus_eq {units : Nat} (within : p + unit * units < addresses) :
    plus p units = p + unit * units :=
  Nat.mod_eq_of_lt within

end Access

namespace Arena

variable {base : Nat} {free used : Set Nat} {a bp p : Nat}

section

variable (arena : Arena base heap free used)
include arena

theorem header_of_block (member : a ∈ blocks base free used) : Header heap a := by
  have pos := arena.extents.pos a member
  have high := arena.extents.le_high a member
  refine ⟨arena.small, ?_⟩
  simp only [Heap.length, unit] at *
  omega

theorem header (member : a ∈ free) : Header heap a := by
  by_cases first : a = base
  · exact ⟨arena.small, first ▸ arena.base_le⟩
  · exact arena.header_of_block (.inl ⟨member, first⟩)

theorem le_sz (a : Nat) (member : a ∈ free) : a ≤ heap.sz := by
  have below := (arena.header member).below
  omega

/-- Pointer arithmetic stays in memory. -/
theorem plus_size (member : a ∈ blocks base free used) :
    plus a (heap.size a) = a + heap.length a := by
  have high := arena.extents.le_high a member
  have small := arena.small
  apply plus_eq
  simp only [Heap.length, addresses, kernbase] at *
  omega

theorem lt_of_used (member : bp ∈ used) : base < bp := by
  have low := arena.extents.low_le bp (.inr member)
  simp only [unit] at low
  omega

/-- The loop of `free` finds the place of the block. -/
theorem freeLoop (taken : bp ∈ used)
    {fuel : Nat} (member : p ∈ free) (enough : walk heap.sz bp p < fuel) :
    wp (freeLoop bp fuel p) (fun p next => next = heap ∧ p ∈ free ∧ p < bp ∧
        (bp < heap.ptr p ∨ heap.ptr p ≤ p))
      Never heap := by
  induction fuel generalizing p with
  | zero => omega
  | succ fuel ih =>
    have above := arena.lt_of_used taken
    have apart : p ≠ bp := fun same =>
      arena.disjoint p member (same ▸ taken)
    have wraps := arena.ring.last p member
    unfold Malloc.freeLoop
    rw [wp_bind]
    refine (arena.header member).loadPtr ?_
    by_cases between : p < bp ∧ bp < heap.ptr p
    · rw [if_pos between]
      exact ⟨rfl, member, between.1, .inl between.2⟩
    by_cases last : heap.ptr p ≤ p ∧ (p < bp ∨ bp < heap.ptr p)
    · rw [if_neg between, if_pos last]
      refine ⟨rfl, member, ?_, .inr last.1⟩
      have := wraps last.1
      omega
    · rw [if_neg between, if_neg last]
      have memberNext := arena.ring.next_mem p member
      have other : heap.ptr p ≠ bp := fun same =>
        arena.disjoint _ memberNext (same ▸ taken)
      have closer := arena.ring.walk_next member arena.le_sz
        (Nat.le_of_lt above) apart (by omega)
      exact ih memberNext (by omega)

end

end Arena

/-- The block `bp` is neither free nor in use; its pointer is the one that `p`
is to have. -/
structure Detached (base : Nat) (heap : Heap) (free used : Set Nat) (bp p : Nat) : Prop where
  base_pos : 0 < base
  small : heap.sz < kernbase
  base_le : base + unit ≤ heap.sz
  base_size : heap.size base = 0
  ring : Ring base (Function.update heap.ptr p (heap.ptr bp)) free
  extents : Extents (base + unit) heap.sz heap.length (blocks base free (insert bp used))
  disjoint : ∀ a ∈ free, a ∉ used
  alone : bp ∉ free ∧ bp ∉ used
  member : p ∈ free
  above : p < bp
  gap : bp < heap.ptr bp ∨ heap.ptr bp ≤ p

/-- What `free` leaves as it is. -/
structure Unchanged (heap next : Heap) (used : Set Nat) : Prop where
  sz_eq : next.sz = heap.sz
  grants_eq : next.grants = heap.grants
  sizes : ∀ a ∈ used, next.size a = heap.size a

section Join

variable {base : Nat} {free used : Set Nat} {bp p : Nat}

theorem blocks_detach (taken : bp ∈ used) :
    blocks base free (insert bp (used \ {bp})) = blocks base free used := by
  ext a
  simp only [blocks, Set.mem_union, Set.mem_insert_iff, Set.mem_sdiff, Set.mem_singleton_iff]
  grind

theorem blocks_absorb {q : Nat} (taken : bp ∈ used) (free_q : q ∈ free) (differs : q ≠ bp)
    (disjoint : ∀ a ∈ free, a ∉ used) :
    blocks base (free \ {q}) (insert bp (used \ {bp})) = blocks base free used \ {q} := by
  have unused := disjoint q free_q
  ext a
  simp only [blocks, Set.mem_union, Set.mem_insert_iff, Set.mem_sdiff, Set.mem_singleton_iff]
  grind

theorem Arena.joinNext (arena : Arena base heap free used) (taken : bp ∈ used)
    (member : p ∈ free) (above : p < bp) (gap : bp < heap.ptr p ∨ heap.ptr p ≤ p) :
    wp (joinNext bp p) (fun _ next => ∃ rest, Detached base next rest (used \ {bp}) bp p ∧
          Unchanged heap next (used \ {bp}) ∧ next.freep = heap.freep ∧
          heap.size bp ≤ next.size bp)
      Never heap := by
  have memberNext := arena.ring.next_mem p member
  have block : bp ∈ blocks base free used := .inr taken
  have header := arena.header_of_block block
  have notFree : bp ∉ free := fun isFree => arena.disjoint bp isFree taken
  have low := arena.lt_of_used taken
  unfold Malloc.joinNext
  rw [wp_bind]
  refine (arena.header member).loadPtr ?_
  rw [wp_bind]
  refine header.loadSize ?_
  rw [arena.plus_size block]
  by_cases touch : bp + heap.length bp = heap.ptr p
  · rw [if_pos touch, wp_bind]
    have positive := arena.extents.pos bp block
    have inner : heap.ptr p ≠ base := by omega
    have blockNext : heap.ptr p ∈ blocks base free used := .inl ⟨memberNext, inner⟩
    have headerNext := arena.header memberNext
    have high := arena.extents.le_high _ blockNext
    have small := arena.small
    have sum : (heap.size bp + heap.size (heap.ptr p)) % addresses =
        heap.size bp + heap.size (heap.ptr p) := by
      apply Nat.mod_eq_of_lt
      simp only [Heap.length, unit, addresses, kernbase] at *
      omega
    refine headerNext.loadSize ?_
    rw [sum, wp_bind]
    refine header.storeSize ?_
    rw [wp_bind]
    refine Header.loadPtr (headerNext.transfer (by rfl)) ?_
    refine Header.storePtr (header.transfer (by rfl)) ?_
    have notBp : heap.ptr p ≠ bp := by omega
    refine ⟨free \ {heap.ptr p}, ?_, ⟨rfl, rfl, fun a ⟨_, notBp⟩ =>
      update_of_ne notBp _ _⟩, rfl, ?_⟩
    · have at_bp : (update heap.ptr bp (heap.ptr (heap.ptr p))) bp =
          heap.ptr (heap.ptr p) := update_self ..
      exact
        { base_pos := arena.base_pos
          small := arena.small
          base_le := arena.base_le
          base_size := by
            dsimp only
            rw [update_of_ne (Nat.ne_of_lt low), arena.base_size]
          ring := by
            refine arena.ring.remove member inner ?_ fun a isFree here _ => ?_
            · dsimp only
              rw [update_self, at_bp]
            · dsimp only
              rw [update_of_ne here, update_of_ne (fun same : a = bp => notFree (same ▸ isFree))]
          extents := by
            rw [blocks_absorb taken memberNext notBp arena.disjoint]
            refine arena.extents.merge block blockNext touch ?_
              fun a _ here _ => ?_
            · simp only [Heap.length, update_self, Nat.mul_add]
            · simp only [Heap.length, update_of_ne here]
          disjoint := fun a isFree isUsed =>
            arena.disjoint a isFree.1 isUsed.1
          alone := ⟨fun isFree => notFree isFree.1, fun isUsed => isUsed.2 rfl⟩
          member := ⟨member, fun same : p = heap.ptr p => by omega⟩
          above := above
          gap := by
            have wraps := arena.ring.last _ memberNext
            have low := arena.ring.base_le p member
            dsimp only
            rw [at_bp]
            omega }
    · dsimp only
      rw [update_self]
      exact Nat.le_add_right ..
  · rw [if_neg touch]
    refine header.storePtr ?_
    refine ⟨free, ?_, ⟨rfl, rfl, fun _ _ => rfl⟩, rfl, Nat.le_refl _⟩
    have at_bp : (update heap.ptr bp (heap.ptr p)) bp = heap.ptr p := update_self ..
    exact
      { base_pos := arena.base_pos
        small := arena.small
        base_le := arena.base_le
        base_size := arena.base_size
        ring := by
          refine arena.ring.congr fun a isFree => ?_
          dsimp only
          rw [at_bp]
          by_cases here : a = p
          · rw [here, update_self]
          · rw [update_of_ne here, update_of_ne (fun same : a = bp => notFree (same ▸ isFree))]
        extents := by
          rw [blocks_detach taken]
          exact arena.extents
        disjoint := fun a isFree isUsed => arena.disjoint a isFree isUsed.1
        alone := ⟨notFree, fun isUsed => isUsed.2 rfl⟩
        member := member
        above := above
        gap := by
          dsimp only
          rw [at_bp]
          exact gap }

theorem Detached.joinPrevious (detached : Detached base heap free used bp p) :
    wp (joinPrevious bp p) (fun _ next => ∃ rest, Arena base { next with freep := p } rest used ∧
          Unchanged heap next used ∧
          ∃ b ∈ rest, heap.size bp ≤ next.size b)
      Never heap := by
  obtain ⟨notFree, notUsed⟩ := detached.alone
  have above := detached.above
  have small := detached.small
  have low := detached.ring.base_le p detached.member
  have block : bp ∈ blocks base free (insert bp used) := .inr (Set.mem_insert bp used)
  have positive := detached.extents.pos bp block
  have high := detached.extents.le_high bp block
  have header : Header heap bp := by
    refine ⟨detached.small, ?_⟩
    simp only [Heap.length, unit] at *
    omega
  have headerP : Header heap p := by
    refine ⟨detached.small, ?_⟩
    have below := header.below
    omega
  have reach : plus p (heap.size p) = p + heap.length p := by
    apply plus_eq
    by_cases first : p = base
    · rw [first, detached.base_size]
      simp only [unit, addresses, kernbase] at *
      omega
    · have highP := detached.extents.le_high p (.inl ⟨detached.member, first⟩)
      simp only [Heap.length, addresses, kernbase] at *
      omega
  unfold Malloc.joinPrevious
  rw [wp_bind]
  refine headerP.loadSize ?_
  rw [reach]
  by_cases touch : p + heap.length p = bp
  · have notBase : p ≠ base := by
      intro first
      rw [first, Heap.length, detached.base_size] at touch
      omega
    have blockP : p ∈ blocks base free (insert bp used) := .inl ⟨detached.member, notBase⟩
    have sum : (heap.size p + heap.size bp) % addresses = heap.size p + heap.size bp := by
      apply Nat.mod_eq_of_lt
      simp only [Heap.length, unit, addresses, kernbase] at *
      omega
    have unusedP := detached.disjoint p detached.member
    rw [if_pos touch, wp_bind]
    refine header.loadSize ?_
    rw [sum, wp_bind]
    refine headerP.storeSize ?_
    rw [wp_bind]
    refine Header.loadPtr (header.transfer (by rfl)) ?_
    refine Header.storePtr (headerP.transfer (by rfl)) ?_
    refine ⟨free, ?_, ⟨rfl, rfl, fun a isUsed => ?_⟩, p, detached.member, ?_⟩
    · exact
        { base_pos := detached.base_pos
          small := detached.small
          base_le := detached.base_le
          base_size := by
            dsimp only
            rw [update_of_ne (Ne.symm notBase), detached.base_size]
          ring := detached.ring
          freep_mem := detached.member
          extents := by
            have rest : blocks base free used = blocks base free (insert bp used) \ {bp} := by
              ext a
              simp only [blocks, Set.mem_union, Set.mem_insert_iff,
                Set.mem_sdiff, Set.mem_singleton_iff]
              grind
            rw [rest]
            refine detached.extents.merge blockP block touch ?_
              fun a _ here _ => ?_
            · simp only [Heap.length, update_self, Nat.mul_add]
            · simp only [Heap.length, update_of_ne here]
          disjoint := detached.disjoint }
    · exact update_of_ne (fun same : a = p => unusedP (same ▸ isUsed)) _ _
    · dsimp only
      rw [update_self]
      exact Nat.le_add_left ..
  · rw [if_neg touch]
    refine headerP.storePtr ?_
    refine ⟨insert bp free, ?_, ⟨rfl, rfl, fun _ _ => rfl⟩, bp,
      Set.mem_insert bp free, Nat.le_refl _⟩
    have atP : update heap.ptr p (heap.ptr bp) p = heap.ptr bp := update_self ..
    exact
      { base_pos := detached.base_pos
        small := detached.small
        base_le := detached.base_le
        base_size := detached.base_size
        ring := by
          refine detached.ring.insert detached.member notFree above ?_ ?_ ?_
            fun a _ here => ?_
          · rw [atP]
            exact detached.gap
          · rw [atP]
            exact update_of_ne (Nat.ne_of_gt above) _ _
          · exact update_self ..
          · rw [update_of_ne here]
            exact update_of_ne here _ _
        freep_mem := Set.mem_insert_of_mem bp detached.member
        extents := by
          have rest : blocks base (insert bp free) used = blocks base free (insert bp used) := by
            have differs : bp ≠ base := by omega
            ext a
            simp only [blocks, Set.mem_union, Set.mem_insert_iff,
              Set.mem_sdiff, Set.mem_singleton_iff]
            grind
          rw [rest]
          exact detached.extents
        disjoint := by
          intro a isFree
          rcases Set.mem_insert_iff.mp isFree with rfl | isFree
          · exact notUsed
          · exact detached.disjoint a isFree }

theorem Arena.free_block (arena : Arena base heap free used) (taken : bp ∈ used) :
    wp (Malloc.free (bp + unit)) (fun _ next => ∃ rest, Arena base next rest (used \ {bp}) ∧
          Unchanged heap next (used \ {bp}) ∧
          ∃ b ∈ rest, heap.size bp ≤ next.size b)
      Never heap := by
  have small := arena.small
  have below := (arena.header_of_block (.inr taken)).below
  have back : (bp + unit + (addresses - unit)) % addresses = bp := by
    simp only [unit, addresses, kernbase] at *
    omega
  have far : walk heap.sz bp heap.freep < rounds := by
    have limit := walk_le heap.sz bp heap.freep
    simp only [unit, rounds, kernbase] at *
    omega
  unfold Malloc.free
  dsimp only
  rw [back, wp_bind, wp_get, wp_bind]
  refine wp_mono (arena.freeLoop taken arena.freep_mem far) ?_ fun _ => id
  rintro p next ⟨rfl, member, above, gap⟩
  refine wp_bind_of (arena.joinNext taken member above gap) ?_
  rintro - joined ⟨rest, detached, unchanged, -, larger⟩
  refine wp_bind_of detached.joinPrevious ?_
  rintro - last ⟨rest', arena', unchanged', b, isFree, large⟩
  refine ⟨rest', arena', ⟨?_, ?_, fun a isUsed => ?_⟩, b, isFree, Nat.le_trans larger large⟩
  · exact unchanged'.sz_eq.trans unchanged.sz_eq
  · exact unchanged'.grants_eq.trans unchanged.grants_eq
  · exact (unchanged'.sizes a isUsed).trans (unchanged.sizes a isUsed)

end Join

end Xv6.Malloc
