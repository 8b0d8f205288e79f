import Xv6.Memory.UserMemory

/-!
# How exact `growproc` is

For a process whose user mappings are the pages below its size, `growproc` grows
and shrinks it as it should, except when it is asked to take away all of its
memory or more.
-/

namespace Xv6.Memory

open Foundation.Program

/-- The pages of memory that an address space of the given size needs. -/
def pagesOf (sz : Nat) : Nat :=
  (sz + (pgsize - 1)) / pgsize

theorem lt_pagesOf {page sz : Nat} : page < pagesOf sz ↔ page * pgsize < sz := by
  unfold pagesOf
  simp only [pgsize]
  omega

theorem pagesOf_le {sz : Nat} (small : sz ≤ kernbase) : pagesOf sz ≤ userPages := by
  unfold pagesOf
  simp only [pgsize, kernbase, userPages] at *
  omega

variable {page : Nat}

theorem next_page (within : page < userPages) :
    (page * pgsize + pgsize) % addresses = (page + 1) * pgsize := by
  simp only [pgsize, addresses, userPages] at *
  omega

theorem next_table (within : page < userPages) :
    (((pdx (page * pgsize) + 1) * (nptentries * pgsize) +
      (addresses - pgsize)) % addresses + pgsize) % addresses =
        (page / nptentries + 1) * nptentries * pgsize := by
  rw [pdx_page]
  simp only [pgsize, addresses, userPages, nptentries] at *
  omega

/-- The entry of a page that is present. -/
abbrev Vm.entry (vm : Vm) (page : Nat) : Option Pte :=
  vm.pgdir.entry page

theorem fill_of_ne {vm : Vm} {frame other : Frame} (byte : BitVec 8) (apart : other ≠ frame) :
    (vm.fill frame byte).contents (direct other) = vm.contents (direct other) := by
  have elsewhere : direct other ≠ direct frame :=
    fun same => apart (direct_injective same)
  unfold Vm.fill
  dsimp only
  rw [Function.update_of_ne elsewhere]

/-! ## Shrinking -/

/-- Pages have been taken from an address space. -/
structure Cleared (vm next : Vm) (lo hi : Nat) : Prop where
  entries : ∀ page, next.entry page =
    if lo ≤ page ∧ page < hi then none else vm.entry page
  contents : ∀ frame,
    (∀ page pte, lo ≤ page → page < hi → vm.entry page = some pte → pte.frame ≠ frame) →
    next.contents (direct frame) = vm.contents (direct frame)
  supply : next.supply = vm.supply

variable {kend : Nat} {vm next : Vm}

section Shrink

variable {lo hi : Nat}

theorem Cleared.refl (vm : Vm) (empty : hi ≤ lo) : Cleared vm vm lo hi where
  entries := by
    intro page
    rw [if_neg (by omega)]
  contents := fun _ _ => rfl
  supply := rfl

theorem Cleared.skip {later : Nat} (cleared : Cleared vm next later hi)
    (none : ∀ page, lo ≤ page → page < later → vm.entry page = none) (order : lo ≤ later) :
    Cleared vm next lo hi where
  entries := by
    intro page
    rw [cleared.entries page]
    by_cases skipped : lo ≤ page ∧ page < later
    · rw [if_neg (by omega), none page skipped.1 skipped.2]
      split <;> rfl
    · by_cases taken : later ≤ page ∧ page < hi
      · rw [if_pos taken, if_pos (by omega)]
      · rw [if_neg taken, if_neg (by omega)]
  contents := fun frame other => cleared.contents frame
    fun page pte low => other page pte (Nat.le_trans order low)
  supply := cleared.supply

/-- A page is freed, and then others. -/
theorem Cleared.cons {pte : Pte}
    (cleared : Cleared { vm.fill pte.frame 1 with
        pgdir := vm.pgdir.set (lo * pgsize) .zero } next (lo + 1) hi)
    (found : vm.entry lo = some pte)
    (inside : lo < hi)
    (entries : ∀ page, (vm.pgdir.set (lo * pgsize) .zero).entry page =
      if page = lo then none else vm.entry page) : Cleared vm next lo hi where
  entries := by
    intro page
    rw [cleared.entries page]
    change (if _ then _ else (vm.pgdir.set (lo * pgsize) .zero).entry page) = _
    rw [entries page]
    by_cases here : page = lo
    · rw [if_neg (by omega), if_pos here, if_pos (by omega)]
    · rw [if_neg here]
      by_cases taken : lo + 1 ≤ page ∧ page < hi
      · rw [if_pos taken, if_pos (by omega)]
      · rw [if_neg taken, if_neg (by omega)]
  contents := by
    intro frame other
    have apart := other lo pte (Nat.le_refl _) inside found
    rw [cleared.contents frame fun page entry low high there => ?_]
    · have kept := @fill_of_ne vm pte.frame frame 1 apart.symm
      rw [← kept]
    · refine other page entry (by omega) high ?_
      have same := entries page
      rw [if_neg (by omega)] at same
      exact same.symm.trans there
  supply := cleared.supply

theorem kfree_ram {frame : Frame} (ram : Ram kend frame) :
    wp (kfree kend frame) (fun _ next => next = vm.fill frame 1) Never vm := by
  unfold kfree
  dsimp only
  rw [if_neg (not_not.mpr ram)]
  rfl

theorem deallocuvmLoop_spec {fuel oldsz : Nat} (positive : 0 < kend)
    (small : oldsz ≤ kernbase) (page : Nat) (within : page ≤ userPages)
    (fueled : 0 < fuel) (enough : pagesOf oldsz < page + fuel)
    (ram : ∀ other pte, page ≤ other → other < pagesOf oldsz →
      vm.entry other = some pte → Ram kend pte.frame) :
    wp (deallocuvmLoop kend oldsz fuel (page * pgsize))
      (fun _ next => Cleared vm next page (pagesOf oldsz)) Never vm := by
  induction fuel generalizing page vm with
  | zero => exact absurd fueled (Nat.lt_irrefl 0)
  | succ fuel ih =>
    unfold deallocuvmLoop
    rw [wp_ite]
    refine ⟨fun below => ?_, fun above => ?_⟩
    · have inside := lt_pagesOf.mpr below
      have user := Nat.lt_of_lt_of_le inside (pagesOf_le small)
      rw [wp_bind, wp_get]
      cases found : walkpgdir vm.pgdir (page * pgsize) with
      | none =>
        have table : page < (page / nptentries + 1) * nptentries ∧
            (page / nptentries + 1) * nptentries ≤ userPages ∧
            ∀ other, page ≤ other → other < (page / nptentries + 1) * nptentries →
              other / nptentries = page / nptentries := by
          simp only [nptentries, userPages] at user ⊢
          refine ⟨by omega, by omega, fun other low high => ?_⟩
          omega
        dsimp only
        rw [next_table user]
        refine wp_mono (ih _ table.2.1 (by omega) (by omega) ?_) ?_
          fun _ => id
        · intro other pte low
          exact ram other pte (by omega)
        · intro _ final cleared
          refine cleared.skip (fun other low high => ?_) (by omega)
          exact entry_of_walk_none found (table.2.2 other low high)
      | some pte =>
        have entry := entry_of_walk found
        by_cases present : pte.present = true
        · rw [if_pos present] at entry
          have good := ram page pte (Nat.le_refl _) inside entry
          have nonzero : pte.frame ≠ 0 := by
            intro zero
            rw [zero] at good
            exact absurd positive (Nat.not_lt.mpr good.1)
          have entries : ∀ other, (vm.pgdir.set (page * pgsize) .zero).entry other =
                if other = page then none else vm.entry other :=
            entry_set found .zero
          dsimp only
          rw [if_pos present, if_neg nonzero, next_page user]
          refine wp_bind_of (kfree_ram good) ?_
          rintro _ freed rfl
          rw [wp_bind, wp_modify]
          refine wp_mono (ih (page + 1) user (by omega) (by omega) ?_) ?_ fun _ => id
          · intro other pte' low high there
            refine ram other pte' (by omega) high ?_
            have same := entries other
            rw [if_neg (by omega)] at same
            exact same.symm.trans there
          · intro _ final cleared
            exact cleared.cons entry inside entries
        · rw [if_neg present] at entry
          dsimp only
          rw [if_neg present, next_page user]
          refine wp_mono (ih _ user (by omega) (by omega) ?_) ?_
            fun _ => id
          · intro other pte' low
            exact ram other pte' (by omega)
          · intro _ final cleared
            refine cleared.skip (fun other low high => ?_) (by omega)
            obtain rfl : other = page := by omega
            exact entry
    · rw [wp_pure]
      exact .refl vm (Nat.le_of_not_lt fun less => above (lt_pagesOf.mp less))

theorem pgroundup_eq {sz : Nat} (small : sz ≤ kernbase) : pgroundup sz = pagesOf sz * pgsize := by
  unfold pgroundup pagesOf
  simp only [pgsize, kernbase, addresses] at *
  omega

theorem deallocuvm_spec {oldsz newsz : Nat} (positive : 0 < kend)
    (small : oldsz ≤ kernbase) (less : newsz < oldsz)
    (ram : ∀ page pte, page < userPages → vm.entry page = some pte → Ram kend pte.frame) :
    wp (deallocuvm kend oldsz newsz) (fun size next => size = newsz ∧
        Cleared vm next (pagesOf newsz) (pagesOf oldsz)) Never vm := by
  have newSmall := Nat.le_trans (Nat.le_of_lt less) small
  have top := pagesOf_le small
  unfold deallocuvm
  rw [if_neg (Nat.not_le.mpr less), pgroundup_eq newSmall]
  refine wp_bind_of (deallocuvmLoop_spec positive small (pagesOf newsz)
    (pagesOf_le newSmall) (by decide) ?_ ?_) fun _ next cleared => ⟨rfl, cleared⟩
  · simp only [rounds, userPages] at *
    omega
  · intro page pte _ high
    exact ram page pte (Nat.lt_of_lt_of_le high top)

end Shrink

/-! ## Growing -/

/-- The frame is that of a user page. -/
def InUse (vm : Vm) (frame : Frame) : Prop :=
  ∃ page < userPages, ∃ pte, vm.entry page = some pte ∧ pte.frame = frame

/-- User pages have pages of their own from `kalloc`, and `kalloc` does not give
out a page that is in use, or a page twice. -/
structure Sane (kend : Nat) (vm : Vm) : Prop where
  ram : ∀ page pte, page < userPages → vm.entry page = some pte → Ram kend pte.frame
  distinct : ∀ page pte other pte', page < userPages → other < userPages →
    vm.entry page = some pte → vm.entry other = some pte' →
    pte.frame = pte'.frame → page = other
  supplied : ∀ frame, some frame ∈ vm.supply → Ram kend frame
  unused : ∀ frame, some frame ∈ vm.supply → ¬ InUse vm frame
  once : (vm.supply.filterMap id).Nodup

/-- A page that `kalloc` has just given out. -/
structure Fresh (kend : Nat) (vm : Vm) (frame : Frame) : Prop where
  ram : Ram kend frame
  unused : ¬ InUse vm frame
  taken : some frame ∉ vm.supply

/-- A step that leaves the user pages alone. -/
structure Steady (kend : Nat) (vm next : Vm) : Prop where
  sane : Sane kend next
  entries : ∀ page, next.entry page = vm.entry page
  contents : ∀ frame, InUse vm frame → next.contents (direct frame) = vm.contents (direct frame)
  fresh : ∀ frame, Fresh kend vm frame → Fresh kend next frame

section Grow

variable {frame : Frame}

theorem inUse_congr (entries : ∀ page, next.entry page = vm.entry page) :
    InUse next frame ↔ InUse vm frame := by
  unfold InUse
  simp only [entries]

theorem Steady.refl (sane : Sane kend vm) : Steady kend vm vm :=
  ⟨sane, fun _ => rfl, fun _ _ => rfl, fun _ => id⟩

theorem Steady.trans {middle : Vm}
    (first : Steady kend vm middle) (second : Steady kend middle next) : Steady kend vm next where
  sane := second.sane
  entries := fun page => (second.entries page).trans (first.entries page)
  contents := fun frame used =>
    (second.contents frame ((inUse_congr first.entries).mpr used)).trans (first.contents frame used)
  fresh := fun frame fresh => second.fresh frame (first.fresh frame fresh)

/-- What matters of a state are its entries and what `kalloc` will return. -/
theorem Sane.congr (sane : Sane kend vm) (entries : ∀ page, next.entry page = vm.entry page)
    (supply : next.supply = vm.supply) : Sane kend next where
  ram := by
    intro page pte
    rw [entries]
    exact sane.ram page pte
  distinct := by
    intro page pte other pte'
    rw [entries, entries]
    exact sane.distinct page pte other pte'
  supplied := by
    rw [supply]
    exact sane.supplied
  unused := by
    intro frame
    rw [supply, inUse_congr entries]
    exact sane.unused frame
  once := by
    rw [supply]
    exact sane.once

theorem Fresh.congr (fresh : Fresh kend vm frame)
    (entries : ∀ page, next.entry page = vm.entry page) (supply : next.supply = vm.supply) :
    Fresh kend next frame :=
  ⟨fresh.ram, (inUse_congr entries).not.mpr fresh.unused, by rw [supply]; exact fresh.taken⟩

/-- A page that is not in use is overwritten. -/
theorem Steady.of_fill {byte : BitVec 8} {pgdir : PageDir} (sane : Sane kend vm)
    (unused : ¬ InUse vm frame) (entries : ∀ page, pgdir.entry page = vm.entry page) :
    Steady kend vm { vm.fill frame byte with pgdir := pgdir } where
  sane := sane.congr entries rfl
  entries := entries
  contents := by
    intro other used
    refine fill_of_ne byte ?_
    rintro rfl
    exact unused used
  fresh := fun _ fresh => fresh.congr entries rfl

theorem kalloc_spec (sane : Sane kend vm) : wp kalloc
      (fun result next => Steady kend vm next ∧ next.pgdir = vm.pgdir ∧
        ∀ frame, result = some frame → Fresh kend next frame)
      Never vm := by
  unfold kalloc
  rw [wp_bind, wp_get]
  cases supply : vm.supply with
  | nil => exact ⟨.refl sane, rfl, fun _ given => (by cases given)⟩
  | cons result rest =>
    have member : ∀ frame, some frame ∈ rest → some frame ∈ vm.supply := by
      intro frame later
      rw [supply]
      exact List.mem_cons_of_mem _ later
    have once := sane.once
    rw [supply, List.filterMap_cons] at once
    have rested : (rest.filterMap id).Nodup := by
      cases result with
      | none => exact once
      | some frame => exact (List.nodup_cons.mp once).2
    dsimp only
    rw [wp_bind, wp_set, wp_pure]
    refine ⟨⟨⟨sane.ram, sane.distinct, fun frame later => sane.supplied frame (member frame later),
      fun frame later => sane.unused frame (member frame later), rested⟩,
      fun _ => rfl, fun _ _ => rfl, fun frame fresh => ⟨fresh.ram,
        fresh.unused, fun later => fresh.taken (member frame later)⟩⟩, rfl,
      ?_⟩
    rintro frame rfl
    have here : some frame ∈ vm.supply := by
      rw [supply]
      exact List.mem_cons_self
    refine ⟨sane.supplied frame here, sane.unused frame here, fun later => ?_⟩
    refine (List.nodup_cons.mp once).1 ?_
    exact List.mem_filterMap.mpr ⟨some frame, later, rfl⟩

/-- `walkpgdir` adds a page table if there is none. -/
theorem walkpgdirAlloc_spec (sane : Sane kend vm) (page : Nat) : wp (walkpgdirAlloc (page * pgsize))
      (fun found next => Steady kend vm next ∧
        (found = true → ∃ pte, walkpgdir next.pgdir (page * pgsize) = some pte))
      Never vm := by
  unfold walkpgdirAlloc
  rw [wp_bind, wp_get]
  cases table : vm.pgdir (pdx (page * pgsize)) with
  | some pgtab =>
    refine ⟨.refl sane, fun _ => ⟨pgtab (ptx (page * pgsize)), ?_⟩⟩
    unfold walkpgdir
    rw [table]
    rfl
  | none =>
    refine wp_bind_of (kalloc_spec sane) ?_
    rintro result middle ⟨steady, same, given⟩
    cases result with
    | none => exact ⟨steady, fun found => (by cases found)⟩
    | some pgtab =>
      have fresh := given pgtab rfl
      have missing : walkpgdir middle.pgdir (page * pgsize) = none := by
        unfold walkpgdir
        rw [same, table]
        rfl
      have filled : Steady kend middle { middle.fill pgtab 0 with
          pgdir := middle.pgdir.addTable (page * pgsize) } :=
        .of_fill steady.sane fresh.unused (entry_addTable missing)
      refine ⟨steady.trans filled, fun _ => ⟨.zero, ?_⟩⟩
      change walkpgdir (middle.pgdir.addTable _) _ = _
      unfold walkpgdir PageDir.addTable
      rw [Function.update_self]
      rfl

/-- A user page has been added. -/
structure Added (kend : Nat) (vm next : Vm) (page : Nat) : Prop where
  sane : Sane kend next
  entries : ∀ other, other ≠ page → next.entry other = vm.entry other
  added : next.entry page ≠ none
  contents : ∀ frame, InUse vm frame → next.contents (direct frame) = vm.contents (direct frame)

/-- The entry of a new page. -/
theorem Added.of_set {old : Pte} (sane : Sane kend vm)
    (fresh : Fresh kend vm frame) (found : walkpgdir vm.pgdir (page * pgsize) = some old) :
    Added kend vm
      { vm with
        pgdir := vm.pgdir.set (page * pgsize) ⟨frame, true, true, true⟩ }
      page := by
  have entries : ∀ other, (vm.pgdir.set (page * pgsize) ⟨frame, true, true, true⟩).entry other =
        if other = page then some ⟨frame, true, true, true⟩
        else vm.entry other :=
    entry_set found _
  have cases : ∀ other pte, (vm.pgdir.set (page * pgsize) ⟨frame, true, true, true⟩).entry other =
        some pte →
      other = page ∧ pte.frame = frame ∨ other ≠ page ∧ vm.entry other = some pte := by
    intro other pte there
    rw [entries other] at there
    split at there
    case isTrue here =>
      cases there
      exact .inl ⟨here, rfl⟩
    case isFalse elsewhere => exact .inr ⟨elsewhere, there⟩
  refine ⟨⟨?_, ?_, sane.supplied, ?_, sane.once⟩, ?_, ?_, fun _ _ => rfl⟩
  · intro other pte user there
    rcases cases other pte there with ⟨-, new⟩ | ⟨-, was⟩
    · rw [new]
      exact fresh.ram
    · exact sane.ram other pte user was
  · intro x pte y pte' userX userY there there' same
    rcases cases x pte there with ⟨rfl, new⟩ | ⟨notX, was⟩ <;>
      rcases cases y pte' there' with ⟨rfl, new'⟩ | ⟨notY, was'⟩
    · rfl
    · exact absurd ⟨y, userY, pte', was', same.symm.trans new⟩ fresh.unused
    · exact absurd ⟨x, userX, pte, was, same.trans new'⟩ fresh.unused
    · exact sane.distinct x pte y pte' userX userY was was' same
  · rintro other later ⟨x, user, pte, there, rfl⟩
    rcases cases x pte there with ⟨-, new⟩ | ⟨-, was⟩
    · rw [new] at later
      exact fresh.taken later
    · exact sane.unused _ later ⟨x, user, pte, was, rfl⟩
  · intro other apart
    exact (entries other).trans (if_neg apart)
  · change PageDir.entry _ page ≠ none
    rw [entries page, if_pos rfl]
    exact Option.some_ne_none _

theorem mappages_spec (sane : Sane kend vm)
    (fresh : Fresh kend vm frame) (none : vm.entry page = none) :
    wp (mappages (page * pgsize) frame)
      (fun result next =>
        result = -1 ∧ Steady kend vm next ∨ result = 0 ∧ Added kend vm next page)
      Never vm := by
  unfold mappages
  refine wp_bind_of (walkpgdirAlloc_spec sane page) ?_
  rintro (_ | _) middle ⟨steady, found⟩
  · exact .inl ⟨rfl, steady⟩
  · obtain ⟨old, there⟩ := found rfl
    have absent : middle.pgdir.present (page * pgsize) = false := by
      have entry := entry_of_walk there
      rw [show middle.pgdir.entry page = _ from steady.entries page, none] at entry
      unfold PageDir.present
      rw [there]
      change old.present = false
      by_contra present
      rw [if_pos (by simpa using present)] at entry
      cases entry
    have added := Added.of_set steady.sane (steady.fresh frame fresh) there
    rw [if_pos rfl, wp_bind, wp_get]
    dsimp only
    rw [absent, if_neg (by decide), wp_bind, wp_modify, wp_pure]
    refine .inr ⟨rfl, added.sane, fun other apart => ?_, added.added,
      fun other used => ?_⟩
    · exact (added.entries other apart).trans (steady.entries other)
    · exact steady.contents other used

/-- Pages have been added from `lo` on. -/
structure Grown (kend : Nat) (start vm : Vm) (lo page : Nat) : Prop where
  sane : Sane kend vm
  entries : ∀ other < userPages, other < lo ∨ page ≤ other → vm.entry other = start.entry other
  added : ∀ other, lo ≤ other → other < page → vm.entry other ≠ none
  contents : ∀ frame, InUse start frame → vm.contents (direct frame) = start.contents (direct frame)

/-- The user pages are as they were. -/
structure Restored (start vm : Vm) : Prop where
  entries : ∀ page < userPages, vm.entry page = start.entry page
  contents : ∀ frame, InUse start frame → vm.contents (direct frame) = start.contents (direct frame)

section Loop

variable {start : Vm} {lo page : Nat}

section

variable (grown : Grown kend start vm lo page)
  (above : ∀ other < userPages, lo ≤ other → start.entry other = none)
include grown above

/-- Pages in use at the start still are. -/
theorem Grown.inUse (used : InUse start frame) :
    ∃ other < lo, other < userPages ∧ ∃ pte, vm.entry other = some pte ∧ pte.frame = frame := by
  obtain ⟨other, user, pte, there, same⟩ := used
  have low : other < lo := by
    by_contra high
    rw [above other user (Nat.le_of_not_lt high)] at there
    cases there
  exact ⟨other, low, user, pte, (grown.entries other user (.inl low)).trans there, same⟩

theorem Grown.steady (steady : Steady kend vm next) : Grown kend start next lo page where
  sane := steady.sane
  entries := fun other user range =>
    (steady.entries other).trans (grown.entries other user range)
  added := by
    intro other low high
    rw [steady.entries other]
    exact grown.added other low high
  contents := by
    intro frame used
    obtain ⟨other, -, user, pte, there, same⟩ := grown.inUse above used
    exact (steady.contents frame ⟨other, user, pte, there, same⟩).trans (grown.contents frame used)

theorem Grown.step (order : lo ≤ page) (added : Added kend vm next page) :
    Grown kend start next lo (page + 1) where
  sane := added.sane
  entries := by
    intro other user range
    rw [added.entries other (by omega)]
    exact grown.entries other user (by omega)
  added := by
    intro other low high
    by_cases here : other = page
    · rw [here]
      exact added.added
    · rw [added.entries other here]
      exact grown.added other low (by omega)
  contents := by
    intro frame used
    obtain ⟨other, -, user, pte, there, same⟩ := grown.inUse above used
    exact (added.contents frame ⟨other, user, pte, there, same⟩).trans (grown.contents frame used)

/-- When the growth fails, `deallocuvm` takes the new pages away. -/
theorem Grown.undo {hi : Nat} (order : page ≤ hi) (top : hi ≤ userPages)
    (cleared : Cleared vm next lo hi) : Restored start next where
  entries := by
    intro other user
    rw [cleared.entries other]
    split
    case isTrue range => rw [above other user range.1]
    case isFalse range => exact grown.entries other user (by omega)
  contents := by
    intro frame used
    obtain ⟨other, low, user, pte, there, same⟩ := grown.inUse above used
    rw [cleared.contents frame, grown.contents frame used]
    intro x pte' from' upTo there' same'
    have equal := grown.sane.distinct x pte' other pte (by omega) user there'
      there (same'.trans same.symm)
    omega

end

theorem allocuvmLoop_spec {fuel oldsz newsz : Nat} (positive : 0 < kend)
    (small : newsz ≤ kernbase) (more : oldsz ≤ newsz)
    (above : ∀ other < userPages, pagesOf oldsz ≤ other → start.entry other = none)
    (grown : Grown kend start vm (pagesOf oldsz) page) (low : pagesOf oldsz ≤ page)
    (high : page ≤ pagesOf newsz) (enough : pagesOf newsz < page + fuel) :
    wp (allocuvmLoop kend oldsz newsz fuel (page * pgsize))
      (fun size next =>
        size = newsz ∧ Grown kend start next (pagesOf oldsz) (pagesOf newsz) ∨
          size = 0 ∧ Restored start next)
      Never vm := by
  have top := pagesOf_le small
  induction fuel generalizing page vm with
  | zero => exact absurd enough (by omega)
  | succ fuel ih =>
    unfold allocuvmLoop
    rw [wp_ite]
    refine ⟨fun below => ?_, fun done => ?_⟩
    · have inside := lt_pagesOf.mpr below
      have user := Nat.lt_of_lt_of_le inside top
      have less : oldsz < newsz := by
        have := @lt_pagesOf page oldsz
        omega
      -- What `deallocuvm` leaves after a failure.
      have undone : ∀ {vm : Vm}, Grown kend start vm (pagesOf oldsz) page →
          wp (deallocuvm kend newsz oldsz) (fun _ next => Restored start next) Never vm := by
        intro vm grown
        refine wp_mono (deallocuvm_spec positive small less grown.sane.ram) ?_ fun _ => id
        rintro _ next ⟨-, cleared⟩
        exact grown.undo above (Nat.le_of_lt inside) top cleared
      refine wp_bind_of (kalloc_spec grown.sane) ?_
      rintro result middle ⟨steady, -, given⟩
      have taken := grown.steady above steady
      cases result with
      | none =>
        dsimp only
        rw [wp_bind, wp_discard]
        exact wp_mono (undone taken) (fun _ _ restored =>
          .inr ⟨rfl, restored⟩) fun _ => id
      | some mem =>
        have fresh := given mem rfl
        have filled : Steady kend middle (middle.fill mem 0) :=
          .of_fill steady.sane fresh.unused fun _ => rfl
        have zeroed := taken.steady above filled
        have free : (middle.fill mem 0).entry page = none := by
          rw [zeroed.entries page user (.inr (Nat.le_refl _))]
          exact above page user low
        dsimp only
        rw [wp_bind, wp_modify]
        refine wp_bind_of (mappages_spec filled.sane (filled.fresh mem fresh) free) ?_
        rintro result mapped (⟨rfl, failed⟩ | ⟨rfl, added⟩)
        · rw [if_pos (by decide), wp_bind, wp_discard]
          refine wp_mono (undone (zeroed.steady above failed)) ?_
            fun _ => id
          intro _ emptied restored
          refine wp_bind_of (kfree_ram fresh.ram) ?_
          rintro _ final rfl
          refine .inr ⟨rfl, restored.entries, fun other used => ?_⟩
          have apart : other ≠ mem := by
            rintro rfl
            obtain ⟨x, -, user', there⟩ := taken.inUse above used
            exact fresh.unused ⟨x, user', there⟩
          rw [fill_of_ne 1 apart, restored.contents other used]
        · rw [if_neg (by decide), next_page user]
          exact ih (zeroed.step above low added) (by omega) inside (by omega)
    · rw [wp_pure]
      have last : pagesOf newsz ≤ page := Nat.le_of_not_lt fun less => done (lt_pagesOf.mp less)
      obtain rfl : page = pagesOf newsz := Nat.le_antisymm high last
      exact .inl ⟨rfl, grown⟩

end Loop

end Grow

/-! ## `growproc` -/

/-- The user mappings of a process are exactly the pages below its size. -/
structure UserSpace (kend : Nat) (vm : Vm) (sz : Nat) : Prop where
  kernel : 0 < kend
  sane : Sane kend vm
  small : sz < kernbase
  exact : ∀ page < userPages, vm.entry page ≠ none ↔ page < pagesOf sz

/-- `growproc` returns 0, the size is the sum and exactly its pages are mapped,
or it returns -1 and the size, the user pages and their contents are as they
were. -/
def GrowsExactly (kend : Nat) (vm : Vm) (sz : Nat) (n : Int) : Prop :=
  ∃ result size next, growproc kend sz n vm = .ok ((result, size), next) ∧
      (result = 0 ∧ 0 ≤ sz + n ∧ sz + n < kernbase ∧ (size : Int) = sz + n ∧
          (∀ page < userPages, next.entry page ≠ none ↔ page < pagesOf size) ∨
        result = -1 ∧ size = sz ∧ Restored vm next)

section Growproc

variable {vm : Vm} {sz : Nat} {n : Int}

theorem UserSpace.above (space : UserSpace kend vm sz) (page : Nat) (user : page < userPages)
    (high : pagesOf sz ≤ page) : vm.entry page = none := by
  by_contra there
  have := (space.exact page user).mp there
  omega

theorem Restored.refl (vm : Vm) : Restored vm vm :=
  ⟨fun _ _ => rfl, fun _ _ => rfl⟩

theorem UserSpace.grows (space : UserSpace kend vm sz)
    (positive : 0 < n) (bound : n < kernbase) : GrowsExactly kend vm sz n := by
  have small := space.small
  obtain ⟨newsz, sum⟩ : ∃ newsz : Nat, (newsz : Int) = sz + n := ⟨(sz + n).toNat, by omega⟩
  have wrapped : ((sz + n) % addresses).toNat = newsz := by
    simp only [addresses, kernbase] at *
    omega
  have specified : wp (growproc kend sz n)
      (fun value next =>
        value.1 = 0 ∧ 0 ≤ sz + n ∧ sz + n < kernbase ∧ (value.2 : Int) = sz + n ∧
            (∀ page < userPages, next.entry page ≠ none ↔ page < pagesOf value.2) ∨
          value.1 = -1 ∧ value.2 = sz ∧ Restored vm next)
      Never vm := by
    unfold growproc
    dsimp only
    rw [if_pos positive, wrapped]
    unfold allocuvm
    by_cases large : kernbase ≤ newsz
    · rw [if_pos large, wp_bind, wp_pure, if_pos rfl]
      exact .inr ⟨rfl, rfl, .refl vm⟩
    · rw [if_neg large, if_neg (by omega), pgroundup_eq (Nat.le_of_lt small)]
      have start : Grown kend vm vm (pagesOf sz) (pagesOf sz) :=
        ⟨space.sane, fun _ _ _ => rfl, fun _ low high =>
          absurd high (Nat.not_lt.mpr low), fun _ _ => rfl⟩
      have top : pagesOf newsz ≤ userPages := pagesOf_le (by omega)
      have order : pagesOf sz ≤ pagesOf newsz := by
        unfold pagesOf
        exact Nat.div_le_div_right (by omega)
      refine wp_bind_of (allocuvmLoop_spec space.kernel (by omega) (by omega)
        space.above start (Nat.le_refl _) order
        (by simp only [rounds, userPages] at *; omega)) ?_
      rintro size next (⟨rfl, grown⟩ | ⟨rfl, restored⟩)
      · rw [if_neg (by omega)]
        refine .inl ⟨rfl, by omega, by omega, sum, fun page user => ?_⟩
        change _ ↔ page < pagesOf size
        by_cases new : pagesOf sz ≤ page ∧ page < pagesOf size
        · exact iff_of_true (grown.added page new.1 new.2) new.2
        · rw [grown.entries page user (by omega), space.exact page user]
          omega
      · rw [if_pos rfl]
        exact .inr ⟨rfl, rfl, restored⟩
  obtain ⟨⟨result, size⟩, next, returned, outcome⟩ := ok_of_wp specified fun _ => id
  exact ⟨result, size, next, returned, outcome⟩

/-- What `deallocuvm` leaves of the mappings. -/
theorem UserSpace.exact_of_cleared {next : Vm} {newsz : Nat} (space : UserSpace kend vm sz)
    (cleared : Cleared vm next (pagesOf newsz) (pagesOf sz))
    (order : pagesOf newsz ≤ pagesOf sz) (page : Nat) (user : page < userPages) :
    next.entry page ≠ none ↔ page < pagesOf newsz := by
  rw [cleared.entries page]
  split
  case isTrue taken => exact iff_of_false (fun there => there rfl) (by omega)
  case isFalse other =>
    rw [space.exact page user]
    omega

theorem growproc_of_negative {newsz size : Nat} {next : Vm} (negative : n < 0)
    (wrapped : ((sz + n) % addresses).toNat = newsz)
    (returned : deallocuvm kend sz newsz vm = .ok (size, next)) :
    growproc kend sz n vm = .ok (if size = 0 then (-1, sz) else (0, size), next) := by
  unfold growproc
  rw [if_neg (by omega), if_pos negative, wrapped, bind_of_ok returned]
  split <;> rfl

section

variable (space : UserSpace kend vm sz)
include space

/-- Shrinking, but not below nothing. -/
theorem UserSpace.deallocated (negative : n < 0) (rest : 0 ≤ sz + n) :
    ∃ (newsz : Nat) (next : Vm), (newsz : Int) = sz + n ∧ growproc kend sz n vm =
        .ok (if newsz = 0 then (-1, sz) else (0, newsz), next) ∧
      ∀ page < userPages, next.entry page ≠ none ↔ page < pagesOf newsz := by
  have small := space.small
  obtain ⟨newsz, sum⟩ : ∃ newsz : Nat, (newsz : Int) = sz + n := ⟨(sz + n).toNat, by omega⟩
  have wrapped : ((sz + n) % addresses).toNat = newsz := by
    simp only [addresses, kernbase] at *
    omega
  have order : pagesOf newsz ≤ pagesOf sz := by
    unfold pagesOf
    exact Nat.div_le_div_right (by omega)
  obtain ⟨size, next, returned, rfl, cleared⟩ := ok_of_wp
    (deallocuvm_spec space.kernel (Nat.le_of_lt small)
      (by omega : newsz < sz) space.sane.ram) fun _ => id
  exact ⟨size, next, sum, growproc_of_negative negative wrapped returned,
    space.exact_of_cleared cleared order⟩

theorem UserSpace.shrinks (negative : n < 0) (rest : 0 < sz + n) : GrowsExactly kend vm sz n := by
  have small := space.small
  obtain ⟨newsz, next, sum, returned, pages⟩ := space.deallocated negative (by omega)
  rw [if_neg (by omega)] at returned
  exact ⟨0, newsz, next, returned, .inl ⟨rfl, by omega, by omega, sum, pages⟩⟩

/-- Shrinking to nothing frees the pages and fails. -/
theorem UserSpace.not_empties (some : 0 < sz)
    (zero : sz + n = 0) : ¬ GrowsExactly kend vm sz n := by
  rintro ⟨result, size, next, returned, outcome⟩
  obtain ⟨newsz, next', sum, returned', pages⟩ := space.deallocated (by omega : n < 0) (by omega)
  have none : newsz = 0 := by omega
  rw [if_pos none, returned] at returned'
  cases returned'
  rcases outcome with ⟨success, -⟩ | ⟨-, -, restored⟩
  · exact absurd success (by decide)
  · have first : 0 < pagesOf sz := lt_pagesOf.mpr (by omega)
    have there := (space.exact 0 (by decide)).mpr first
    rw [← restored.entries 0 (by decide), pages 0 (by decide), none] at there
    exact absurd there (by decide)

/-- Shrinking below nothing does nothing and succeeds, except that it fails if
there is no memory. -/
theorem UserSpace.under (lower : -kernbase ≤ n)
    (under : sz + n < 0) : GrowsExactly kend vm sz n ↔ sz = 0 := by
  have small := space.small
  obtain ⟨newsz, wrapped, large⟩ : ∃ newsz : Nat,
      ((sz + n) % addresses).toNat = newsz ∧ sz ≤ newsz := by
    refine ⟨_, rfl, ?_⟩
    simp only [addresses, kernbase] at *
    omega
  have kept : deallocuvm kend sz newsz vm = .ok (sz, vm) := by
    unfold deallocuvm
    rw [if_pos large]
    rfl
  have returned := growproc_of_negative (by omega) wrapped kept
  constructor
  · rintro ⟨result, size, next, again, outcome⟩
    by_contra some
    rw [returned, if_neg some] at again
    cases again
    rcases outcome with ⟨-, positive, -⟩ | ⟨failed, -⟩
    · omega
    · exact absurd failed (by decide)
  · intro none
    rw [if_pos none] at returned
    exact ⟨-1, sz, vm, returned, .inr ⟨rfl, rfl, .refl vm⟩⟩

end

/-- For a 32-bit `n`, `growproc` is exact or does nothing unless it is to take
away all the memory of a process that has some, or more. -/
theorem growsExactly_iff (space : UserSpace kend vm sz)
    (lower : -kernbase ≤ n) (upper : n < kernbase) :
    GrowsExactly kend vm sz n ↔ 0 ≤ n ∨ 0 < sz + n ∨ sz = 0 := by
  have small := space.small
  by_cases positive : 0 < n
  · exact iff_of_true (space.grows positive upper) (.inl (by omega))
  by_cases negative : n < 0
  · by_cases some : 0 < sz + n
    · exact iff_of_true (space.shrinks negative some) (.inr (.inl some))
    · by_cases none : sz + n = 0
      · exact iff_of_false (space.not_empties (by omega) none) (by omega)
      · rw [space.under lower (by omega)]
        omega
  · obtain rfl : n = 0 := by omega
    refine iff_of_true ⟨0, sz, vm, rfl, .inl ⟨rfl, by omega, by omega,
      by omega, space.exact⟩⟩ (.inl (by omega))

/-- An address space with one page, and no free memory. -/
def onePage : Vm where
  pgdir := fun table =>
    if table = 0 then
      some fun entry =>
        if entry = 0 then ⟨0x500, true, true, true⟩ else .zero
    else none
  contents := fun _ _ => 0
  supply := []

theorem onePage_entry (page : Nat) : onePage.entry page =
      if page = 0 then some ⟨0x500, true, true, true⟩ else none := by
  unfold Vm.entry PageDir.entry onePage
  dsimp only
  by_cases first : page = 0
  · subst first
    rfl
  rw [if_neg first]
  by_cases table : page / nptentries = 0
  · have entry : page % nptentries ≠ 0 := by
      simp only [nptentries] at *
      omega
    simp [table, entry, Pte.zero]
  · rw [if_neg table]
    rfl

theorem onePage_space : UserSpace 0x200 onePage 4096 where
  kernel := by decide
  small := by decide
  exact := fun page _ => by
    have size : pagesOf 4096 = 1 := rfl
    rw [onePage_entry, size]
    by_cases first : page = 0
    · simp [first]
    · rw [if_neg first]
      simp only [ne_eq, not_true, false_iff]
      omega
  sane :=
    { ram := fun page pte _ there => by
        rw [onePage_entry] at there
        split at there
        · cases there
          decide
        · cases there
      distinct := fun page pte other pte' _ _ there there' _ => by
        rw [onePage_entry] at there there'
        split at there
        · split at there'
          · omega
          · cases there'
        · cases there
      supplied := fun frame member => by cases member
      unused := fun frame member => by cases member
      once := List.nodup_nil }

theorem growsExactly_onePage : GrowsExactly 0x200 onePage 4096 (-1) :=
  (growsExactly_iff onePage_space (by decide) (by decide)).mpr (.inr (.inl (by decide)))

/-- Taking away the only page fails, and the page is gone; taking away twice as
much succeeds, and the size is as before. -/
theorem not_growsExactly_onePage :
    (∃ next, growproc 0x200 4096 (-4096) onePage = .ok ((-1, 4096), next) ∧
        onePage.entry 0 ≠ none ∧ next.entry 0 = none) ∧
      (∃ next, growproc 0x200 4096 (-8192) onePage = .ok ((0, 4096), next)) ∧
      ¬ GrowsExactly 0x200 onePage 4096 (-4096) ∧
      ¬ GrowsExactly 0x200 onePage 4096 (-8192) := by
  refine ⟨?_, ?_, onePage_space.not_empties (by decide) (by decide), ?_⟩
  · obtain ⟨newsz, next, sum, returned, pages⟩ :=
      onePage_space.deallocated (by decide : (-4096 : Int) < 0) (by decide)
    obtain rfl : newsz = 0 := by omega
    refine ⟨next, returned, by decide +kernel, ?_⟩
    by_contra there
    exact absurd ((pages 0 (by decide)).mp there) (by decide)
  · have kept : deallocuvm 0x200 4096 0xFFFFF000 onePage = .ok (4096, onePage) := rfl
    exact ⟨onePage, growproc_of_negative (by decide : (-8192 : Int) < 0) rfl kept⟩
  · rw [onePage_space.under (by decide) (by decide)]
    decide

end Growproc

end Xv6.Memory
