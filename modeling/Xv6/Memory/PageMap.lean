import Mathlib.Data.BitVec
import Mathlib.Logic.Function.Basic
import Mathlib.Tactic.Common
import Mathlib.Tactic.Ring

/-!
# `mappages`

`walkpgdir` and `mappages` of `vm.c` on ranges of pages.  Addresses in the loop
are page-aligned and are given by their page, so that adding `PGSIZE` adds one.
-/

namespace Xv6.PageMap

open Function

/-- The upper twenty bits of an address. -/
abbrev Page := BitVec 20

/-- A page table entry: `PTE_ADDR` and `PTE_FLAGS`. -/
structure Entry where
  frame : Page
  flags : BitVec 12
  deriving DecidableEq

/-- An entry of a new page table. -/
def Entry.zero : Entry := ⟨0, 0⟩

/-- `PTE_P`. -/
def Entry.present (entry : Entry) : Bool := entry.flags.getLsbD 0

/-- A page directory.  A table that is not present is `none`. -/
abbrev PageDir := Nat → Option (Nat → Entry)

/-- `PDX`. -/
def pdx (a : Page) : Nat := a.toNat / 1024

/-- `PTX`. -/
def ptx (a : Page) : Nat := a.toNat % 1024

/-- `walkpgdir` without `alloc`: the entry, or a null pointer. -/
def walkpgdir (pgdir : PageDir) (a : Page) : Option Entry :=
  (pgdir (pdx a)).map (· (ptx a))

/-- `walkpgdir` with `alloc`, when `kalloc` has a page or not. -/
def walkpgdirAlloc (kalloc : Bool) (pgdir : PageDir) (a : Page) : Option PageDir :=
  if (pgdir (pdx a)).isSome then some pgdir
  else if kalloc then some (update pgdir (pdx a) (some fun _ => .zero))
  else none

/-- Store to the entry that `walkpgdir` has found. -/
def store (pgdir : PageDir) (a : Page) (entry : Entry) : PageDir :=
  update pgdir (pdx a) ((pgdir (pdx a)).map (update · (ptx a) entry))

/-- How `mappages` ends: it returns 0, returns -1 or panics. -/
inductive Outcome where
  | done (pgdir : PageDir)
  | failed (pgdir : PageDir)
  | remap

/-- The loop of `mappages`, for a number of passes.  `kalloc` says for each page
whether there is memory then. -/
def mapLoop (kalloc : Page → Bool) (perm : BitVec 12) (last : Page) :
    Nat → PageDir → Page → Page → Option Outcome
  | 0, _, _, _ => none
  | fuel + 1, pgdir, a, pa =>
    match walkpgdirAlloc (kalloc a) pgdir a with
    | none => some (.failed pgdir)
    | some pgdir =>
      if (walkpgdir pgdir a).any Entry.present then some .remap
      else if a = last then some (.done (store pgdir a ⟨pa, perm ||| 1⟩))
      else mapLoop kalloc perm last fuel (store pgdir a ⟨pa, perm ||| 1⟩) (a + 1) (pa + 1)

/-- `mappages`, for physical memory from a page on. -/
def mappages (kalloc : Page → Bool) (fuel : Nat) (pgdir : PageDir) (va size : Nat)
    (pa : Page) (perm : BitVec 12) : Option Outcome :=
  mapLoop kalloc perm (.ofNat 20 ((va + size - 1) / 4096)) fuel pgdir (.ofNat 20 (va / 4096)) pa

/-- An entry is as before, up to the table it is in. -/
def Same (before after : Option Entry) : Prop :=
  after = before ∨ before = none ∧ after = some .zero

/-- So many pages from `a` on are mapped, and all other entries are as before. -/
def Maps (pgdir next : PageDir) (a pa : Page) (perm : BitVec 12) (count : Nat) : Prop :=
  ∀ b, if a.toNat ≤ b.toNat ∧ b.toNat < a.toNat + count then
      walkpgdir next b = some ⟨pa + (b - a), perm ||| 1⟩
    else Same (walkpgdir pgdir b) (walkpgdir next b)

section

variable {pgdir middle next : PageDir} {a b pa : Page} {perm : BitVec 12} {entry : Entry}

theorem Same.trans {x y z : Option Entry} (first : Same x y) (second : Same y z) : Same x z := by
  rcases first with rfl | ⟨rfl, rfl⟩
  · exact second
  · exact .inr ⟨rfl, second.resolve_right fun both => Option.some_ne_none _ both.1⟩

theorem Same.absent {x y : Option Entry} (same : Same x y) (absent : ¬ x.any Entry.present) :
    ¬ y.any Entry.present := by
  rcases same with rfl | ⟨-, rfl⟩
  · exact absent
  · decide

theorem walkpgdir_store_self (found : (walkpgdir pgdir a).isSome) :
    walkpgdir (store pgdir a entry) a = some entry := by
  obtain ⟨table, known⟩ := Option.isSome_iff_exists.mp ((Option.isSome_map ..).symm.trans found)
  simp [walkpgdir, store, known]

theorem walkpgdir_store_of_ne (other : b ≠ a) :
    walkpgdir (store pgdir a entry) b = walkpgdir pgdir b := by
  unfold walkpgdir store
  by_cases table : pdx b = pdx a
  · have apart : ptx b ≠ ptx a := by
      intro same
      apply other
      unfold pdx ptx at *
      exact BitVec.eq_of_toNat_eq (by omega)
    rw [table, update_self, Option.map_map]
    congr 1
    ext1 pgtab
    exact update_of_ne apart ..
  · rw [update_of_ne table]

theorem walkpgdirAlloc_eq {kalloc : Bool} (found : walkpgdirAlloc kalloc pgdir a = some middle) :
    (walkpgdir middle a).isSome ∧ ∀ b, Same (walkpgdir pgdir b) (walkpgdir middle b) := by
  unfold walkpgdirAlloc at found
  split at found
  case isTrue present =>
    cases found
    exact ⟨(Option.isSome_map ..).trans present, fun _ => .inl rfl⟩
  case isFalse missing =>
    obtain ⟨-, ⟨⟩⟩ := Option.ite_none_right_eq_some.mp found
    unfold walkpgdir
    refine ⟨by rw [update_self]; rfl, fun b => ?_⟩
    by_cases table : pdx b = pdx a
    · rw [table, update_self, Option.not_isSome_iff_eq_none.mp missing]
      exact .inr ⟨rfl, rfl⟩
    · rw [update_of_ne table]
      exact .inl rfl

/-- One pass maps one page. -/
theorem maps_store (found : (walkpgdir middle a).isSome)
    (same : ∀ b, Same (walkpgdir pgdir b) (walkpgdir middle b)) :
    Maps pgdir (store middle a ⟨pa, perm ||| 1⟩) a pa perm 1 := by
  intro b
  by_cases here : b = a
  · subst here
    rw [if_pos (by omega), walkpgdir_store_self found, sub_self, add_zero]
  · have apart : b.toNat ≠ a.toNat := fun same => here (BitVec.eq_of_toNat_eq same)
    rw [if_neg (by omega), walkpgdir_store_of_ne here]
    exact same b

theorem Maps.cons {count : Nat} (first : Maps pgdir middle a pa perm 1)
    (rest : Maps middle next (a + 1) (pa + 1) perm count) (room : a.toNat + 1 < 2 ^ 20) :
    Maps pgdir next a pa perm (count + 1) := by
  have step : (a + 1).toNat = a.toNat + 1 := by
    rw [BitVec.toNat_add]
    exact Nat.mod_eq_of_lt room
  intro b
  have one := first b
  have others := rest b
  rw [step] at others
  by_cases here : a.toNat ≤ b.toNat ∧ b.toNat < a.toNat + 1
  · rw [if_pos here] at one
    rw [if_neg (by omega), one] at others
    rw [if_pos (by omega)]
    exact others.resolve_right fun both => Option.some_ne_none _ both.1
  · rw [if_neg here] at one
    split
    case isTrue inside =>
      rw [if_pos (by omega)] at others
      rw [others]
      congr 2
      ring
    case isFalse outside =>
      rw [if_neg (by omega)] at others
      exact one.trans others

/-- What the loop does with the pages from `a` to `last`. -/
theorem mapLoop_maps (kalloc : Page → Bool) {last : Page} (count : Nat) {fuel : Nat}
    (ends : last.toNat = a.toNat + count) (enough : count < fuel)
    (absent : ∀ b : Page, a.toNat ≤ b.toNat → b.toNat ≤ last.toNat →
      ¬ (walkpgdir pgdir b).any Entry.present) :
    (∃ next, mapLoop kalloc perm last fuel pgdir a pa = some (.done next) ∧
        Maps pgdir next a pa perm (count + 1)) ∨
      ∃ next mapped, mapLoop kalloc perm last fuel pgdir a pa = some (.failed next) ∧
        mapped ≤ count ∧ Maps pgdir next a pa perm mapped := by
  induction fuel generalizing pgdir a pa count with
  | zero => omega
  | succ fuel ih =>
    rw [mapLoop]
    cases walked : walkpgdirAlloc (kalloc a) pgdir a with
    | none =>
      refine .inr ⟨pgdir, 0, rfl, Nat.zero_le _, fun b => ?_⟩
      rw [if_neg (by omega)]
      exact .inl rfl
    | some middle =>
      obtain ⟨found, same⟩ := walkpgdirAlloc_eq walked
      have first := @maps_store pgdir middle a pa perm found same
      have free := (same a).absent (absent a (Nat.le_refl _) (by omega))
      dsimp only
      rw [if_neg free]
      split
      case isTrue here =>
        subst here
        rw [show count = 0 by omega]
        exact .inl ⟨_, rfl, first⟩
      case isFalse other =>
        have before : a.toNat ≠ last.toNat := fun same => other (BitVec.eq_of_toNat_eq same)
        obtain ⟨rest, rfl⟩ := Nat.exists_eq_succ_of_ne_zero (show count ≠ 0 by omega)
        -- `a` does not wrap, even when `last` is the last page of all
        have room : a.toNat + 1 < 2 ^ 20 := by omega
        have step : (a + 1).toNat = a.toNat + 1 := by
          rw [BitVec.toNat_add]
          exact Nat.mod_eq_of_lt room
        have later := @ih (store middle a ⟨pa, perm ||| 1⟩) (a + 1) (pa + 1) rest
          (by omega) (by omega) fun b low high => by
            rw [walkpgdir_store_of_ne (by rintro rfl; omega)]
            exact (same b).absent (absent b (by omega) high)
        rcases later with ⟨next, ended, maps⟩ | ⟨next, mapped, ended, most, maps⟩
        · exact .inl ⟨next, ended, first.cons maps room⟩
        · exact .inr ⟨next, mapped + 1, ended, Nat.succ_le_succ most, first.cons maps room⟩

end

/-- When no page of the range is present, `mappages` ends without a panic.  If it returns 0 all
pages of the range are mapped, if -1 the first ones, and all other entries are as before, but
that there may be a page table where there was none. -/
theorem mappages_maps (kalloc : Page → Bool) (pgdir : PageDir) (pa : Page) (perm : BitVec 12)
    (va size fuel : Nat) (positive : 0 < size) (within : va + size - 1 < 2 ^ 32)
    (absent : ∀ b : Page, va / 4096 ≤ b.toNat → b.toNat ≤ (va + size - 1) / 4096 →
      ¬ (walkpgdir pgdir b).any Entry.present)
    (enough : (va + size - 1) / 4096 - va / 4096 < fuel) :
    (∃ next, mappages kalloc fuel pgdir va size pa perm = some (.done next) ∧
        Maps pgdir next (.ofNat 20 (va / 4096)) pa perm
          ((va + size - 1) / 4096 - va / 4096 + 1)) ∨
      ∃ next mapped, mappages kalloc fuel pgdir va size pa perm = some (.failed next) ∧
        mapped ≤ (va + size - 1) / 4096 - va / 4096 ∧
        Maps pgdir next (.ofNat 20 (va / 4096)) pa perm mapped := by
  have first : (BitVec.ofNat 20 (va / 4096)).toNat = va / 4096 := by
    rw [BitVec.toNat_ofNat]
    omega
  have last : (BitVec.ofNat 20 ((va + size - 1) / 4096)).toNat = (va + size - 1) / 4096 := by
    rw [BitVec.toNat_ofNat]
    omega
  apply mapLoop_maps
  · omega
  · exact enough
  · intro b low high
    exact absent b (by omega) (by omega)

/-- The last page of the address space, as `setupkvm` maps it. -/
theorem mappages_maps_top :
    ∃ next, mappages (fun _ => true) 1 (fun _ => none) 0xFFFFF000 4096 0xFFFFF 2 =
        some (.done next) ∧
      Maps (fun _ => none) next (.ofNat 20 0xFFFFF) 0xFFFFF 2 1 := by
  rcases mappages_maps (fun _ => true) (fun _ => none) 0xFFFFF 2 0xFFFFF000 4096 1 (by decide)
    (by decide) (fun _ _ _ => Bool.false_ne_true) (by decide) with done | ⟨_, _, failed, _⟩
  · exact done
  · cases failed

/-- Page 0 is mapped in an empty directory: page 1 then has an entry. -/
theorem mappages_new_table :
    ∃ next, mappages (fun _ => true) 1 (fun _ => none) 0 4096 0 0 = some (.done next) ∧
      walkpgdir (fun _ => none) 1 = none ∧ walkpgdir next 1 = some .zero :=
  ⟨_, rfl, rfl, rfl⟩

end Xv6.PageMap
