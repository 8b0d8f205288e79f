import Xv6.Memory.PageTable

/-!
# Copying to user memory

`uva2ka` and `copyout`.  `uva2ka` uses what `walkpgdir` returns without looking
whether it is a null pointer.  At address 0 there is the first word of the
process that runs, if it has memory; it is then taken for a page table entry.
`P2V` panics for pages above `KERNBASE`.
-/

namespace Xv6.Memory

open List

/-- What `uva2ka` makes of an entry: a page of the kernel, where page 0 is the
null pointer, unless `P2V` panics. -/
def Pte.kernelPage (pte : Pte) : Option Frame :=
  if pte.present = false then some 0
  else if pte.user = false then some 0
  else p2v pte.frame

/-- `memmove` to a place within a page. -/
def Contents.store (contents : Contents) (page : Frame) (off : Nat)
    (bytes : List (BitVec 8)) : Contents := fun frame offset =>
  if frame = page ∧ off ≤ offset ∧ offset < off + bytes.length then
    bytes.getD (offset - off) 0
  else contents frame offset

/-- The page of an address is present. -/
def Present (pgdir : PageDir) (va : Nat) : Prop :=
  ∃ pte, walkpgdir pgdir va = some pte ∧ pte.present = true

/-- The page of an address is present with `PTE_U`. -/
def User (pgdir : PageDir) (va : Nat) : Prop :=
  ∃ pte, walkpgdir pgdir va = some pte ∧ pte.present = true ∧ pte.user = true

/-- The page of the kernel that an address refers to. -/
def backing (pgdir : PageDir) (va : Nat) : Frame :=
  match walkpgdir pgdir va with
  | some pte => direct pte.frame
  | none => 0

/-- The byte at an address. -/
def Contents.read (contents : Contents) (pgdir : PageDir) (va : Nat) : BitVec 8 :=
  contents (backing pgdir va) (va % pgsize)

/-- Every page table is there, or the word at address 0 is not taken for an
entry of a page with `PTE_U`; the physical address of each page with `PTE_U` is
below `KERNBASE`, and none is also mapped elsewhere. -/
structure Faithful (null : Option Pte) (pgdir : PageDir) : Prop where
  tables : ∀ va < addresses, walkpgdir pgdir va = none →
    ∃ word, null = some word ∧ word.kernelPage = some 0
  low : ∀ va < addresses, ∀ pte, walkpgdir pgdir va = some pte →
    pte.present = true → pte.user = true → pte.frame < 0x80000
  alone : ∀ va < addresses, ∀ va' < addresses, User pgdir va →
    Present pgdir va' → backing pgdir va = backing pgdir va' → va / pgsize = va' / pgsize

variable {null : Option Pte} {pgdir : PageDir}

section Translation

variable {va va' : Nat}

theorem User.present (user : User pgdir va) : Present pgdir va := by
  obtain ⟨pte, found, present, -⟩ := user
  exact ⟨pte, found, present⟩

theorem user_congr (page : va / pgsize = va' / pgsize) : User pgdir va ↔ User pgdir va' := by
  unfold User
  rw [walkpgdir_congr page]

theorem backing_congr (page : va / pgsize = va' / pgsize) :
    backing pgdir va = backing pgdir va' := by
  unfold backing
  rw [walkpgdir_congr page]

end Translation

section Loop

/-- What a copy has done. -/
structure Copied (pgdir : PageDir) (va : Nat) (buf : List (BitVec 8))
    (contents after : Contents) (result : Int) : Prop where
  outcome : result = 0 ∧ (∀ i < buf.length, User pgdir ((va + i) % addresses)) ∨
    result = -1 ∧ ∃ i < buf.length, ¬ User pgdir ((va + i) % addresses)
  copied : result = 0 → ∀ i < buf.length,
    after (backing pgdir ((va + i) % addresses)) ((va + i) % pgsize) = buf.getD i 0
  frame : ∀ frame offset, after frame offset ≠ contents frame offset →
    ∃ i < buf.length, User pgdir ((va + i) % addresses) ∧
      backing pgdir ((va + i) % addresses) = frame ∧
      (va + i) % pgsize = offset

theorem Copied.nil (va : Nat) (contents : Contents) : Copied pgdir va [] contents contents 0 where
  outcome := .inl ⟨rfl, by simp⟩
  copied := by simp
  frame := fun _ _ changed => absurd rfl changed

variable {contents after : Contents}

/-- Nothing is copied from anywhere. -/
theorem Copied.move {va : Nat} {result : Int}
    (copied : Copied pgdir va [] contents after result) (va' : Nat) :
    Copied pgdir va' [] contents after result where
  outcome := by
    rcases copied.outcome with ⟨zero, -⟩ | ⟨-, i, inside, -⟩
    · exact .inl ⟨zero, by simp⟩
    · exact absurd inside (Nat.not_lt_zero i)
  copied := by simp
  frame := by
    intro frame offset changed
    obtain ⟨i, inside, -⟩ := copied.frame frame offset changed
    exact absurd inside (Nat.not_lt_zero i)

theorem page_add {va i : Nat} (small : va < addresses) (within : va % pgsize + i < pgsize) :
    (va + i) % addresses = va + i ∧ (va + i) / pgsize = va / pgsize ∧
      (va + i) % pgsize = va % pgsize + i := by
  simp only [pgsize, addresses] at *
  omega

theorem range_add (va n j : Nat) :
    ((va + n) % addresses + j) % addresses = (va + (n + j)) % addresses ∧
      ((va + n) % addresses + j) % pgsize = (va + (n + j)) % pgsize := by
  simp only [pgsize, addresses]
  omega

/-- An address is given by its page and its offset. -/
theorem address_eq {va i j : Nat} (first : i < addresses) (second : j < addresses)
    (page : (va + i) % addresses / pgsize = (va + j) % addresses / pgsize)
    (offset : (va + i) % pgsize = (va + j) % pgsize) : i = j := by
  simp only [pgsize, addresses] at *
  omega

/-- A round on a page with `PTE_U`, and the rest of the copy. -/
theorem Copied.cons {va n : Nat} {buf : List (BitVec 8)}
    {result : Int} (faithful : Faithful null pgdir) (small : va < addresses)
    (short : buf.length < addresses) (user : User pgdir va)
    (part : n ≤ buf.length) (within : va % pgsize + n ≤ pgsize)
    (rest : Copied pgdir ((va + n) % addresses) (buf.drop n)
      (contents.store (backing pgdir va) (va % pgsize) (buf.take n)) after
      result) : Copied pgdir va buf contents after result := by
  have here : ∀ i < n, User pgdir ((va + i) % addresses) ∧
      backing pgdir ((va + i) % addresses) = backing pgdir va ∧
      (va + i) % pgsize = va % pgsize + i := by
    intro i first
    obtain ⟨same, page, offset⟩ := @page_add va i small (Nat.lt_of_lt_of_le (by omega) within)
    rw [same]
    exact ⟨(user_congr page).mpr user, backing_congr page, offset⟩
  have length : (buf.drop n).length = buf.length - n := length_drop
  -- What the rest changes lies behind the first `n` bytes.
  have later : ∀ frame offset, after frame offset ≠ contents.store (backing pgdir va) (va % pgsize)
        (buf.take n) frame offset →
      ∃ i, n ≤ i ∧ i < buf.length ∧ User pgdir ((va + i) % addresses) ∧
        backing pgdir ((va + i) % addresses) = frame ∧
        (va + i) % pgsize = offset := by
    intro frame offset changed
    obtain ⟨j, inside, reached, same, place⟩ := rest.frame frame offset changed
    rw [(range_add va n j).1] at reached same
    rw [(range_add va n j).2] at place
    exact ⟨n + j, by omega, by omega, reached, same, place⟩
  refine ⟨?_, ?_, ?_⟩
  · rcases rest.outcome with ⟨zero, all⟩ | ⟨failed, j, inside, other⟩
    · refine .inl ⟨zero, fun i inside => ?_⟩
      by_cases first : i < n
      · exact (here i first).1
      · have reached := all (i - n) (by omega)
        rw [(range_add va n (i - n)).1, Nat.add_sub_cancel' (by omega)] at reached
        exact reached
    · rw [(range_add va n j).1] at other
      exact .inr ⟨failed, n + j, by omega, other⟩
  · intro zero i inside
    by_cases first : i < n
    · obtain ⟨reached, same, offset⟩ := here i first
      have stored : contents.store (backing pgdir va) (va % pgsize)
          (buf.take n) (backing pgdir ((va + i) % addresses))
          ((va + i) % pgsize) = buf.getD i 0 := by
        unfold Contents.store
        rw [if_pos ⟨same, by omega, by rw [length_take]; omega⟩, offset,
          Nat.add_sub_cancel_left, getD_eq_getElem?_getD,
          getElem?_take_of_lt first, ← getD_eq_getElem?_getD]
      rw [← stored]
      by_contra changed
      obtain ⟨j, behind, inside', reached', same', place⟩ := later _ _ changed
      have page := faithful.alone _ (Nat.mod_lt _ (by decide)) _
        (Nat.mod_lt _ (by decide)) reached' reached.present same'
      have equal := address_eq (by omega) (by omega) page place
      omega
    · have bytes := rest.copied zero (i - n) (by omega)
      rw [(range_add va n (i - n)).1, (range_add va n (i - n)).2,
        Nat.add_sub_cancel' (by omega)] at bytes
      rw [bytes, getD_eq_getElem?_getD, getElem?_drop,
        Nat.add_sub_cancel' (by omega), ← getD_eq_getElem?_getD]
  · intro frame offset changed
    by_cases again : after frame offset =
        contents.store (backing pgdir va) (va % pgsize) (buf.take n) frame offset
    · rw [again] at changed
      unfold Contents.store at changed
      split at changed
      case isTrue stored =>
        obtain ⟨same, low, high⟩ := stored
        rw [length_take] at high
        obtain ⟨reached, backed, place⟩ := here (offset - va % pgsize) (by omega)
        exact ⟨offset - va % pgsize, by omega, reached, backed.trans same.symm, by omega⟩
      case isFalse => exact absurd rfl changed
    · obtain ⟨i, -, inside, found⟩ := later frame offset again
      exact ⟨i, inside, found⟩

end Loop

section Main

end Main

end Xv6.Memory
