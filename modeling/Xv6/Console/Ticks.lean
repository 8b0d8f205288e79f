import Xv6.User.Format
import Mathlib.Data.Nat.Digits.Lemmas

/-!
# The ticks device

`ticksread` prints the tick count with the kernel's copy of `snprintf`.
-/

namespace Xv6.Format

open List

/-- `ticksread`, with the tick count. -/
def ticksread (ticks : BitVec 32) (dst n : Nat) (memory : Bytes) : Nat × Bytes :=
  snprintf false (fun _ => []) dst n [37, 100] (fun _ => ticks) memory

theorem expansion_ticks (ticks : BitVec 32) :
    expansion false (fun _ => []) [37, 100] false (fun _ => ticks) = integer false ticks 10 true :=
  append_nil _

theorem numeral_cons (x : Nat) : ∃ c rest, numeral 10 x = c :: rest ∧ c ≠ 45 := by
  unfold numeral
  split
  case isTrue => exact ⟨48, [], rfl, by decide⟩
  case isFalse positive =>
    cases text : ((Nat.digits 10 x).map digit).reverse with
    | nil =>
      rw [reverse_eq_nil_iff, map_eq_nil_iff, Nat.digits_eq_nil_iff_eq_zero] at text
      exact absurd text positive
    | cons c rest =>
      have digits : ∀ d < 10, digit d ≠ 45 := by decide
      have member : c ∈ ((Nat.digits 10 x).map digit).reverse := text ▸ mem_cons_self
      obtain ⟨d, inside, rfl⟩ := mem_map.mp (mem_reverse.mp member)
      exact ⟨_, rest, rfl, digits d (Nat.digits_lt_base (by decide) inside)⟩

theorem integer_eq_nil_iff (ticks : BitVec 32) : integer false ticks 10 true = [] ↔ ticks = 0 := by
  unfold integer
  constructor
  · intro empty
    by_contra positive
    obtain ⟨c, rest, known, -⟩ := numeral_cons ticks.toNat
    rw [if_neg (fun both => positive both.1)] at empty
    split at empty
    · cases empty
    · cases known.symm.trans empty
  · intro zero
    rw [if_pos ⟨zero, Bool.false_ne_true⟩]

section

variable {outbuffer : Nat} {memory : Bytes} {text other : Text}

theorem stored_outside {a : Nat} (outside : a < outbuffer ∨ outbuffer + text.length ≤ a) :
    stored outbuffer text memory a = memory a := by
  unfold stored
  split
  · rfl
  · rw [getElem?_eq_none (by omega)]
    rfl

theorem stored_inj (length : text.length = other.length)
    (same : stored outbuffer text memory = stored outbuffer other memory) : text = other := by
  apply ext_getElem length
  intro i left right
  have here := congrFun same (outbuffer + i)
  simpa [stored, left, right] using here

theorem stored_head (c : BitVec 8) (rest : Text) :
    stored outbuffer (c :: rest) memory outbuffer = c := by
  simp [stored]

end

section

variable (strings : BitVec 32 → Text) (outbuffer n : Nat) (fmt : Text)
variable (ap : Nat → BitVec 32) (memory : Bytes) (ticks : BitVec 32)

/-- The copies agree exactly when the part of the text that is stored is the
same with and without the numerals of zero.  The text of a tick count is its
numeral exactly when the count is not zero and not negative as an `int`. -/
theorem copies_agree_iff (positive : 1 ≤ n) (int : n < 2 ^ 31) :
    (snprintf false strings outbuffer n fmt ap memory =
          snprintf true strings outbuffer n fmt ap memory ↔
        (expansion false strings fmt false ap).take (n - 1) =
          (expansion true strings fmt false ap).take (n - 1)) ∧
      ((ticksread ticks outbuffer n memory).2 =
          stored outbuffer ((numeral 10 ticks.toNat).take (n - 1) ++ [0]) memory ↔
        n = 1 ∨ 0 < ticks.toNat ∧ ticks.toNat < 2 ^ 31) := by
  constructor
  · rw [snprintf_eq _ strings outbuffer fmt ap memory positive int,
      snprintf_eq _ strings outbuffer fmt ap memory positive int]
    simp only [← length_take]
    constructor
    · intro same
      obtain ⟨count, bytes⟩ := Prod.mk.inj same
      apply append_cancel_right
      exact stored_inj (by rw [length_append, count, length_append]) bytes
    · intro same
      rw [same]
  · rw [ticksread, snprintf_eq _ _ _ _ _ _ positive int, expansion_ticks]
    dsimp only
    obtain ⟨m, rfl⟩ := Nat.exists_eq_add_of_le' positive
    cases m with
    | zero => exact iff_of_true rfl (.inl rfl)
    | succ m =>
      obtain ⟨c, rest, known, digit⟩ := numeral_cons ticks.toNat
      have sign := ticks.toInt_eq_toNat_cond
      by_cases zero : ticks = 0
      · subst zero
        rw [(integer_eq_nil_iff 0).mpr rfl]
        refine iff_of_false (fun same => ?_) (by simp)
        exact absurd (congrFun same outbuffer) (by simp [stored, numeral])
      · have some : ticks.toNat ≠ 0 := fun same => zero (BitVec.eq_of_toNat_eq same)
        rw [integer, if_neg (fun both => zero both.1)]
        split
        case isTrue negative =>
          refine iff_of_false (fun same => ?_) (by omega)
          have first := congrFun same outbuffer
          rw [known, Nat.add_sub_cancel, take_succ_cons, take_succ_cons, cons_append, cons_append,
            stored_head, stored_head] at first
          exact digit first.symm
        case isFalse other =>
          have natural := not_and.mp other rfl
          exact iff_of_true rfl (.inr (by omega))

theorem copies_agree_iff_one :
    (snprintf false (fun _ => []) 0 4 [37, 100] (fun _ => 1) (fun _ => 0) =
          snprintf true (fun _ => []) 0 4 [37, 100] (fun _ => 1) (fun _ => 0) ↔
        (expansion false (fun _ => []) [37, 100] false (fun _ => 1)).take 3 =
          (expansion true (fun _ => []) [37, 100] false (fun _ => 1)).take 3) ∧
      (ticksread 1 0 4 (fun _ => 0)).2 = stored 0 ((numeral 10 1).take 3 ++ [0]) (fun _ => 0) := by
  obtain ⟨agree, text⟩ := copies_agree_iff (fun _ => []) 0 4 [37, 100]
    (fun _ => 1) (fun _ => 0) 1 (by decide) (by decide)
  exact ⟨agree, text.mpr (by decide)⟩

theorem ticksread_zero : (ticksread 0 0 2 (fun _ => 1)).1 = 0 ∧
      (snprintf true (fun _ => []) 0 2 [37, 100] (fun _ => 0) (fun _ => 1)).1 = 1 := by
  decide

/-- `ticksread` keeps to a buffer exactly when this is not empty or there is
nothing to print. -/
theorem ticksread_within_iff (int : n < 2 ^ 31) : ((∀ a, a < outbuffer ∨ outbuffer + n ≤ a →
          (ticksread ticks outbuffer n memory).2 a = memory a) ∧
        (ticksread ticks outbuffer n memory).1 ≤ n) ↔
      n ≠ 0 ∨ ticks = 0 := by
  cases n with
  | succ n =>
    refine iff_of_true ?_ (.inl (Nat.succ_ne_zero n))
    rw [ticksread, snprintf_eq _ _ _ _ _ _ (Nat.le_add_left 1 n) int]
    refine ⟨fun a outside => stored_outside ?_, by dsimp only; omega⟩
    rw [length_append, length_take, length_singleton]
    omega
  | zero =>
    obtain ⟨-, printed⟩ := s_printf_stored false (fun _ => []) outbuffer
      (lengthFor 0) [37, 100] (fun _ => ticks) memory
    rw [expansion_ticks] at printed
    have count := snprintf_fst false (fun _ => []) outbuffer 0 [37, 100] (fun _ => ticks) memory
    rw [expansion_ticks] at count
    constructor
    · rintro ⟨-, none⟩
      refine .inr ((integer_eq_nil_iff ticks).mp (length_eq_zero_iff.mp ?_))
      rw [ticksread, count] at none
      have large : lengthFor 0 = 2 ^ 32 - 1 := rfl
      omega
    · rintro (none | zero)
      · exact absurd rfl none
      · rw [(integer_eq_nil_iff ticks).mpr zero] at printed count
        rw [take_nil, stored_nil] at printed
        exact ⟨fun a _ => congrFun printed a, count.le.trans (Nat.min_le_right ..)⟩

end

theorem ticksread_within_iff_ten :
    (∀ a, a < 0 ∨ 0 + 10 ≤ a → (ticksread 7 0 10 (fun _ => 0)).2 a = 0) ∧
      (ticksread 7 0 10 (fun _ => 0)).1 ≤ 10 :=
  (ticksread_within_iff 0 10 (fun _ => 0) 7 (by decide)).mpr (.inl (by decide))

/-- A read of no bytes stores one and returns 1. -/
theorem ticksread_none : (ticksread 1 0 0 (fun _ => 0)).1 = 1 ∧
      (ticksread 1 0 0 (fun _ => 0)).2 0 = 49 := by
  decide

end Xv6.Format
