import Mathlib.Data.List.Infix
import Mathlib.Data.Nat.Digits.Defs
import Mathlib.Logic.Function.Basic
import Mathlib.Tactic.Common

/-!
# `printf` and `snprintf`

The formatter of the user library (`printf.c`), and its copy in the kernel
(`dTicks.c`), which lacks the digit of zero.  Both are compared with the text
that a format and its arguments stand for.
-/

namespace Xv6.Format

open List Function

/-- Bytes at addresses. -/
abbrev Bytes := Nat → BitVec 8

/-- A string, without the NUL at its end. -/
abbrev Text := List (BitVec 8)

/-- `putFunction_t`, from buffer, length and index, with what it puts to. -/
abbrev Put (σ : Type) := Nat → Nat → Nat → BitVec 8 → σ → σ

/-- `s_putc`, with what the file was sent. -/
def s_putc : Put Text := fun _ _ _ c sent => sent ++ [c]

/-- `s_sputc`. -/
def s_sputc : Put Bytes := fun outbuffer length index c memory =>
  if index < length then Function.update memory (outbuffer + index) c
  else memory

/-- `digits[d]`. -/
def digit (d : Nat) : BitVec 8 := .ofNat 8 (if d < 10 then 48 + d else 55 + d)

/-- The loop over the digits, with the room that is left. -/
def reverseDigits (base : Nat) : Nat → Nat → Text
  | 0, _ => []
  | room + 1, x =>
    if x = 0 then []
    else digit (x % base) :: reverseDigits base room (x / base)

/-- `s_getReverseDigits`; only one copy has a digit for zero. -/
def s_getReverseDigits (zero : Bool) (length : Nat) (xx : BitVec 32)
    (base : Nat) (sgn : Bool) : Text :=
  let neg := sgn ∧ xx.toInt < 0
  let digits :=
    reverseDigits base (length - 1) (if neg then -xx else xx).toNat
  let digits :=
    if zero ∧ xx = 0 ∧ digits.length + 1 < length then digits ++ [digit 0]
    else digits
  if neg ∧ digits.length < length then digits ++ [45] else digits

section Code

variable {σ : Type}
variable (put : Put σ) (zero : Bool) (strings : BitVec 32 → Text)
variable (outbuffer length : Nat)

/-- The loop of `s_printint`. -/
def putDigits (outbuffer length : Nat) : Nat → Text → σ → σ
  | _, [], s => s
  | j, c :: rest, s =>
    if j < length then
      putDigits outbuffer length (j + 1) rest (put outbuffer length j c s)
    else s

/-- `s_printint`: the number of digits. -/
def s_printint (outbuffer length : Nat) (xx : BitVec 32) (base : Nat)
    (sgn : Bool) (s : σ) : Nat × σ :=
  let digits := s_getReverseDigits zero 16 xx base sgn
  (digits.length, putDigits put outbuffer length 0 digits.reverse s)

/-- The loop for `%s`. -/
def putString : Nat → Text → σ → σ
  | _, [], s => s
  | outindex, c :: rest, s => putString (outindex + 1) rest (put outbuffer length outindex c s)

/-- `(null)`. -/
def null : Text := [40, 110, 117, 108, 108, 41]

/-- What follows a `%` in the loop of `s_printf`. -/
def convert (c : BitVec 8) (arg : BitVec 32) (outindex : Nat) (s : σ) : Nat × σ :=
  if c = 100 then
    let printed := s_printint put zero (outbuffer + outindex)
      (length - outindex) arg 10 true s
    (outindex + printed.1, printed.2)
  else if c = 120 ∨ c = 112 then
    let printed := s_printint put zero (outbuffer + outindex)
      (length - outindex) arg 16 false s
    (outindex + printed.1, printed.2)
  else if c = 115 then
    let text := if arg = 0 then null else strings arg
    (outindex + text.length, putString put outbuffer length outindex text s)
  else if c = 99 then
    (outindex + 1, put outbuffer length outindex (arg.setWidth 8) s)
  else if c = 37 then (outindex + 1, put outbuffer length outindex c s)
  else
    (outindex + 2, put outbuffer length (outindex + 1) c (put outbuffer length outindex 37 s))

/-- `ap` after a conversion. -/
def advance (c : BitVec 8) (ap : Nat → BitVec 32) : Nat → BitVec 32 :=
  if c ∈ [100, 120, 112, 115, 99] then fun i => ap (i + 1) else ap

/-- The loop of `s_printf`, with `state` true after a `%`.  A string ends below
`KERNBASE`, so that `outindex` does not overflow. -/
def s_printf : Text → Bool → (Nat → BitVec 32) → Nat → σ → Nat × σ
  | [], _, _, outindex, s => (outindex, s)
  | c :: fmt, state, ap, outindex, s =>
    if outindex < length then
      if state then
        let next := convert put zero strings outbuffer length c (ap 0)
          outindex s
        s_printf fmt false (advance c ap) next.1 next.2
      else if c = 37 then s_printf fmt true ap outindex s
      else
        s_printf fmt false ap (outindex + 1) (put outbuffer length outindex c s)
    else (outindex, s)

end Code

/-- `n - 1`, as an unsigned number. -/
def lengthFor (n : Nat) : Nat := (n + (2 ^ 32 - 1)) % 2 ^ 32

/-- `snprintf` of either copy: the value returned and the memory. -/
def snprintf (zero : Bool) (strings : BitVec 32 → Text) (outbuffer n : Nat)
    (fmt : Text) (ap : Nat → BitVec 32) (memory : Bytes) : Nat × Bytes :=
  let printed :=
    s_printf s_sputc zero strings outbuffer (lengthFor n) fmt false ap 0 memory
  let count := min (lengthFor n) printed.1
  (count, if count < n then Function.update printed.2 (outbuffer + count) 0
    else printed.2)

/-- `printf`: the characters sent. -/
def printf (strings : BitVec 32 → Text) (fmt : Text) (ap : Nat → BitVec 32) : Text :=
  (s_printf s_putc true strings 0 (lengthFor (2 ^ 30)) fmt false ap 0 []).2

/-! ### The text of a format -/

/-- The numeral of a number. -/
def numeral (base x : Nat) : Text :=
  if x = 0 then [48] else ((Nat.digits base x).map digit).reverse

/-- What an integer conversion stands for. -/
def integer (zero : Bool) (arg : BitVec 32) (base : Nat) (sgn : Bool) : Text :=
  if arg = 0 ∧ ¬ zero then []
  else if sgn ∧ arg.toInt < 0 then 45 :: numeral base arg.toInt.natAbs
  else numeral base arg.toNat

/-- What a conversion stands for. -/
def conversion (zero : Bool) (strings : BitVec 32 → Text) (c : BitVec 8) (arg : BitVec 32) : Text :=
  if c = 100 then integer zero arg 10 true
  else if c = 120 ∨ c = 112 then integer zero arg 16 false
  else if c = 115 then if arg = 0 then null else strings arg
  else if c = 99 then [arg.setWidth 8]
  else if c = 37 then [c]
  else [37, c]

/-- What a format stands for. -/
def expansion (zero : Bool) (strings : BitVec 32 → Text) : Text → Bool → (Nat → BitVec 32) → Text
  | [], _, _ => []
  | c :: fmt, true, ap =>
    conversion zero strings c (ap 0) ++ expansion zero strings fmt false (advance c ap)
  | c :: fmt, false, ap =>
    if c = 37 then expansion zero strings fmt true ap
    else c :: expansion zero strings fmt false ap

/-! ### Integers -/

theorem reverseDigits_eq (base room x : Nat) (large : 1 < base) (fits : x < base ^ room) :
    reverseDigits base room x = (Nat.digits base x).map digit := by
  induction room generalizing x with
  | zero =>
    rw [Nat.lt_one_iff.mp fits, Nat.digits_zero]
    rfl
  | succ room ih =>
    rw [reverseDigits]
    split
    case isTrue zero => rw [zero, Nat.digits_zero, map_nil]
    case isFalse positive =>
      rw [Nat.digits_def' large (Nat.pos_of_ne_zero positive), map_cons, ih (x / base)]
      exact Nat.div_lt_of_lt_mul (Nat.pow_succ' ▸ fits)

theorem reverseDigits_length (base room x : Nat) : (reverseDigits base room x).length ≤ room := by
  induction room generalizing x with
  | zero => exact Nat.le_refl 0
  | succ room ih =>
    rw [reverseDigits]
    split
    · exact Nat.zero_le _
    · exact Nat.succ_le_succ (ih _)

/-- The local buffer is long enough for every word. -/
theorem s_getReverseDigits_reverse (zero : Bool) (xx : BitVec 32) (base : Nat)
    (sgn : Bool) (large : 10 ≤ base) :
    (s_getReverseDigits zero 16 xx base sgn).reverse = integer zero xx base sgn := by
  have digits : ∀ x : BitVec 32,
      reverseDigits base 15 x.toNat = (Nat.digits base x.toNat).map digit :=
    fun x => reverseDigits_eq base 15 _ (by omega)
      (x.isLt.trans_le ((by decide : 2 ^ 32 ≤ 10 ^ 15).trans (Nat.pow_le_pow_left large 15)))
  unfold s_getReverseDigits integer
  by_cases none : xx = 0#32
  · subst none
    have empty : reverseDigits base 15 0 = [] := rfl
    cases zero <;> simp [empty, digit, numeral]
  · have positive : xx.toNat ≠ 0 := fun same => none (BitVec.eq_of_toNat_eq same)
    by_cases neg : sgn ∧ xx.toInt < 0
    · have value : (-xx).toNat = xx.toInt.natAbs := by
        rw [BitVec.toNat_neg]
        have known := xx.toInt_eq_toNat_cond
        omega
      have some : xx.toInt.natAbs ≠ 0 := by omega
      have room := Nat.lt_succ_of_le (reverseDigits_length base 15 (-xx).toNat)
      have magnitude := digits (-xx)
      rw [value] at room magnitude
      rw [magnitude] at room
      simp_all [numeral]
    · simp [neg, none, digits, numeral, positive]

/-! ### Output -/

section Output

variable {σ : Type} {put : Put σ} {outbuffer length : Nat} {view : Text → σ}

/-- Putting the characters of a text one after another gives its view, also
through a pointer into the buffer. -/
structure Shows (put : Put σ) (outbuffer length : Nat) (view : Text → σ) :
    Prop where
  next : ∀ text c, put outbuffer length text.length c (view text) = view (text ++ [c])
  shift : ∀ k j c s, put (outbuffer + k) (length - k) j c s = put outbuffer length (k + j) c s

/-- The index and the state after a text, of which nothing is missing up to the
length. -/
def Shown (view : Text → σ) (length : Nat) (text : Text) (outindex : Nat) (s : σ) : Prop :=
  min length outindex = min length text.length ∧
    ∃ shown, s = view shown ∧ shown <+: text ∧ text.take length <+: shown

theorem shown_self (view : Text → σ) (length : Nat) (text : Text) :
    Shown view length text text.length (view text) :=
  ⟨rfl, text, rfl, prefix_rfl, take_prefix ..⟩

/-- Before the length is reached, all is shown. -/
theorem Shown.all {text : Text} {outindex : Nat} {s : σ}
    (known : Shown view length text outindex s) (room : outindex < length) :
    outindex = text.length ∧ s = view text := by
  obtain ⟨same, shown, rfl, within, first⟩ := known
  have here : outindex = text.length := by omega
  rw [take_of_length_le (by omega)] at first
  exact ⟨here, congrArg view (within.eq_of_length_le first.length_le)⟩

/-- Nothing that comes after the length is missing. -/
theorem Shown.append {text : Text} {outindex : Nat} {s : σ}
    (known : Shown view length text outindex s) (full : length ≤ outindex)
    (more : Text) : Shown view length (text ++ more) outindex s := by
  obtain ⟨same, shown, rfl, within, first⟩ := known
  refine ⟨?_, shown, rfl, within.trans (prefix_append ..), ?_⟩
  · rw [length_append]
    omega
  · rwa [take_append_of_le_length (by omega)]

section

variable (shows : Shows put outbuffer length view)
include shows

theorem putString_view (text piece : Text) :
    putString put outbuffer length text.length piece (view text) = view (text ++ piece) := by
  induction piece generalizing text with
  | nil => rw [append_nil, putString]
  | cons c rest ih =>
    have further := ih (text ++ [c])
    rwa [length_append, append_assoc, ← shows.next] at further

theorem putDigits_eq (k j : Nat) (piece : Text) (s : σ) :
    putDigits put (outbuffer + k) (length - k) j piece s =
      putString put outbuffer length (k + j) (piece.take (length - k - j)) s := by
  induction piece generalizing j s with
  | nil => rw [take_nil, putDigits, putString]
  | cons c rest ih =>
    rw [putDigits]
    split
    case isTrue room =>
      rw [ih, shows.shift, show length - k - j = length - k - (j + 1) + 1 by omega,
        take_succ_cons, putString]
      rfl
    case isFalse full => rw [Nat.sub_eq_zero_of_le (by omega), take_zero, putString]

theorem s_printint_shown (zero : Bool) (text : Text) (arg : BitVec 32) (base : Nat) (sgn : Bool)
    (room : text.length < length) (large : 10 ≤ base) :
    let printed := s_printint put zero (outbuffer + text.length)
      (length - text.length) arg base sgn (view text)
    Shown view length (text ++ integer zero arg base sgn) (text.length + printed.1) printed.2 := by
  have digits := s_getReverseDigits_reverse zero arg base sgn large
  have count := congrArg List.length digits
  rw [length_reverse] at count
  dsimp only [s_printint]
  rw [count, digits, putDigits_eq shows, Nat.add_zero, Nat.sub_zero,
    putString_view shows, ← length_append]
  refine ⟨rfl, _, rfl, ?_, ?_⟩
  · exact (prefix_append_right_inj text).mpr ( take_prefix ..)
  · rw [take_append, take_of_length_le (Nat.le_of_lt room)]

theorem convert_shown (zero : Bool)
    (strings : BitVec 32 → Text) (text : Text) (c : BitVec 8) (arg : BitVec 32)
    (room : text.length < length) :
    let next := convert put zero strings outbuffer length c arg text.length
      (view text)
    Shown view length (text ++ conversion zero strings c arg) next.1 next.2 := by
  have plain : ∀ piece : Text, Shown view length (text ++ piece) (text.length + piece.length)
      (putString put outbuffer length text.length piece (view text)) := by
    intro piece
    rw [putString_view shows, ← length_append]
    exact shown_self view length _
  unfold convert conversion
  split_ifs
  · exact s_printint_shown shows zero text arg 10 true room (by decide)
  · exact s_printint_shown shows zero text arg 16 false room (by decide)
  · exact plain null
  · exact plain (strings arg)
  · exact plain [_]
  · exact plain [_]
  · exact plain [37, c]

theorem s_printf_shown (zero : Bool) (strings : BitVec 32 → Text) (fmt : Text) (state : Bool)
    (ap : Nat → BitVec 32) (text : Text) (outindex : Nat) (s : σ)
    (known : Shown view length text outindex s) :
    let printed :=
      s_printf put zero strings outbuffer length fmt state ap outindex s
    Shown view length (text ++ expansion zero strings fmt state ap) printed.1 printed.2 := by
  induction fmt generalizing state ap text outindex s with
  | nil => rwa [expansion, append_nil]
  | cons c fmt ih =>
    rw [s_printf]
    split
    -- the buffer is full, and the rest of the format is not read
    case isFalse full => exact known.append (Nat.not_lt.mp full) _
    case isTrue room =>
      obtain ⟨rfl, rfl⟩ := known.all room
      cases state with
      | true =>
        rw [expansion, ← append_assoc]
        exact ih _ _ _ _ _ (convert_shown shows zero strings text c (ap 0) room)
      | false =>
        rw [expansion, if_neg Bool.false_ne_true]
        split
        · exact ih true ap text _ _ known
        · have step := shown_self view length (text ++ [c])
          rw [← shows.next, length_append] at step
          rw [append_cons]
          exact ih false ap (text ++ [c]) _ _ step

end

end Output

/-- A text in memory. -/
def stored (outbuffer : Nat) (text : Text) (memory : Bytes) : Bytes := fun a =>
  if a < outbuffer then memory a else text[a - outbuffer]?.getD (memory a)

theorem stored_nil (outbuffer : Nat) (memory : Bytes) : stored outbuffer [] memory = memory := by
  ext1 a
  exact ite_self _

theorem stored_append (outbuffer : Nat) (text : Text) (c : BitVec 8) (memory : Bytes) :
    update (stored outbuffer text memory) (outbuffer + text.length) c =
      stored outbuffer (text ++ [c]) memory := by
  ext1 a
  by_cases last : a = outbuffer + text.length
  · rw [last, update_self, stored, if_neg (by omega),
      Nat.add_sub_cancel_left, getElem?_concat_length]
    rfl
  · rw [update_of_ne last, stored, stored]
    split
    case isTrue => rfl
    case isFalse behind =>
      rw [getElem?_append]
      split
      case isTrue => rfl
      case isFalse beyond =>
        rw [getElem?_eq_none (Nat.not_lt.mp beyond),
          getElem?_eq_none (by rw [length_singleton]; omega)]

theorem s_sputc_shows (outbuffer length : Nat) (memory : Bytes) : Shows s_sputc outbuffer length
      fun text => stored outbuffer (text.take length) memory where
  next := by
    intro text c
    rw [s_sputc]
    split
    case isTrue room =>
      rw [take_of_length_le (Nat.le_of_lt room), stored_append,
        take_of_length_le (by rwa [length_append])]
    case isFalse full => rw [take_append_of_le_length (Nat.not_lt.mp full)]
  shift := by
    intro k j c s
    simp only [s_sputc, Nat.lt_sub_iff_add_lt', Nat.add_assoc]

theorem s_putc_shows (length : Nat) : Shows s_putc 0 length id :=
  ⟨fun _ _ => rfl, fun _ _ _ _ => rfl⟩

section

variable (zero : Bool) (strings : BitVec 32 → Text) (outbuffer length n : Nat)
variable (fmt : Text) (ap : Nat → BitVec 32) (memory : Bytes)

theorem s_printf_stored :
    let printed :=
      s_printf s_sputc zero strings outbuffer length fmt false ap 0 memory
    min length printed.1 = min length (expansion zero strings fmt false ap).length ∧
      printed.2 = stored outbuffer ((expansion zero strings fmt false ap).take length) memory := by
  have start := shown_self (fun text => stored outbuffer (text.take length) memory) length []
  rw [take_nil, stored_nil] at start
  obtain ⟨count, shown, same, within, first⟩ := s_printf_shown
    (s_sputc_shows outbuffer length memory) zero strings fmt false ap [] 0
    memory start
  rw [nil_append] at count within first
  have start := first.take length
  rw [take_take, Nat.min_self] at start
  have whole := start.eq_of_length_le (within.take length).length_le
  exact ⟨count, same.trans (by rw [whole])⟩

/-- The value that either copy returns. -/
theorem snprintf_fst : (snprintf zero strings outbuffer n fmt ap memory).1 =
      min (lengthFor n) (expansion zero strings fmt false ap).length :=
  (s_printf_stored zero strings outbuffer (lengthFor n) fmt ap memory).1

variable {n} in
/-- Either copy truncates the text it stands for. -/
theorem snprintf_eq (positive : 1 ≤ n) (int : n < 2 ^ 31) :
    snprintf zero strings outbuffer n fmt ap memory =
      (min (n - 1) (expansion zero strings fmt false ap).length, stored outbuffer
          ((expansion zero strings fmt false ap).take (n - 1) ++ [0]) memory) := by
  have length : lengthFor n = n - 1 := by
    unfold lengthFor
    omega
  obtain ⟨count, same⟩ := s_printf_stored zero strings outbuffer (n - 1) fmt ap memory
  unfold snprintf
  dsimp only
  rw [length, count, same, if_pos (by omega), ← stored_append, length_take]

/-- `snprintf` stores the first `n - 1` characters of the text and a NUL, and
returns their number.  `printf` sends that text. -/
theorem snprintf_truncates (positive : 1 ≤ n) (int : n < 2 ^ 31) :
    snprintf true strings outbuffer n fmt ap memory =
        (min (n - 1) (expansion true strings fmt false ap).length, stored outbuffer
            ((expansion true strings fmt false ap).take (n - 1) ++ [0]) memory) ∧
      ((expansion true strings fmt false ap).length < 2 ^ 30 →
        printf strings fmt ap = expansion true strings fmt false ap) := by
  refine ⟨snprintf_eq true strings outbuffer fmt ap memory positive int, ?_⟩
  intro short
  obtain ⟨_, shown, same, within, first⟩ := s_printf_shown
    (s_putc_shows (lengthFor (2 ^ 30))) true strings fmt false ap [] 0 []
    (shown_self id _ [])
  rw [nil_append] at within first
  have length : lengthFor (2 ^ 30) = 2 ^ 30 - 1 := rfl
  rw [take_of_length_le (by omega)] at first
  exact same.trans (within.eq_of_length_le first.length_le)

end

/-- `%d` of the least integer, in a buffer of four bytes. -/
theorem snprintf_truncates_min :
    snprintf true (fun _ => []) 0 4 [37, 100] (fun _ => 0x80000000) (fun _ => 1) =
        (3, stored 0 [45, 50, 49, 0] fun _ => 1) ∧
      printf (fun _ => []) [37, 100] (fun _ => 0x80000000) =
        [45, 50, 49, 52, 55, 52, 56, 51, 54, 52, 56] := by
  have text : expansion true (fun _ => []) [37, 100] false (fun _ => 0x80000000) =
      [45, 50, 49, 52, 55, 52, 56, 51, 54, 52, 56] := by
    simp [expansion, conversion, integer, numeral, digit]
  obtain ⟨stores, sends⟩ := snprintf_truncates (fun _ => []) 0 4 [37, 100]
    (fun _ => 0x80000000) (fun _ => 1) (by decide) (by decide)
  rw [text] at stores sends
  exact ⟨stores, sends (by decide)⟩

end Xv6.Format
