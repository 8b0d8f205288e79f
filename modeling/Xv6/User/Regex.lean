import Mathlib.Data.List.Basic
import Mathlib.Tactic.Common

/-!
# The matcher of `grep`

`match`, `matchhere` and `matchstar` try every split of the text.  The meaning
of a pattern is a sequence of items, and what these match is a relation.
-/

namespace Xv6.Grep

/-- A string, without the NUL at its end. -/
abbrev Text := List (BitVec 8)

/-- A character of a pattern against one of the text: `.` is any. -/
def admits (c t : BitVec 8) : Bool := c = 46 ∨ c = t

/-- The loop of `match` and of `matchstar`: a test at each position, as long as
the character there allows to go on. -/
def search (further : BitVec 8 → Bool) (here : Text → Bool) : Text → Bool
  | [] => here []
  | t :: text => here (t :: text) || (further t && search further here text)

/-- `c*` and then the rest of the pattern. -/
def matchstar (c : BitVec 8) (here : Text → Bool) : Text → Bool :=
  search (admits c) here

/-- One character and then the rest of the pattern. -/
def matchchar (c : BitVec 8) (here : Text → Bool) : Text → Bool
  | [] => false
  | t :: text => admits c t && here text

/-- The pattern at the beginning of the text. -/
def matchhere : Text → Text → Bool
  | [], _ => true
  | [r], text => if r = 36 then text.isEmpty else matchchar r (matchhere []) text
  | r :: s :: re, text =>
    if s = 42 then matchstar r (matchhere re) text
    else matchchar r (matchhere (s :: re)) text

/-- `match`. -/
def matchText (re text : Text) : Bool :=
  if re.head? = some 94 then matchhere re.tail text
  else search (fun _ => true) (matchhere re) text

/-- An item of a pattern. -/
inductive Item where
  | one (c : BitVec 8)
  | many (c : BitVec 8)
  | final

/-- The items of a pattern without `^`. -/
def items : Text → List Item
  | [] => []
  | [r] => if r = 36 then [.final] else [.one r]
  | r :: s :: re => if s = 42 then .many r :: items re else .one r :: items (s :: re)

/-- Items match a word, when a given text comes after it. -/
inductive Accepts (after : Text) : List Item → Text → Prop where
  | nil : Accepts after [] []
  | one {c t : BitVec 8} {rest : List Item} {word : Text} :
      admits c t → Accepts after rest word → Accepts after (.one c :: rest) (t :: word)
  | many {c : BitVec 8} {rest : List Item} {run word : Text} :
      (∀ t ∈ run, admits c t) → Accepts after rest word →
        Accepts after (.many c :: rest) (run ++ word)
  | final : after = [] → Accepts after [.final] []

/-- The items match at the beginning of a text. -/
def Begins (list : List Item) (text : Text) : Prop :=
  ∃ word after, text = word ++ after ∧ Accepts after list word

theorem search_iff (further : BitVec 8 → Bool) (here : Text → Bool) (text : Text) :
    search further here text ↔
      ∃ run after, text = run ++ after ∧ (∀ t ∈ run, further t) ∧ here after := by
  induction text with
  | nil =>
    constructor
    · exact fun found => ⟨[], [], rfl, List.forall_mem_nil _, found⟩
    · rintro ⟨run, after, parts, -, found⟩
      rwa [(List.append_eq_nil_iff.mp parts.symm).2] at found
  | cons t text ih =>
    rw [search, Bool.or_eq_true, Bool.and_eq_true, ih]
    constructor
    · rintro (found | ⟨first, run, after, rfl, all, found⟩)
      · exact ⟨[], _, rfl, List.forall_mem_nil _, found⟩
      · exact ⟨t :: run, after, rfl, List.forall_mem_cons.mpr ⟨first, all⟩, found⟩
    · rintro ⟨run, after, parts, all, found⟩
      cases run with
      | nil => exact .inl (parts ▸ found)
      | cons first run =>
        obtain ⟨rfl, rfl⟩ := List.cons_eq_cons.mp parts
        obtain ⟨first, all⟩ := List.forall_mem_cons.mp all
        exact .inr ⟨first, run, after, rfl, all, found⟩

theorem begins_many (c : BitVec 8) (rest : List Item) (text : Text) :
    Begins (.many c :: rest) text ↔ ∃ run after,
      text = run ++ after ∧ (∀ t ∈ run, admits c t) ∧ Begins rest after := by
  constructor
  · rintro ⟨_, after, rfl, accepts⟩
    cases accepts with
    | many all accepts => exact ⟨_, _, List.append_assoc .., all, _, _, rfl, accepts⟩
  · rintro ⟨run, _, rfl, all, word, after, rfl, accepts⟩
    exact ⟨_, _, (List.append_assoc ..).symm, .many all accepts⟩

theorem matchchar_iff {here : Text → Bool} {rest : List Item} (c : BitVec 8)
    (text : Text) (known : ∀ text, here text ↔ Begins rest text) :
    matchchar c here text ↔ Begins (.one c :: rest) text := by
  constructor
  · intro found
    cases text with
    | nil => cases found
    | cons t text =>
      rw [matchchar, Bool.and_eq_true, known] at found
      obtain ⟨first, word, after, rfl, accepts⟩ := found
      exact ⟨t :: word, after, rfl, .one first accepts⟩
  · rintro ⟨_, after, rfl, accepts⟩
    cases accepts with
    | one first accepts =>
      rw [List.cons_append, matchchar, Bool.and_eq_true, known]
      exact ⟨first, _, after, rfl, accepts⟩

theorem matchhere_iff (re text : Text) : matchhere re text ↔ Begins (items re) text := by
  induction re using items.induct generalizing text with
  | case1 => exact iff_of_true rfl ⟨[], text, rfl, .nil⟩
  | case2 =>
    rw [matchhere, if_pos rfl, items, if_pos rfl, List.isEmpty_iff]
    constructor
    · exact fun ended => ⟨[], [], ended, .final rfl⟩
    · rintro ⟨word, after, rfl, accepts⟩
      cases accepts with
      | final ended => exact ended
  | case3 r other =>
    rw [matchhere, if_neg other, items, if_neg other]
    exact matchchar_iff r text fun text =>
      iff_of_true rfl ⟨[], text, rfl, .nil⟩
  | case4 r re ih =>
    rw [matchhere, if_pos rfl, items, if_pos rfl, begins_many, matchstar, search_iff]
    simp only [ih]
  | case5 r s re other ih =>
    rw [matchhere, if_neg other, items, if_neg other]
    exact matchchar_iff r text ih

/-- `match` returns 1 exactly when the items of the pattern match some part of
the text, one at its start if the pattern begins with `^`. -/
theorem matchText_iff (re text : Text) : matchText re text ↔
      ∃ before word after, text = before ++ word ++ after ∧
        if re.head? = some 94 then
          before = [] ∧ Accepts after (items re.tail) word
        else Accepts after (items re) word := by
  unfold matchText
  by_cases anchored : re.head? = some 94
  · simp only [if_pos anchored, matchhere_iff]
    constructor
    · rintro ⟨word, after, rfl, accepts⟩
      exact ⟨[], word, after, rfl, rfl, accepts⟩
    · rintro ⟨_, word, after, rfl, rfl, accepts⟩
      exact ⟨word, after, rfl, accepts⟩
  · simp only [if_neg anchored, search_iff, matchhere_iff]
    constructor
    · rintro ⟨before, _, rfl, -, word, after, rfl, accepts⟩
      exact ⟨before, word, after, (List.append_assoc ..).symm, accepts⟩
    · rintro ⟨before, word, after, rfl, accepts⟩
      exact ⟨before, word ++ after, List.append_assoc .., fun _ _ => trivial,
        word, after, rfl, accepts⟩

end Xv6.Grep
