import Xv6.User.Regex

/-!
# `grep`

The loop of `grep` over what successive `read` calls return, for a stream
without NUL.  A buffer without a newline is dropped, full or not.
-/

namespace Xv6.Grep

open List

/-- The inner loop over the lines of the buffer, from the line up to the
position: what is written, and what follows the last newline. -/
def scan (pattern : Text) : Text → Text → Text × Text
  | line, [] => ([], line)
  | line, c :: rest =>
    if c = 10 then
      let next := scan pattern [] rest
      ((if matchText pattern line then line ++ [10] else []) ++ next.1, next.2)
    else scan pattern (line ++ [c]) rest

/-- `grep`, with the bytes in the buffer before a `read`. -/
def grep (pattern : Text) : Text → List Text → Text
  | _, [] => []
  | pending, piece :: rest =>
    let next := scan pattern [] (pending ++ piece)
    -- `p == buf` when there is no newline
    next.1 ++ grep pattern (if next.2.length = (pending ++ piece).length then [] else next.2) rest

section

variable {pattern line text : Text}

theorem scan_append (other : Text) : scan pattern line (text ++ other) =
      ((scan pattern line text).1 ++ (scan pattern (scan pattern line text).2 other).1,
        (scan pattern (scan pattern line text).2 other).2) := by
  induction text generalizing line with
  | nil => rfl
  | cons c rest ih =>
    rw [cons_append, scan, scan]
    split
    · rw [ih]
      dsimp only
      rw [append_assoc]
    · exact ih

theorem scan_of_notMem (none : 10 ∉ text) : scan pattern line text = ([], line ++ text) := by
  induction text generalizing line with
  | nil => rw [append_nil, scan]
  | cons c rest ih =>
    obtain ⟨other, none⟩ := not_or.mp (mem_cons.not.mp none)
    rw [scan, if_neg (Ne.symm other), ih none, append_assoc]
    rfl

theorem scan_newline (rest : Text) : scan pattern line (10 :: rest) =
      ((if matchText pattern line then line ++ [10] else []) ++
        (scan pattern [] rest).1, (scan pattern [] rest).2) := by
  rw [scan, if_pos rfl]

/-- The rest is shorter than the text when this has a newline. -/
theorem length_scan (some : 10 ∈ text) : (scan pattern line text).2.length < text.length := by
  induction text generalizing line with
  | nil => cases some
  | cons c rest ih =>
    by_cases later : 10 ∈ rest
    · rw [scan, length_cons]
      split <;> exact Nat.lt_succ_of_lt (ih later)
    · cases some with
      | head => rw [scan_newline, scan_of_notMem later]; exact Nat.lt_succ_self _
      | tail _ member => exact absurd member later

theorem grep_cons {pending piece : Text} (rest : List Text) (unbroken : 10 ∉ pending) :
    grep pattern pending (piece :: rest) =
      if 10 ∈ piece then
        (scan pattern pending piece).1 ++ grep pattern (scan pattern pending piece).2 rest
      else grep pattern [] rest := by
  have whole : scan pattern [] (pending ++ piece) = scan pattern pending piece := by
    rw [scan_append, scan_of_notMem unbroken]
    rfl
  rw [grep, whole, length_append]
  by_cases some : 10 ∈ piece
  · have shorter := @length_scan pattern pending piece some
    rw [if_pos some, if_neg (by omega)]
  · rw [if_neg some, scan_of_notMem some, length_append, if_pos rfl, nil_append]

theorem scan_snd_notMem (none : 10 ∉ line) : 10 ∉ (scan pattern line text).2 := by
  induction text generalizing line with
  | nil => exact none
  | cons c rest ih =>
    rw [scan]
    split
    case isTrue => exact ih not_mem_nil
    case isFalse other =>
      refine ih fun member => ?_
      rcases mem_append.mp member with before | last
      · exact none before
      · exact other (mem_singleton.mp last).symm

theorem grep_of_notMem {pieces : List Text} (none : ∀ piece ∈ pieces, 10 ∉ piece)
    (pending : Text) (unbroken : 10 ∉ pending) : grep pattern pending pieces = [] := by
  induction pieces generalizing pending with
  | nil => rfl
  | cons piece rest ih =>
    obtain ⟨first, others⟩ := forall_mem_cons.mp none
    rw [grep_cons rest unbroken, if_neg first]
    exact ih others [] not_mem_nil

end

/-- A piece without a newline is followed by such pieces only. -/
def Kept (pieces : List Text) : Prop :=
  pieces.Pairwise fun piece later => 10 ∈ piece ∨ 10 ∉ later

theorem grep_of_kept {pattern : Text} {pieces : List Text} (kept : Kept pieces)
    {pending : Text} (unbroken : 10 ∉ pending) :
    grep pattern pending pieces = (scan pattern pending pieces.flatten).1 := by
  induction kept generalizing pending with
  | nil => rfl
  | @cons piece rest first _ ih =>
    rw [grep_cons rest unbroken, flatten_cons, scan_append]
    split
    case isTrue some => rw [ih (scan_snd_notMem unbroken)]
    case isFalse none =>
      have others : ∀ later ∈ rest, 10 ∉ later := fun later member =>
        (first later member).resolve_left none
      have flat : 10 ∉ rest.flatten := fun member =>
        let ⟨later, inside, here⟩ := mem_flatten.mp member
        others later inside here
      rw [grep_of_notMem others [] not_mem_nil, scan_of_notMem none, scan_of_notMem flat]
      rfl

theorem matchText_nil (text : Text) : matchText [] text := by
  cases text <;> rfl

/-- The empty pattern matches every line: bytes before the first newline are
written with it. -/
theorem scan_nil {text : Text} (some : 10 ∈ text) (line : Text) :
    (scan [] line text).1 = line ++ (scan [] [] text).1 := by
  induction text generalizing line with
  | nil => cases some
  | cons c rest ih =>
    rw [scan, scan]
    split
    case isTrue => rw [if_pos (matchText_nil _), if_pos (matchText_nil _)]; simp
    case isFalse other =>
      have later : 10 ∈ rest := (mem_cons.mp some).resolve_left (Ne.symm other)
      rw [ih later, ih later ([] ++ [c]), nil_append, append_assoc]

/-- Nothing is written twice, and all of it only if no bytes are dropped. -/
theorem length_grep_nil {pieces : List Text} (filled : ∀ piece ∈ pieces, piece ≠ [])
    {pending : Text} (unbroken : 10 ∉ pending) :
    (grep [] pending pieces).length ≤ (scan [] pending pieces.flatten).1.length ∧
      ((grep [] pending pieces).length =
        (scan [] pending pieces.flatten).1.length → Kept pieces) := by
  induction pieces generalizing pending with
  | nil => exact ⟨Nat.le_refl _, fun _ => .nil⟩
  | cons piece rest ih =>
    obtain ⟨first, others⟩ := forall_mem_cons.mp filled
    rw [grep_cons rest unbroken, flatten_cons, scan_append]
    split
    case isTrue some =>
      obtain ⟨most, sharp⟩ := ih others (@scan_snd_notMem [] pending piece unbroken)
      rw [length_append, length_append]
      refine ⟨Nat.add_le_add_left most _, fun same => ?_⟩
      exact .cons (fun _ _ => .inl some) (sharp (Nat.add_left_cancel same))
    case isFalse none =>
      obtain ⟨most, sharp⟩ := ih others (@not_mem_nil _ 10)
      have lost := length_pos_iff.mpr first
      rw [scan_of_notMem none, nil_append]
      by_cases later : 10 ∈ rest.flatten
      · -- what was dropped is missing from the next line
        rw [scan_nil later, length_append, length_append]
        exact ⟨by omega, fun same => by omega⟩
      · rw [scan_of_notMem later] at most sharp ⊢
        have silent : ∀ piece ∈ rest, 10 ∉ piece := fun piece member here =>
          later (mem_flatten.mpr ⟨piece, member, here⟩)
        refine ⟨most, fun same => .cons (fun piece member => ?_) (sharp same)⟩
        exact .inr (silent piece member)

/-- What `grep` should write for a stream: its lines that the pattern matches,
each with its newline. -/
def expected (pattern : Text) (bodies : List Text) : Text :=
  (bodies.filter (matchText pattern)).flatMap (· ++ [10])

theorem scan_lines {pattern : Text} {bodies : List Text} {tail : Text}
    (closed : ∀ body ∈ bodies, 10 ∉ body) (last : 10 ∉ tail) :
    (scan pattern [] (bodies.flatMap (· ++ [10]) ++ tail)).1 = expected pattern bodies := by
  unfold expected
  induction bodies with
  | nil => rw [flatMap_nil, nil_append, scan_of_notMem last]; rfl
  | cons body rest ih =>
    obtain ⟨first, others⟩ := forall_mem_cons.mp closed
    rw [flatMap_cons, append_assoc, append_assoc, scan_append, scan_of_notMem first]
    dsimp only
    rw [nil_append, nil_append, singleton_append, scan_newline, ih others, filter_cons]
    split <;> simp

/-- For a stream of lines in pieces, `grep` writes what it should for every
pattern exactly when no piece without a newline comes before one with it. -/
theorem grep_iff {bodies pieces : List Text} {tail : Text} (filled : ∀ piece ∈ pieces, piece ≠ [])
    (stream : pieces.flatten = bodies.flatMap (· ++ [10]) ++ tail)
    (closed : ∀ body ∈ bodies, 10 ∉ body) (last : 10 ∉ tail) :
    (∀ pattern, grep pattern [] pieces = expected pattern bodies) ↔ Kept pieces := by
  constructor
  · intro right
    apply (length_grep_nil filled not_mem_nil).2
    rw [right, stream, scan_lines closed last]
  · intro kept pattern
    rw [grep_of_kept kept not_mem_nil, stream, scan_lines closed last]

theorem grep_iff_two : Kept [[97, 10], [98, 10]] ∧ ∀ pattern,
      grep pattern [] [[97, 10], [98, 10]] = expected pattern [[97], [98]] :=
  have kept : Kept [[97, 10], [98, 10]] := by
    unfold Kept
    decide
  ⟨kept, (@grep_iff _ _ [] (by simp) rfl (by simp) (by simp)).mpr kept⟩

/-- The line `ab` in two pieces is not found by `a`. -/
theorem grep_split : grep [97] [] [[97], [98, 10]] = [] ∧
      grep [97] [] [[97, 98, 10]] = [97, 98, 10] := by
  decide

end Xv6.Grep
