import Mathlib.Data.List.Basic
import Mathlib.Tactic.Common

/-!
# The multiprocessor table

The loop of `mpinit` over the entries of the configuration table.  Its `break`
for an unknown entry leaves the `switch` only, with the cursor where it was.
-/

namespace Xv6.Mp

/-- Memory from the start of the configuration table. -/
abbrev Table := Nat → BitVec 8

/-- `conf->length`. -/
def Table.length (table : Table) : Nat :=
  (table 4).toNat + 256 * (table 5).toNat

/-- `sum`. -/
def sum (table : Table) (len : Nat) : BitVec 8 :=
  (List.range len).foldl (fun total i => total + table i) 0

/-- The tests of `mpconfig`. -/
def mpconfig (table : Table) : Bool :=
  (List.range 4).map table = [80, 67, 77, 80] ∧
    (table 6 = 1 ∨ table 6 = 4) ∧ sum table table.length = 0

/-- `NCPU`. -/
def ncpu : Nat := 8

/-- The cursor and what the loop finds. -/
structure Walk where
  p : Nat
  apicids : List (BitVec 8)
  ioapicid : BitVec 8
  ismp : Bool

/-- One pass through the `switch`: the entry types are `MPPROC`, `MPIOAPIC`,
and `MPBUS`, `MPIOINTR` and `MPLINTR`. -/
def Walk.next (table : Table) (walk : Walk) : Walk :=
  match (table walk.p).toNat with
  | 0 =>
    { walk with
      p := walk.p + 20
      apicids :=
        if walk.apicids.length < ncpu then walk.apicids ++ [table (walk.p + 1)]
        else walk.apicids }
  | 2 => { walk with p := walk.p + 8, ioapicid := table (walk.p + 1) }
  | 1 | 3 | 4 => { walk with p := walk.p + 8 }
  | _ => { walk with ismp := false }

/-- The loop, for a number of passes. -/
def loop (table : Table) : Nat → Walk → Option Walk
  | 0, _ => none
  | fuel + 1, walk =>
    if walk.p < table.length then loop table fuel (walk.next table)
    else some walk

/-- The state before the loop: `p` is behind the header. -/
def Walk.start : Walk := ⟨44, [], 0, true⟩

inductive Panic where
  | expectSmp
  | noSuitableMachine

/-- `mpinit` up to the interrupt mode register. -/
def mpinit (table : Table) (fuel : Nat) : Option (Except Panic Walk) :=
  if mpconfig table then
    (loop table fuel .start).map fun walk =>
      if walk.ismp then .ok walk else .error .noSuitableMachine
  else some (.error .expectSmp)

/-- The states at the head of the loop. -/
inductive Reached (table : Table) : Walk → Prop where
  | start : Reached table .start
  | next {walk : Walk} :
      Reached table walk → walk.p < table.length → Reached table (walk.next table)

/-- The walk comes to an entry of a type that is not one of the five. -/
def MeetsUnknown (table : Table) : Prop :=
  ∃ walk, Reached table walk ∧ walk.p < table.length ∧ 4 < (table walk.p).toNat

section

variable {table : Table} {walk final : Walk} {fuel : Nat}

theorem next_unknown (unknown : 4 < (table walk.p).toNat) :
    walk.next table = { walk with ismp := false } := by
  unfold Walk.next
  split <;> first | omega | rfl

theorem next_known (known : ¬ 4 < (table walk.p).toNat) :
    walk.p < (walk.next table).p ∧ (walk.next table).ismp = walk.ismp := by
  unfold Walk.next
  split <;> first | exact ⟨Nat.lt_add_of_pos_right (by decide), rfl⟩ | grind

theorem next_apicids (within : walk.apicids.length ≤ ncpu) :
    (walk.next table).apicids.length ≤ ncpu := by
  unfold Walk.next
  split
  · dsimp only
    split
    case isTrue room =>
      rw [List.length_append]
      exact room
    case isFalse => exact within
  all_goals exact within

theorem Reached.ncpu (reached : Reached table walk) : walk.apicids.length ≤ ncpu := by
  induction reached with
  | start => exact Nat.zero_le _
  | next _ _ ih => exact next_apicids ih

theorem loop_unknown (inside : walk.p < table.length)
    (unknown : 4 < (table walk.p).toNat) : loop table fuel walk = none := by
  induction fuel generalizing walk with
  | zero => rfl
  | succ fuel ih =>
    rw [loop, if_pos inside, next_unknown unknown]
    exact ih inside unknown

theorem loop_ismp (ends : loop table fuel walk = some final) : final.ismp = walk.ismp := by
  induction fuel generalizing walk with
  | zero => cases ends
  | succ fuel ih =>
    by_cases inside : walk.p < table.length
    · by_cases unknown : 4 < (table walk.p).toNat
      · rw [loop_unknown inside unknown] at ends
        cases ends
      · rw [loop, if_pos inside] at ends
        exact (ih ends).trans (next_known unknown).2
    · rw [loop, if_neg inside] at ends
      cases ends
      rfl

/-- When the loop ends, it also ends from each state it goes through. -/
theorem Reached.ends (reached : Reached table walk) (ends : loop table fuel .start = some final) :
    ∃ left, loop table left walk = some final := by
  induction reached with
  | start => exact ⟨fuel, ends⟩
  | next _ inside ih =>
    obtain ⟨left, ends⟩ := ih
    cases left with
    | zero => cases ends
    | succ left =>
      rw [loop, if_pos inside] at ends
      exact ⟨left, ends⟩

/-- Each known entry brings the cursor nearer to the end. -/
theorem loop_ends (known : ¬ MeetsUnknown table) (reached : Reached table walk)
    (enough : table.length - walk.p < fuel) : ∃ final, loop table fuel walk = some final := by
  induction fuel generalizing walk with
  | zero => omega
  | succ fuel ih =>
    by_cases inside : walk.p < table.length
    · have further := next_known fun unknown =>
        known ⟨walk, reached, inside, unknown⟩
      rw [loop, if_pos inside]
      exact ih (reached.next inside) (by omega)
    · exact ⟨walk, by rw [loop, if_neg inside]⟩

end

/-- For a table that `mpconfig` accepts, `mpinit` comes to an end exactly when
its walk meets no unknown entry.  It never finds the machine unsuitable, and
the processors found fit their array. -/
theorem mpinit_ends_iff (table : Table) (valid : mpconfig table) :
    ((∃ fuel, mpinit table fuel ≠ none) ↔ ¬ MeetsUnknown table) ∧
      (∀ fuel, mpinit table fuel ≠ some (.error .noSuitableMachine)) ∧
      ∀ walk, Reached table walk → walk.apicids.length ≤ ncpu := by
  simp only [mpinit, if_pos valid]
  refine ⟨⟨fun ends => ?_, fun known => ?_⟩, fun fuel => ?_, fun _ => Reached.ncpu⟩
  · obtain ⟨fuel, ends⟩ := ends
    rintro ⟨walk, reached, inside, unknown⟩
    cases result : loop table fuel .start with
    | none => exact ends (congrArg _ result)
    | some final =>
      obtain ⟨left, ends⟩ := reached.ends result
      rw [loop_unknown inside unknown] at ends
      cases ends
  · obtain ⟨final, ends⟩ := loop_ends known .start (Nat.lt_succ_self _)
    refine ⟨(table.length - Walk.start.p).succ, ?_⟩
    rw [ends]
    exact Option.some_ne_none _
  · cases result : loop table fuel .start with
    | none => exact (Option.some_ne_none _).symm
    | some final =>
      have ismp : final.ismp = true := loop_ismp result
      rw [Option.map_some, if_pos ismp]
      intro same
      cases same

/-- A table of 45 bytes, with the checksum in the header. -/
def tableOf (checksum entry : BitVec 8) : Table := fun i =>
  [80, 67, 77, 80, 45, 0, 1, checksum].getD i (if i = 44 then entry else 0)

theorem mpinit_ends_iff_bus : ¬ MeetsUnknown (tableOf 161 1) ∧
      (∀ fuel, mpinit (tableOf 161 1) fuel ≠ some (.error .noSuitableMachine)) ∧
      ∀ walk, Reached (tableOf 161 1) walk → walk.apicids.length ≤ ncpu := by
  obtain ⟨known, others⟩ := mpinit_ends_iff (tableOf 161 1) (by decide +kernel)
  exact ⟨known.mp ⟨2, by decide +kernel⟩, others⟩

theorem mpinit_unknown : mpconfig (tableOf 157 5) ∧ MeetsUnknown (tableOf 157 5) ∧
      ∀ fuel, mpinit (tableOf 157 5) fuel = none := by
  have valid : mpconfig (tableOf 157 5) := by decide +kernel
  refine ⟨valid, ⟨_, .start, by decide, by decide⟩, fun fuel => ?_⟩
  rw [mpinit, if_pos valid, loop_unknown (by decide) (by decide)]
  rfl

end Xv6.Mp
