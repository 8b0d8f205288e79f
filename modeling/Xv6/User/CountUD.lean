import Mathlib.Data.BitVec
import Mathlib.Data.List.Basic
import Mathlib.Tactic.Common

/-!
# `countUD`

The loop of `countUD` classifies its buffer after every `read`, also after the
one that returns 0 and leaves the buffer as it was.
-/

namespace Xv6.CountUD

open List

/-- The characters that are counted. -/
def isUD (byte : BitVec 8) : Bool :=
  byte = 68 ∨ byte = 85 ∨ byte = 117 ∨ byte = 100

/-- The counters of `main`. -/
structure Counts where
  udCount : Nat
  otherCount : Nat
  deriving DecidableEq

/-- The `if` in the loop. -/
def Counts.classify (counts : Counts) (buffer : BitVec 8) : Counts :=
  if isUD buffer then { counts with udCount := counts.udCount + 1 }
  else { counts with otherCount := counts.otherCount + 1 }

/-- The loop for one file, given what is left to read and the buffer. -/
def readLoop : List (BitVec 8) → BitVec 8 → Counts → Counts
  | [], buffer, counts => counts.classify buffer
  | byte :: rest, _, counts => readLoop rest byte (counts.classify byte)

/-- The counters at the end of `main`, for the contents of the files. -/
def main (files : List (List (BitVec 8))) : Counts :=
  files.foldl (fun counts file => readLoop file 0 counts) ⟨0, 0⟩

/-- The last byte of a file is counted twice. -/
theorem readLoop_eq (file : List (BitVec 8)) (buffer : BitVec 8) (counts : Counts) :
    (readLoop file buffer counts).udCount = counts.udCount +
        file.countP isUD + (if isUD (file.getLastD buffer) then 1 else 0) ∧
      (readLoop file buffer counts).udCount + (readLoop file buffer counts).otherCount =
        counts.udCount + counts.otherCount + (file.length + 1) := by
  induction file generalizing buffer counts with
  | nil =>
    unfold readLoop Counts.classify
    cases known : isUD buffer with
    | false => simp [known]; omega
    | true => simp [known]; omega
  | cons byte rest ih =>
    have step := ih byte (counts.classify byte)
    rw [readLoop, getLastD_cons, countP_cons, length_cons]
    unfold Counts.classify at step ⊢
    cases known : isUD byte with
    | false => simp_all; omega
    | true => simp_all; omega

theorem foldl_readLoop (files : List (List (BitVec 8))) (counts : Counts) :
    let final := files.foldl (fun counts file => readLoop file 0 counts) counts
    final.udCount = counts.udCount + (files.map (·.countP isUD)).sum +
        files.countP (fun file => isUD (file.getLastD 0)) ∧
      final.udCount + final.otherCount = counts.udCount + counts.otherCount +
        (files.map List.length).sum + files.length := by
  induction files generalizing counts with
  | nil => exact ⟨rfl, rfl⟩
  | cons file rest ih =>
    obtain ⟨first, total⟩ := readLoop_eq file 0 counts
    obtain ⟨ud, all⟩ := ih (readLoop file 0 counts)
    simp only [foldl_cons, map_cons, sum_cons, countP_cons, length_cons]
    constructor <;> omega

/-- The number of these characters is right exactly when no file ends with one
of them, and the total exactly when there is no file. -/
theorem counts_iff (files : List (List (BitVec 8))) :
    ((main files).udCount = (files.map (·.countP isUD)).sum ↔
        ∀ file ∈ files, ¬ isUD (file.getLastD 0)) ∧
      ((main files).udCount + (main files).otherCount =
        (files.map List.length).sum ↔ files = []) := by
  obtain ⟨ud, all⟩ := foldl_readLoop files ⟨0, 0⟩
  unfold main
  constructor
  · rw [← countP_eq_zero]
    dsimp only at ud
    omega
  · rw [← length_eq_zero_iff]
    dsimp only at all
    omega

/-- One file with the character `U`. -/
theorem counts_U : main [[85]] = ⟨2, 0⟩ ∧ ([[85]].map (·.countP isUD)).sum = 1 := by
  decide

end Xv6.CountUD
