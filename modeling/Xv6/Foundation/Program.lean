import Mathlib.Tactic.Common

/-!
# Programs with state that may stop

Imperative code is written in a state monad over `Except`: it either returns a
value in a new state or stops for a reason.  This module has the rules of
weakest preconditions for such programs, with one postcondition for returning
and one for stopping.
-/

namespace Foundation
namespace Program

variable {σ ε : Type} {α β : Type}

/-- Run from `state`, the program returns in a state that satisfies `post` or
stops for a reason that satisfies `stops`. -/
def wp (program : StateT σ (Except ε) α) (post : α → σ → Prop) (stops : ε → Prop) (s : σ) : Prop :=
  match program s with
  | .ok (value, next) => post value next
  | .error reason => stops reason

/-- Nothing stops the program. -/
def Never (_ : ε) : Prop :=
  False

variable {post : α → σ → Prop} {stops : ε → Prop} {s : σ} {program : StateT σ (Except ε) α}

/-- A program whose run is known. -/
theorem wp_of_ok {value : α} {next : σ} (returned : program s = .ok (value, next)) :
    wp program post stops s ↔ post value next := by
  unfold wp
  rw [returned]

variable {first : StateT σ (Except ε) β}

/-- A program after one whose run is known. -/
theorem bind_of_ok {value : β} {next : σ}
    (returned : first s = .ok (value, next)) (second : β → StateT σ (Except ε) α) :
    (first >>= second) s = second value next := by
  change ((first s).bind fun pair => second pair.1 pair.2) = _
  rw [returned]
  rfl

@[simp] theorem wp_pure (value : α) : wp (pure value : StateT σ (Except ε) α) post stops s ↔
      post value s :=
  Iff.rfl

@[simp] theorem wp_get {post : σ → σ → Prop} :
    wp (get : StateT σ (Except ε) σ) post stops s ↔ post s s :=
  Iff.rfl

@[simp] theorem wp_set {post : PUnit → σ → Prop} (next : σ) :
    wp (set next : StateT σ (Except ε) PUnit) post stops s ↔ post ⟨⟩ next :=
  Iff.rfl

@[simp] theorem wp_modify {post : PUnit → σ → Prop} (change : σ → σ) :
    wp (modify change : StateT σ (Except ε) PUnit) post stops s ↔ post ⟨⟩ (change s) :=
  Iff.rfl

@[simp] theorem wp_throw (reason : ε) : wp (throw reason : StateT σ (Except ε) α) post stops s ↔
      stops reason :=
  Iff.rfl

/-- Sequential composition. -/
@[simp] theorem wp_bind (first : StateT σ (Except ε) β) (second : β → StateT σ (Except ε) α) :
    wp (first >>= second) post stops s ↔
      wp first (fun value next => wp (second value) post stops next) stops s := by
  unfold wp
  change (match (first s).bind fun pair => second pair.1 pair.2 with
    | .ok (value, next) => post value next
    | .error reason => stops reason) ↔ _
  cases first s with
  | error reason => exact Iff.rfl
  | ok pair => exact Iff.rfl

@[simp] theorem wp_discard {post : PUnit → σ → Prop} (program : StateT σ (Except ε) α) :
    wp (discard program) post stops s ↔
      wp program (fun _ next => post ⟨⟩ next) stops s := by
  change wp (program >>= fun _ => pure ⟨⟩) post stops s ↔ _
  rw [wp_bind]
  rfl

/-- The two branches of a conditional. -/
theorem wp_ite (condition : Prop) [Decidable condition] (first second : StateT σ (Except ε) α) :
    wp (if condition then first else second) post stops s ↔
      (condition → wp first post stops s) ∧ (¬ condition → wp second post stops s) := by
  by_cases holds : condition
  · simp [holds]
  · simp [holds]

/-- Weaker postconditions. -/
theorem wp_mono {weaker : α → σ → Prop} {weakerStops : ε → Prop} (ensured : wp program post stops s)
    (returns : ∀ value next, post value next → weaker value next)
    (stopped : ∀ reason, stops reason → weakerStops reason) : wp program weaker weakerStops s := by
  unfold wp at ensured ⊢
  cases outcome : program s with
  | error reason =>
    rw [outcome] at ensured
    exact stopped reason ensured
  | ok pair =>
    rw [outcome] at ensured
    exact returns pair.1 pair.2 ensured

/-- Two specifications of one program. -/
theorem wp_and {also : α → σ → Prop} (ensured : wp program post stops s)
    (besides : wp program also stops s) :
    wp program (fun value next => post value next ∧ also value next) stops s := by
  unfold wp at ensured besides ⊢
  cases outcome : program s with
  | error reason =>
    rw [outcome] at ensured
    exact ensured
  | ok pair =>
    rw [outcome] at ensured besides
    exact ⟨ensured, besides⟩

/-- A specification of the states in which a program returns is a second one
next to any other. -/
theorem wp_and_returns {also : α → σ → Prop} (ensured : wp program post stops s)
    (besides : wp program also (fun _ => True) s) :
    wp program (fun value next => post value next ∧ also value next) stops s := by
  unfold wp at ensured besides ⊢
  cases outcome : program s with
  | error reason =>
    rw [outcome] at ensured
    exact ensured
  | ok pair =>
    rw [outcome] at ensured besides
    exact ⟨ensured, besides⟩

/-- A program that does not return stops. -/
theorem error_of_wp {reason : ε} (stopped : wp program (fun _ _ => False) (· = reason) s) :
    program s = .error reason := by
  unfold wp at stopped
  cases outcome : program s with
  | error other =>
    rw [outcome] at stopped
    exact congrArg Except.error stopped
  | ok pair =>
    rw [outcome] at stopped
    exact stopped.elim

/-- A program that nothing stops returns. -/
theorem ok_of_wp (returned : wp program post stops s) (never : ∀ reason, ¬ stops reason) :
    ∃ value next, program s = .ok (value, next) ∧ post value next := by
  unfold wp at returned
  cases outcome : program s with
  | error reason =>
    rw [outcome] at returned
    exact absurd returned (never reason)
  | ok pair =>
    rw [outcome] at returned
    exact ⟨pair.1, pair.2, rfl, returned⟩

/-- A program followed by another, from a specification of the first. -/
theorem wp_bind_of {second : β → StateT σ (Except ε) α}
    {middle : β → σ → Prop} (ensured : wp first middle stops s)
    (continues : ∀ value next, middle value next → wp (second value) post stops next) :
    wp (first >>= second) post stops s := by
  rw [wp_bind]
  exact wp_mono ensured continues fun _ => id

end Program
end Foundation
