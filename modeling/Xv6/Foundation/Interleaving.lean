import Xv6.Foundation.Transition

/-!
# Interleaved code that accounts for what it holds

Processes run calls whose code performs operations on shared data one at a time;
between two operations of one process any others may happen.  What a process
holds is accounted for by a value that each operation changes.

If every operation keeps the accounts, and the code of every call ends with
nothing held, then the accounts are right in every state of every run, and
whoever runs no call holds nothing.
-/

namespace Foundation
namespace Interleaving

open Function
open Transition (Along run_invariant_along)

/-- Code that performs an operation and goes on with the reply. -/
inductive Code (Op : Type) (Reply : Op → Type) (α : Type)
  | done (value : α)
  | act (op : Op) (next : Reply op → Code Op Reply α)

variable {Op : Type} {Reply : Op → Type} {α β : Type}

namespace Code

/-- One piece of code after another. -/
def bind : Code Op Reply α → (α → Code Op Reply β) → Code Op Reply β
  | done value, second => second value
  | act op next, second => act op fun reply => (next reply).bind second

instance : Monad (Code Op Reply) where
  pure := done
  bind := bind

/-- One operation. -/
def perform (op : Op) : Code Op Reply (Reply op) :=
  act op done

/-- The code that is left, if there is some. -/
def rest? : Code Op Reply α → Option (Code Op Reply α)
  | done _ => none
  | act op next => some (act op next)

end Code

/-- Operations on shared data, which may depend on a choice, and calls. -/
structure Machine (Process Op : Type) (Reply : Op → Type) (Shared Call : Type) where
  perform : Process → (op : Op) → Nat → Shared → Option (Reply op × Shared)
  /-- The process may make calls. -/
  alive : Shared → Process → Bool
  body : Process → Call → Code Op Reply Int

/-- The shared data, and the code that each process has to run. -/
structure State (Process Op : Type) (Reply : Op → Type) (Shared : Type) where
  shared : Shared
  code : Process → Option (Code Op Reply Int)

/-- What happens next. -/
inductive Action (Process Call : Type)
  | call (proc : Process) (call : Call)
  /-- The process performs its next operation. -/
  | go (proc : Process) (choice : Nat)

variable {Process Shared Call Held : Type}

namespace State

variable [DecidableEq Process]

/-- One step of the system. -/
def step (machine : Machine Process Op Reply Shared Call) (s : State Process Op Reply Shared) :
    Action Process Call → Option (State Process Op Reply Shared)
  | .call proc call =>
    if (s.code proc).isNone ∧
        machine.alive s.shared proc = true then
      some { s with
        code := Function.update s.code proc (machine.body proc call).rest? }
    else none
  | .go proc choice =>
    match s.code proc with
    | some (.act op next) =>
      match machine.perform proc op choice s.shared with
      | some (reply, shared) =>
        some
          { shared := shared
            code := Function.update s.code proc (next reply).rest? }
      | none => none
    | _ => none

end State

/-- Nobody runs a call. -/
def idle (shared : Shared) : State Process Op Reply Shared where
  shared := shared
  code := fun _ => none

/-! ## Accounts -/

/-- Rules for what a process holds. -/
structure Rules (Op : Type) (Reply : Op → Type) (Held : Type) where
  /-- Who holds this may perform the operation. -/
  allowed : Op → Held → Prop
  /-- The reply can come. -/
  possible : (op : Op) → Held → Reply op → Prop
  after : (op : Op) → Reply op → Held → Held
  /-- Nothing is held that a call must give back. -/
  rested : Held → Prop

namespace Rules

variable (rules : Rules Op Reply Held)

/-- The code follows the rules and ends with what `post` says. -/
def Pays (post : α → Held → Prop) : Code Op Reply α → Held → Prop
  | .done value, held => post value held
  | .act op next, held => rules.allowed op held ∧ ∀ reply, rules.possible op held reply →
        Pays post (next reply) (rules.after op reply held)

variable {rules} {post : α → Held → Prop} {held : Held}

/-- An operation before other code. -/
theorem pays_perform_bind {op : Op} {next : Reply op → Code Op Reply α} :
    rules.Pays post (Code.perform op >>= next) held ↔
      rules.allowed op held ∧ ∀ reply, rules.possible op held reply →
        rules.Pays post (next reply) (rules.after op reply held) :=
  Iff.rfl

/-- Sequential composition. -/
@[simp] theorem pays_bind {post : β → Held → Prop}
    (first : Code Op Reply α) (second : α → Code Op Reply β) :
    rules.Pays post (first >>= second) held ↔
      rules.Pays (fun value held => rules.Pays post (second value) held) first held := by
  change rules.Pays post (first.bind second) held ↔ _
  induction first generalizing held with
  | done value => rfl
  | act op next ih =>
    exact and_congr_right fun _ => forall_congr' fun reply =>
      imp_congr_right fun _ => ih reply

/-- Weaker postconditions. -/
theorem Pays.mono {weaker : α → Held → Prop} {code : Code Op Reply α}
    (pays : rules.Pays post code held)
    (implies : ∀ value held, post value held → weaker value held) :
    rules.Pays weaker code held := by
  induction code generalizing held with
  | done value => exact implies value held pays
  | act op next ih =>
    exact ⟨pays.1, fun reply possible =>
      ih reply (pays.2 reply possible)⟩

/-- Code after code whose end is known. -/
theorem Pays.bind {post : β → Held → Prop} {middle : α → Held → Prop}
    {first : Code Op Reply α} {second : α → Code Op Reply β} (pays : rules.Pays middle first held)
    (continues : ∀ value held, middle value held → rules.Pays post (second value) held) :
    rules.Pays post (first >>= second) held :=
  (pays_bind first second).mpr (pays.mono continues)

end Rules

variable [DecidableEq Process]
variable {machine : Machine Process Op Reply Shared Call} {rules : Rules Op Reply Held}
variable {accounts : Shared → (Process → Held) → Prop} {admits : Shared → Op → Prop}

/-- Admitted operations keep the accounts, and calls follow the rules. -/
structure Sound (machine : Machine Process Op Reply Shared Call)
    (rules : Rules Op Reply Held) (accounts : Shared → (Process → Held) → Prop)
    (admits : Shared → Op → Prop) : Prop where
  /-- An operation changes what its process holds, and possibly what somebody
  holds who may do nothing and rests afterwards. -/
  perform : ∀ {shared next held proc op choice reply}, accounts shared held → admits shared op →
    rules.allowed op (held proc) →
    machine.perform proc op choice shared = some (reply, next) →
    rules.possible op (held proc) reply ∧ ∃ held', accounts next held' ∧
        held' proc = rules.after op reply (held proc) ∧
        ∀ other, other ≠ proc → held' other = held other ∨
          (∀ op, ¬ rules.allowed op (held other)) ∧
            rules.rested (held other) ∧ rules.rested (held' other)
  body : ∀ {shared held proc} (call : Call),
    accounts shared held → machine.alive shared proc = true →
    rules.rested (held proc) →
    rules.Pays (fun _ => rules.rested) (machine.body proc call) (held proc)

/-- The rest of a call pays, and who runs no call rests. -/
def Due (rules : Rules Op Reply Held) : Option (Code Op Reply Int) → Held → Prop
  | none, held => rules.rested held
  | some code, held => rules.Pays (fun _ => rules.rested) code held

theorem due_rest? {code : Code Op Reply Int} {held : Held}
    (pays : rules.Pays (fun _ => rules.rested) code held) : Due rules code.rest? held := by
  cases code with
  | done value => exact pays
  | act op next => exact pays

/-- The accounts are right, and every process will pay. -/
def Accounted (rules : Rules Op Reply Held) (accounts : Shared → (Process → Held) → Prop)
    (s : State Process Op Reply Shared) : Prop :=
  ∃ held, accounts s.shared held ∧ ∀ proc, Due rules (s.code proc) (held proc)

/-- The next operation is admitted. -/
def State.Admits (admits : Shared → Op → Prop)
    (s : State Process Op Reply Shared) : Action Process Call → Prop
  | .call .. => True
  | .go proc _ => ∀ op next, s.code proc = some (.act op next) → admits s.shared op

omit [DecidableEq Process] in
theorem admits_go {s : State Process Op Reply Shared} {proc : Process} {choice : Nat}
    {op : Op} {next : Reply op → Code Op Reply Int} (code : s.code proc = some (.act op next)) :
    admits s.shared op ↔ s.Admits admits (.go proc choice : Action Process Call) := by
  refine ⟨fun admitted other following same => ?_, fun all => all op next code⟩
  rw [code] at same
  cases same
  exact admitted

instance decidableAdmits [∀ shared op, Decidable (admits shared op)]
    (s : State Process Op Reply Shared) :
    ∀ action : Action Process Call, Decidable (s.Admits admits action)
  | .call .. => isTrue trivial
  | .go proc choice =>
    match code : s.code proc with
    | some (.act op next) => decidable_of_iff (admits s.shared op) (admits_go code)
    | some (.done value) => isTrue fun op next same => by rw [code] at same; cases same
    | none => isTrue fun op next same => by rw [code] at same; cases same

omit [DecidableEq Process] in
/-- What is held follows the rules: a process that performs an operation holds
what they say, and others hold what they held or rest before and after it. -/
def Follows (machine : Machine Process Op Reply Shared Call) (rules : Rules Op Reply Held)
    (s : State Process Op Reply Shared) (held held' : Process → Held) :
    Action Process Call → Prop
  | .call .. => held' = held
  | .go proc choice => ∃ op following reply shared,
    s.code proc = some (.act op following) ∧
    machine.perform proc op choice s.shared = some (reply, shared) ∧
    held' proc = rules.after op reply (held proc) ∧
    ∀ other, other ≠ proc →
      held' other = held other ∨ rules.rested (held other) ∧ rules.rested (held' other)

theorem Sound.step {s next : State Process Op Reply Shared} {held : Process → Held}
    {action : Action Process Call} (sound : Sound machine rules accounts admits)
    (right : accounts s.shared held) (due : ∀ proc, Due rules (s.code proc) (held proc))
    (admitted : s.Admits admits action) (taken : s.step machine action = some next) :
    ∃ held', (accounts next.shared held' ∧ ∀ proc, Due rules (next.code proc) (held' proc)) ∧
      Follows machine rules s held held' action := by
  cases action with
  | call proc call =>
    obtain ⟨free, ⟨⟩⟩ := Option.ite_none_right_eq_some.mp taken
    refine ⟨held, ⟨right, fun other => ?_⟩, rfl⟩
    by_cases same : other = proc
    · subst same
      have rested := due other
      rw [Option.isNone_iff_eq_none.mp free.1] at rested
      dsimp only
      rw [update_self]
      exact due_rest? (sound.body call right free.2 rested)
    · dsimp only
      rw [update_of_ne same]
      exact due other
  | go proc choice =>
    simp only [State.step] at taken
    split at taken
    case h_2 => cases taken
    case h_1 op following code =>
      split at taken
      case h_2 => cases taken
      case h_1 reply shared performed =>
        cases taken
        have pays := due proc
        rw [code] at pays
        obtain ⟨possible, held', right', mine, others⟩ :=
          sound.perform right (admitted op following code) pays.1 performed
        refine ⟨held', ⟨right', fun other => ?_⟩, op, following, reply, shared, code, performed,
          mine, fun other apart => (others other apart).imp_right And.right⟩
        dsimp only
        by_cases same : other = proc
        · subst same
          rw [update_self, mine]
          exact due_rest? (pays.2 reply possible)
        · rw [update_of_ne same]
          rcases others other same with kept | ⟨nothing, -, rested⟩
          · rw [kept]
            exact due other
          · have before := due other
            cases left : s.code other with
            | none => exact rested
            | some code =>
              rw [left] at before
              cases code with
              | done value => exact rested
              | act op next => exact absurd before.1 (nothing op)

theorem Accounted.step {s next : State Process Op Reply Shared}
    {action : Action Process Call} (sound : Sound machine rules accounts admits)
    (accounted : Accounted rules accounts s) (admitted : s.Admits admits action)
    (taken : s.step machine action = some next) : Accounted rules accounts next := by
  obtain ⟨held, right, due⟩ := accounted
  obtain ⟨held', kept, -⟩ := sound.step right due admitted taken
  exact ⟨held', kept⟩

/-- The accounts are right in every state of every run of admitted
operations. -/
theorem Sound.run {shared : Shared} {held : Process → Held}
    {actions : List (Action Process Call)} {final : State Process Op Reply Shared}
    (sound : Sound machine rules accounts admits) (right : accounts shared held)
    (rested : ∀ proc, rules.rested (held proc))
    (along : Along (State.step machine) (State.Admits admits) (idle shared) actions)
    (ended : Transition.run (State.step machine) (idle shared) actions = some final) :
    Accounted rules accounts final := by
  have initially : Accounted rules accounts
      (idle shared : State Process Op Reply Shared) := ⟨held, right, rested⟩
  exact run_invariant_along (Accounted rules accounts)
    (fun _ _ _ accounted admitted taken =>
      accounted.step sound admitted taken) initially along ended

end Interleaving
end Foundation
