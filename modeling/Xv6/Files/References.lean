import Xv6.Files.Payment

/-!
# Reference counts of open files and inodes

In every interleaving of calls the counts of the table of open files and of the
inode cache are those of the references.  When no call is in progress they are
the references from descriptors, from open files and from current directories.
-/

namespace Xv6.Files

open Function Foundation.Interleaving Foundation.Transition
open Fs (Slot nfile nofile nproc slash)
open Finset (mem_filter mem_univ natCast_card_filter sum_congr sum_eq_zero univ)

/-- States of the kernel. -/
abbrev Kernel := State (Fin nproc) Op Reply Shared

/-- The message of a process that has called `panic`. -/
def panicking (state : Kernel) (p : Fin nproc) : Option String :=
  match state.code p with
  | some (.act (.panic message) _) => some message
  | _ => none

/-- No call is in progress. -/
def Resting (state : Kernel) : Prop :=
  ∀ p, state.code p = none

instance decidableResting (state : Kernel) : Decidable (Resting state) :=
  decidable_of_iff (∀ p, (state.code p).isNone = true)
    (forall_congr' fun _ => Option.isNone_iff_eq_none)

/-- The table of open files when no call is in progress. -/
structure FilesCounted (shared : Shared) : Prop where
  /-- The number of processes and descriptors that refer to the file. -/
  ref : ∀ f, (shared.ftable f).ref =
    (Finset.univ.filter fun e : Fin nproc × Fin nofile =>
      (shared.procs e.1).ofile e.2 = some f).card
  ended : ∀ p, (shared.procs p).state = .unused ∨
    (shared.procs p).state = .zombie → ∀ fd, (shared.procs p).ofile fd = none
  /-- An end of a pipe is open if and only if its file has references. -/
  isOpen : ∀ pipe writable, shared.isOpen (pipe, writable) = true ↔
    ∃ f, (shared.ftable f).kind = .pipe pipe writable ∧ 0 < (shared.ftable f).ref
  one : ∀ f g pipe writable, (shared.ftable f).kind = .pipe pipe writable →
    (shared.ftable g).kind = .pipe pipe writable → f = g
  /-- The page of a pipe is freed once, when both ends are closed. -/
  freed : ∀ pipe, (shared.pipes pipe).freed =
    if pipe < shared.npipes ∧ shared.isOpen (pipe, false) = false ∧
      shared.isOpen (pipe, true) = false then 1 else 0

/-- Different entries in use of the inode cache are different inodes. -/
def InodesUnique (shared : Shared) : Prop :=
  ∀ ip jp, 0 < (shared.icache ip).ref → 0 < (shared.icache jp).ref →
    (shared.icache ip).dev = (shared.icache jp).dev →
    (shared.icache ip).inum = (shared.icache jp).inum → ip = jp

/-- The inode cache when no call is in progress: the references of open files
and of current directories. -/
def InodesCounted (shared : Shared) : Prop :=
  ∀ ip, (shared.icache ip).ref = (Finset.univ.filter fun f => (shared.ftable f).kind = .inode ip ∧
      0 < (shared.ftable f).ref).card +
    (Finset.univ.filter fun p => (shared.procs p).state = .live ∧
      (shared.procs p).cwd = some ip).card

/-! ## What the accounts say -/

section Accounts

variable {shared : Shared} {held : Fin nproc → Held}

theorem point_apply {Index : Type} [DecidableEq Index] (entry : Option Index) (index : Index) :
    point entry index = if entry = some index then 1 else 0 := by
  cases entry with
  | none => rfl
  | some other =>
    change (Pi.single other 1 : Index → Int) index = _
    rw [Pi.single_apply]
    refine if_congr ⟨fun same => ?_, fun same => ?_⟩ rfl rfl
    · rw [same]
    · exact (Option.some.inj same).symm

theorem Kind.grip_apply (kind : Kind) (ip : Slot) :
    kind.grip ip = if kind = .inode ip then 1 else 0 := by
  cases kind with
  | none | pipe number writable => rfl
  | inode other =>
    rw [Kind.grip, Pi.single_apply]
    refine if_congr ⟨fun same => ?_, fun same => ?_⟩ rfl rfl
    · rw [same]
    · cases same
      rfl

theorem Kind.ends_apply (kind : Kind) (pipe : Nat) (writable : Bool) : kind.ends (pipe, writable) =
      if kind = .pipe pipe writable then 1 else 0 := by
  cases kind with
  | none | inode ip => rfl
  | pipe number direction =>
    rw [Kind.ends, Pi.single_apply]
    refine if_congr ⟨fun same => ?_, fun same => ?_⟩ rfl rfl
    · cases same
      rfl
    · cases same
      rfl

theorem Accounts.counts_eq (accounts : Accounts shared held)
    (rested : ∀ p, (held p).Rested) (f : Fin nfile) :
    (shared.ftable f).ref =
      (univ.filter fun e : Fin nproc × Fin nofile =>
        (shared.procs e.1).ofile e.2 = some f).card := by
  have total := congrFun accounts.files f
  rw [Finset.sum_apply] at total
  change (shared.ftable f).ref = _ at total
  rw [total, natCast_card_filter, Fintype.sum_prod_type]
  refine sum_congr rfl fun p _ => ?_
  unfold Held.file
  rw [(rested p).files, add_zero, accounts.proc, Proc.descriptors, Finset.sum_apply]
  exact sum_congr rfl fun fd _ => point_apply ..

/-- An open file has references. -/
theorem Accounts.ref_pos {f : Fin nfile} (accounts : Accounts shared held)
    (typed : (shared.ftable f).kind ≠ .none) : 0 < (shared.ftable f).ref := by
  have nonneg : 0 ≤ (shared.ftable f).ref :=
    le_trans ((accounts.solvent 0).file f) (accounts.file_le 0 f)
  have nonzero : (shared.ftable f).ref ≠ 0 := fun zero =>
    typed (accounts.closed f zero)
  omega

theorem Accounts.isOpen_eq (accounts : Accounts shared held)
    (rested : ∀ p, (held p).Rested) (pipe : Nat) (writable : Bool) :
    (if shared.isOpen (pipe, writable) then 1 else 0 : Int) =
      (univ.filter fun f =>
        (shared.ftable f).kind = .pipe pipe writable).card := by
  have total := congrFun accounts.ends (pipe, writable)
  have none : ∑ p, (held p).ends = 0 := sum_eq_zero fun p _ => (rested p).ends
  rw [none, add_zero] at total
  change (if shared.isOpen (pipe, writable) then 1 else 0 : Int) = _ at total
  rw [total, Shared.ends, Finset.sum_apply, natCast_card_filter]
  exact sum_congr rfl fun f _ => Kind.ends_apply ..

theorem Accounts.filesCounted (accounts : Accounts shared held)
    (rested : ∀ p, (held p).Rested) : FilesCounted shared where
  ref := accounts.counts_eq rested
  ended p dead := (accounts.dead p dead).1
  isOpen pipe writable := by
    have card := accounts.isOpen_eq rested pipe writable
    constructor
    · intro isOpen
      rw [if_pos isOpen] at card
      obtain ⟨f, member⟩ : (univ.filter fun f =>
          (shared.ftable f).kind = .pipe pipe writable).Nonempty :=
        Finset.card_pos.mp (by omega)
      have kind := (mem_filter.mp member).2
      refine ⟨f, kind, accounts.ref_pos ?_⟩
      rw [kind]
      intro same
      cases same
    · rintro ⟨f, kind, -⟩
      by_contra shut
      rw [if_neg shut] at card
      have empty := Finset.card_eq_zero.mp (by omega : (univ.filter
        fun f => (shared.ftable f).kind = .pipe pipe writable).card = 0)
      exact Finset.eq_empty_iff_forall_notMem.mp empty f
        (mem_filter.mpr ⟨mem_univ f, kind⟩)
  one f g pipe writable first second := by
    have card := accounts.isOpen_eq rested pipe writable
    have atMost : (univ.filter fun f =>
        (shared.ftable f).kind = .pipe pipe writable).card ≤ 1 := by
      split at card <;> omega
    exact Finset.card_le_one.mp atMost f (mem_filter.mpr ⟨mem_univ f, first⟩) g
      (mem_filter.mpr ⟨mem_univ g, second⟩)
  freed := accounts.freed

/-- When no call is in progress only live processes have a current
directory. -/
theorem Accounts.live_of_cwd {p : Fin nproc} {ip : Slot}
    (accounts : Accounts shared held) (rested : ∀ p, (held p).Rested)
    (current : (shared.procs p).cwd = some ip) : (shared.procs p).state = .live := by
  have alive : ¬((shared.procs p).state = .unused ∨ (shared.procs p).state = .zombie) := by
    intro dead
    rw [(accounts.dead p dead).2] at current
    cases current
  cases state : (shared.procs p).state with
  | live => rfl
  | unused => exact absurd (.inl state) alive
  | zombie => exact absurd (.inr state) alive
  | embryo =>
    obtain ⟨parent, child, made⟩ := accounts.embryo p state
    rw [(rested parent).child] at made
    cases made

theorem Accounts.inodesCounted (accounts : Accounts shared held)
    (rested : ∀ p, (held p).Rested) : InodesCounted shared := by
  intro ip
  have total := congrFun accounts.inodes ip
  rw [Pi.add_apply, Finset.sum_apply] at total
  change (shared.icache ip).ref = _ at total
  rw [total, natCast_card_filter, natCast_card_filter]
  refine congrArg₂ (· + ·) ?_ ?_
  · rw [Shared.grips, Finset.sum_apply]
    refine sum_congr rfl fun f _ => ?_
    rw [Kind.grip_apply]
    refine if_congr ⟨fun kind => ⟨kind, accounts.ref_pos ?_⟩, And.left⟩ rfl rfl
    rw [kind]
    intro same
    cases same
  · refine sum_congr rfl fun p _ => ?_
    unfold Held.inode
    rw [(rested p).inodes, add_zero, accounts.proc, point_apply]
    exact if_congr ⟨fun current =>
      ⟨accounts.live_of_cwd rested current, current⟩, And.right⟩ rfl rfl

end Accounts

/-! ## Runs -/

/-- What the first process holds after `userinit`. -/
def bootHeld (p : Fin nproc) : Held where
  inodes := 0
  files := 0
  ends := 0
  fresh := fun _ => false
  proc := boot.procs p
  child := none

theorem rested_bootHeld (p : Fin nproc) : (bootHeld p).Rested where
  inodes := rfl
  files := rfl
  ends := rfl
  fresh _ := rfl
  child := rfl
  cwd live := by
    change (boot.procs p).cwd ≠ none
    have live : (boot.procs p).state = .live := live
    unfold boot at live ⊢
    dsimp only at live ⊢
    rw [update_apply] at live ⊢
    split at live
    case isTrue same =>
      rw [if_pos same]
      intro none
      cases none
    case isFalse => cases live

theorem boot_ofile (p : Fin nproc) (fd : Fin nofile) : (boot.procs p).ofile fd = none := by
  unfold boot
  dsimp only
  rw [update_apply]
  split <;> rfl

theorem boot_of_ne {p : Fin nproc} (other : p ≠ 0) :
    boot.procs p = ⟨.unused, fun _ => none, none⟩ := by
  unfold boot
  dsimp only
  rw [update_of_ne other]

theorem file_bootHeld (p : Fin nproc) : (bootHeld p).file = 0 := by
  change (boot.procs p).descriptors + 0 = 0
  rw [add_zero]
  exact sum_eq_zero fun fd _ => by rw [boot_ofile]; rfl

theorem inode_bootHeld (p : Fin nproc) :
    (bootHeld p).inode = if p = 0 then Pi.single 0 1 else 0 := by
  change point (boot.procs p).cwd + 0 = _
  rw [add_zero]
  split
  case isTrue same =>
    rw [same]
    rfl
  case isFalse other =>
    rw [boot_of_ne other]
    rfl

theorem refs_boot : boot.refs = Pi.single 0 1 := by
  funext ip
  unfold Shared.refs boot
  dsimp only
  rw [update_apply, Pi.single_apply]
  split <;> rfl

theorem accounts_boot : Accounts boot bootHeld where
  inodes := by
    have grips : boot.grips = 0 := sum_eq_zero fun f _ => rfl
    rw [refs_boot, grips, zero_add]
    simp only [inode_bootHeld, Finset.sum_ite_eq', mem_univ, if_true]
  files := by
    simp only [file_bootHeld, Finset.sum_const_zero]
    rfl
  ends := by
    have ends : boot.ends = 0 := sum_eq_zero fun f _ => rfl
    have none : ∑ p, (bootHeld p).ends = 0 := sum_eq_zero fun p _ => rfl
    rw [ends, none]
    funext e
    change (if boot.isOpen e then 1 else 0 : Int) = 0
    refine if_neg ?_
    cases e with
    | mk pipe writable => cases writable <;> exact Bool.false_ne_true
  solvent p := by
    refine ⟨fun ip => ?_, fun f => ?_, fun e => le_rfl⟩
    · exact add_nonneg (point_nonneg _ ip) le_rfl
    · rw [file_bootHeld]
      exact le_rfl
  proc _ := rfl
  closed _ _ := rfl
  fresh _ _ isFresh := by cases isFresh
  unique ip jp first second _ _ := by
    have root : ∀ ip, 0 < boot.refs ip → ip = 0 := by
      intro ip used
      rw [refs_boot] at used
      by_contra other
      rw [Pi.single_eq_of_ne other] at used
      exact lt_irrefl _ used
    rw [root ip first, root jp second]
  child _ _ _ made := by cases made
  parent _ _ _ _ _ made _ := by cases made
  embryo np embryo := by
    by_cases same : np = 0
    · rw [same] at embryo
      cases embryo
    · rw [boot_of_ne same] at embryo
      cases embryo
  dead p ended := by
    refine ⟨boot_ofile p, ?_⟩
    by_cases same : p = 0
    · rw [same] at ended
      rcases ended with state | state <;> cases state
    · rw [boot_of_ne same]
  dormant p _ := rested_bootHeld p
  freed pipe := by
    rw [if_neg]
    · rfl
    · rintro ⟨made, -⟩
      exact absurd made (Nat.not_lt_zero pipe)
  unmade _ writable _ := by cases writable <;> rfl

/-- The accounts are right in every state of every run. -/
theorem accounted_of_run {actions : List (Action (Fin nproc) Call)} {final : Kernel}
    (ended : run (State.step machine) (idle boot) actions = some final) :
    Accounted (rules False) Accounts final := by
  have always : ∀ (state : Kernel) (action : Action (Fin nproc) Call),
      state.Admits (fun _ _ => True) action := by
    intro state action
    cases action with
    | call p call => trivial
    | go p choice => exact fun op next code => trivial
  exact (sound fun _ _ _ impossible => impossible.elim).run accounts_boot
    rested_bootHeld (Along.of_mem (fun action _ state => always state action) _) ended

theorem allowed_of_panicking {roomy : Prop} {state : Kernel} {p : Fin nproc} {message : String}
    (accounted : Accounted (rules roomy) Accounts state)
    (panics : panicking state p = some message) :
    message ≠ "filedup" ∧ message ≠ "fileclose" ∧
      (roomy → message ≠ "iget: no inodes") := by
  obtain ⟨held, -, due⟩ := accounted
  have pays := due p
  unfold panicking at panics
  split at panics
  case h_1 next code =>
    cases panics
    rw [code] at pays
    exact pays.1.2
  case h_2 => cases panics

theorem rested_of_resting {roomy : Prop} {state : Kernel} {held : Fin nproc → Held}
    (due : ∀ p, Due (rules roomy) (state.code p) (held p))
    (resting : Resting state) (p : Fin nproc) : (held p).Rested := by
  have rested := due p
  rw [resting p] at rested
  exact rested

/-- In every run the counts of open files are those of the descriptors when no
call is in progress, and neither `filedup` nor `fileclose` panics. -/
theorem fileCounts_of_run {actions : List (Action (Fin nproc) Call)} {final : Kernel}
    (ended : run (State.step machine) (idle boot) actions = some final) :
    (∀ p, panicking final p ≠ some "filedup" ∧
      panicking final p ≠ some "fileclose") ∧
    (Resting final → FilesCounted final.shared) := by
  have accounted := accounted_of_run ended
  refine ⟨fun p => ⟨fun panics => ?_, fun panics => ?_⟩, fun resting => ?_⟩
  · exact (allowed_of_panicking accounted panics).1 rfl
  · exact (allowed_of_panicking accounted panics).2.1 rfl
  · obtain ⟨held, accounts, due⟩ := accounted
    exact accounts.filesCounted (rested_of_resting due resting)

/-- A pipe is made, its read end is duplicated, and both its descriptors are
closed. -/
def pipeRun : List (Action (Fin nproc) Call) :=
  .call 0 .pipe :: List.replicate 7 (.go 0 1) ++ .call 0 (.dup 0) :: List.replicate 3 (.go 0 0) ++
    .call 0 (.close 0) :: List.replicate 3 (.go 0 0) ++
    .call 0 (.close 2) :: List.replicate 4 (.go 0 0)

theorem fileCounts_pipeRun : ∃ final, run (State.step machine) (idle boot) pipeRun = some final ∧
      FilesCounted final.shared := by
  have rests : ((run (State.step machine) (idle boot) pipeRun).map
      fun final => decide (Resting final)) = some true := by
    decide +kernel
  obtain ⟨final, ended, resting⟩ := Option.map_eq_some_iff.mp rests
  exact ⟨final, ended, (fileCounts_of_run ended).2 (of_decide_eq_true resting)⟩

/-- In every state of every run an inode has one entry in use, and when no call
is in progress the counts of the inode cache are those of open files and
current directories. -/
theorem inodeCounts_of_run {actions : List (Action (Fin nproc) Call)} {final : Kernel}
    (ended : run (State.step machine) (idle boot) actions = some final) :
    InodesUnique final.shared ∧
    (Resting final → InodesCounted final.shared) := by
  obtain ⟨held, accounts, due⟩ := accounted_of_run ended
  exact ⟨accounts.unique, fun resting =>
    accounts.inodesCounted (rested_of_resting due resting)⟩

/-- A file is opened, and a process changes its directory. -/
def chdirRun : List (Action (Fin nproc) Call) :=
  .call 0 (.openPath [slash, 97] false) :: .go 0 0 :: .go 0 1 ::
      .go 0 2 :: List.replicate 6 (.go 0 0) ++
    .call 0 (.chdir [slash, 98]) :: .go 0 0 :: .go 0 1 :: .go 0 3 ::
      .go 0 0 :: .go 0 0 :: .go 0 1 :: List.replicate 3 (.go 0 0)

theorem inodeCounts_chdirRun : ∃ final, run (State.step machine) (idle boot) chdirRun = some final ∧
      InodesCounted final.shared := by
  have rests : ((run (State.step machine) (idle boot) chdirRun).map
      fun final => decide (Resting final)) = some true := by
    decide +kernel
  obtain ⟨final, ended, resting⟩ := Option.map_eq_some_iff.mp rests
  exact ⟨final, ended, (inodeCounts_of_run ended).2 (of_decide_eq_true resting)⟩

end Xv6.Files
