import Xv6.Files.References

/-!
# Full tables

A call that finds the table of open files, the table of processes or its own
descriptors full returns `-1`.  The inode cache is different: `iget` panics when
every entry is in use.  Descriptors can keep more inodes in use than the cache
has entries.
-/

namespace Xv6.Files

open Foundation.Interleaving Foundation.Interleaving.Rules Foundation.Transition
open Fs (Slot nfile nofile nproc rootdev rootino skipelem slash)

/-! ## Tables that report -/

/-- Whether a table was found full. -/
def exhaustion : Rules Op Reply Bool where
  allowed := fun _ _ => True
  possible := fun op _ =>
    match op with
    | .panic _ => fun _ => False
    | _ => fun _ => True
  after := fun op =>
    match op with
    | .filealloc => fun (reply : Option (Fin nfile)) full => full || reply.isNone
    | .fdalloc _ => fun (reply : Option (Fin nofile)) full => full || reply.isNone
    | .allocproc => fun (reply : Option (Fin nproc)) full => full || reply.isNone
    | _ => fun _ full => full
  rested := fun _ => True

/-- When a table was found full, the code returns `-1`. -/
def Reported (value : Int) (full : Bool) : Prop :=
  full = true → value = -1

/-- The code of a call reports full tables. -/
def Reports (code : FileM Int) : Prop :=
  exhaustion.Pays Reported code false

/-- The code takes nothing from these tables. -/
structure Calm {α : Type} (code : FileM α) : Prop where
  keeps : ∀ full, exhaustion.Pays (fun _ after => after = full) code full

section Calm

variable {α β : Type}

theorem calm_pure (value : α) : Calm (pure value : FileM α) :=
  ⟨fun _ => rfl⟩

variable {first : FileM α}

theorem Calm.bind {second : α → FileM β} (calm : Calm first)
    (rest : ∀ value, Calm (second value)) : Calm (first >>= second) := by
  refine ⟨fun full => Pays.bind (calm.keeps full) fun value after same => ?_⟩
  rw [same]
  exact (rest value).keeps full

/-- An operation that takes nothing from these tables. -/
theorem calm_op {operation : Op}
    (still : ∀ reply full, exhaustion.after operation reply full = full) : Calm (op operation) :=
  ⟨fun full => ⟨trivial, fun reply _ => still reply full⟩⟩

theorem calm_iput (ip : Slot) : Calm (op (.iput ip)) :=
  calm_op fun _ _ => rfl

theorem calm_test : Calm test :=
  Calm.bind (calm_op fun _ _ => rfl) fun _ => calm_pure _

theorem calm_iget (dev inum : Nat) : Calm (iget dev inum) := by
  refine Calm.bind (calm_op fun _ _ => rfl) fun reply => ?_
  cases reply with
  | some ip => exact calm_pure ip
  | none => exact Calm.bind (calm_op fun _ _ => rfl) fun _ => calm_pure _

theorem calm_filedup (f : Fin nfile) : Calm (filedup f) := by
  refine Calm.bind (calm_op fun _ _ => rfl) fun (fine : Bool) => ?_
  cases fine with
  | true => exact calm_pure ()
  | false => exact calm_op fun _ _ => rfl

theorem calm_fileclose (f : Fin nfile) : Calm (fileclose f) := by
  refine Calm.bind (calm_op fun _ _ => rfl) fun reply => ?_
  cases reply with
  | bad => exact calm_op fun _ _ => rfl
  | shared => exact calm_pure ()
  | last kind =>
    cases kind with
    | none => exact calm_pure ()
    | pipe pipe writable => exact calm_op fun _ _ => rfl
    | inode ip => exact calm_iput ip

theorem calm_dirlookup : Calm dirlookup := by
  refine Calm.bind (calm_op fun _ _ => rfl) fun (inum : Nat) => ?_
  split
  case isTrue => exact calm_pure none
  case isFalse => exact Calm.bind (calm_iget ..) fun ip => calm_pure (some ip)

theorem calm_dirlink : Calm dirlink := by
  refine Calm.bind calm_dirlookup fun found => ?_
  cases found with
  | some ip => exact Calm.bind (calm_iput ip) fun _ => calm_pure false
  | none => exact calm_pure true

theorem calm_namexLoop (nameiparent : Bool) (fuel : Nat) (path : List Byte)
    (ip : Slot) : Calm (namexLoop nameiparent fuel path ip) := by
  have gives : Calm (op (.iput ip) >>= fun _ =>
      (pure none : FileM (Option Slot))) :=
    Calm.bind (calm_iput ip) fun _ => calm_pure none
  induction fuel generalizing path ip with
  | zero => exact gives
  | succ fuel ih =>
    rw [namexLoop.eq_def]
    dsimp only
    split
    case h_1 =>
      split
      case isTrue => exact gives
      case isFalse => exact calm_pure (some ip)
    case h_2 =>
      refine Calm.bind calm_test fun dir => ?_
      split
      case isTrue => exact gives
      case isFalse =>
        split
        case isTrue => exact calm_pure (some ip)
        case isFalse =>
          refine Calm.bind calm_dirlookup fun found => ?_
          cases found with
          | none => exact gives
          | some next =>
            exact Calm.bind (calm_iput ip) fun _ =>
              ih _ next (Calm.bind (calm_iput next) fun _ => calm_pure none)

theorem calm_namex (path : List Byte) (nameiparent : Bool) : Calm (namex path nameiparent) := by
  unfold namex
  split
  case isTrue => exact Calm.bind (calm_iget ..) fun ip => calm_namexLoop ..
  case isFalse =>
    refine Calm.bind (calm_op fun _ _ => rfl) fun cwd => ?_
    cases cwd with
    | none => exact calm_pure none
    | some ip => exact Calm.bind (calm_op fun _ _ => rfl) fun _ => calm_namexLoop ..

theorem calm_create (path : List Byte) (file dir : Bool) : Calm (create path file dir) := by
  have panics : ∀ message, Calm (op (.panic message)) := fun message =>
    calm_op fun _ _ => rfl
  have links : ∀ dp ip, Calm (do
      if !(← dirlink) then op (.panic "create: dirlink")
      op (.iput dp)
      return some ip : FileM (Option Slot)) := by
    intro dp ip
    have gives : Calm (op (.iput dp) >>= fun _ =>
        (pure (some ip) : FileM (Option Slot))) :=
      Calm.bind (calm_iput dp) fun _ => calm_pure (some ip)
    refine Calm.bind calm_dirlink fun linked => ?_
    cases linked with
    | true => exact gives
    | false => exact Calm.bind (panics _) fun _ => gives
  refine Calm.bind (calm_namex path true) fun found => ?_
  cases found with
  | none => exact calm_pure none
  | some dp =>
    refine Calm.bind calm_dirlookup fun found => ?_
    cases found with
    | some ip =>
      refine Calm.bind (calm_iput dp) fun _ =>
        Calm.bind calm_test fun sameType => ?_
      split
      case isTrue => exact calm_pure (some ip)
      case isFalse => exact Calm.bind (calm_iput ip) fun _ => calm_pure none
    | none =>
      refine Calm.bind (calm_op fun _ _ => rfl) fun inum =>
        Calm.bind (calm_iget ..) fun ip => ?_
      cases dir with
      | false => exact links dp ip
      | true =>
        refine Calm.bind calm_dirlink fun first => ?_
        have second : Calm (do
            if !(← dirlink) then op (.panic "create dots")
            if !(← dirlink) then op (.panic "create: dirlink")
            op (.iput dp)
            return some ip : FileM (Option Slot)) := by
          refine Calm.bind calm_dirlink fun linked => ?_
          cases linked with
          | true => exact links dp ip
          | false => exact Calm.bind (panics _) fun _ => links dp ip
        cases first with
        | true => exact second
        | false => exact Calm.bind (panics _) fun _ => second

theorem calm_forkFiles (np : Fin nproc) (fds : List (Fin nofile)) : Calm (forkFiles np fds) := by
  induction fds with
  | nil => exact calm_pure ()
  | cons fd fds ih =>
    refine Calm.bind (calm_op fun _ _ => rfl) fun file => ?_
    cases file with
    | none => exact ih
    | some f =>
      exact Calm.bind (calm_filedup f) fun _ =>
        Calm.bind (calm_op fun _ _ => rfl) fun _ => ih

theorem calm_exitFiles (fds : List (Fin nofile)) : Calm (exitFiles fds) := by
  induction fds with
  | nil => exact calm_pure ()
  | cons fd fds ih =>
    refine Calm.bind (calm_op fun _ _ => rfl) fun file => ?_
    cases file with
    | none => exact ih
    | some f =>
      exact Calm.bind (calm_fileclose f) fun _ =>
        Calm.bind (calm_op fun _ _ => rfl) fun _ => ih

/-- Code that takes nothing from the tables reports them. -/
theorem Calm.reports {code : FileM Int} (calm : Calm code) : Reports code :=
  (calm.keeps false).mono fun value full same full' => by
    rw [same] at full'
    cases full'

/-- Code that does so before it goes on. -/
theorem Calm.then {second : α → FileM Int} (calm : Calm first)
    (rest : ∀ value, Reports (second value)) : Reports (first >>= second) := by
  refine Pays.bind (calm.keeps false) fun value full same => ?_
  rw [same]
  exact rest value

/-- Code that fails after it has found a table full. -/
theorem Calm.fails {full : Bool} (calm : Calm first) :
    exhaustion.Pays Reported (first >>= fun _ => pure (-1)) full :=
  Pays.bind (calm.keeps full) fun _ _ _ _ => rfl

end Calm

theorem reports_openFile (ip : Slot) : Reports (openFile ip) := by
  refine pays_perform_bind.mpr ⟨trivial, fun file _ => ?_⟩
  cases file with
  | none => exact (calm_iput ip).fails
  | some f =>
    refine pays_perform_bind.mpr ⟨trivial, fun fd _ => ?_⟩
    cases fd with
    | none =>
      refine Pays.bind ((calm_fileclose f).keeps _) fun _ full _ => ?_
      exact (calm_iput ip).fails
    | some fd =>
      exact Calm.reports (Calm.bind (calm_op fun _ _ => rfl)
        fun _ => calm_pure _)

theorem reports_sysOpen (path : List Byte) (creates : Bool) : Reports (sysOpen path creates) := by
  unfold sysOpen
  split
  case isTrue =>
    refine (calm_create ..).then fun found => ?_
    cases found with
    | none => exact (calm_pure _).reports
    | some ip => exact reports_openFile ip
  case isFalse =>
    refine (calm_namex ..).then fun found => ?_
    cases found with
    | none => exact (calm_pure _).reports
    | some ip =>
      refine calm_test.then fun refused => ?_
      cases refused with
      | true => exact (calm_iput ip).fails
      | false => exact reports_openFile ip

theorem reports_sysDup (fd : Fin nofile) : Reports (sysDup fd) := by
  refine Calm.then (calm_op fun _ _ => rfl) fun file => ?_
  cases file with
  | none => exact (calm_pure _).reports
  | some f =>
    refine pays_perform_bind.mpr ⟨trivial, fun fd' _ => ?_⟩
    cases fd' with
    | none => exact fun _ => rfl
    | some fd' => exact Calm.reports (Calm.bind (calm_filedup f) fun _ => calm_pure _)

/-- `pipealloc` fails when it finds the table of open files full. -/
theorem pays_pipealloc_exhaustion :
    exhaustion.Pays (fun files full => full = true → files = none) pipealloc false := by
  have fails : ∀ (first : FileM Unit) (full : Bool), Calm first →
      exhaustion.Pays (fun files full => full = true → files = none)
        (first >>= fun _ => (pure none : FileM (Option (Fin nfile × Fin nfile))))
        full :=
    fun first full calm => Pays.bind (calm.keeps full) fun _ _ _ _ => rfl
  refine pays_perform_bind.mpr ⟨trivial, fun file _ => ?_⟩
  cases file with
  | none => exact fun _ => rfl
  | some f0 =>
    refine pays_perform_bind.mpr ⟨trivial, fun file _ => ?_⟩
    cases file with
    | none => exact fails _ _ (calm_fileclose f0)
    | some f1 =>
      refine pays_perform_bind.mpr ⟨trivial, fun pipe _ => ?_⟩
      cases pipe with
      | none =>
        refine Pays.bind ((calm_fileclose f0).keeps _) fun _ full _ => ?_
        exact fails _ _ (calm_fileclose f1)
      | some pipe =>
        refine Pays.bind ((calm_op fun _ _ => rfl).keeps false)
          fun _ full same => ?_
        refine Pays.bind ((calm_op fun _ _ => rfl).keeps full)
          fun _ after kept isFull => ?_
        rw [kept, same] at isFull
        cases isFull

theorem reports_sysPipe : Reports sysPipe := by
  have closes : ∀ rf wf full, exhaustion.Pays Reported
      (fileclose rf >>= fun _ => fileclose wf >>= fun _ => pure (-1 : Int))
      full := by
    intro rf wf full
    exact Pays.bind ((calm_fileclose rf).keeps full) fun _ _ _ =>
      (calm_fileclose wf).fails
  refine Pays.bind pays_pipealloc_exhaustion fun files full known => ?_
  cases files with
  | none => exact fun _ => rfl
  | some files =>
    cases full with
    | true => cases known rfl
    | false =>
      refine pays_perform_bind.mpr ⟨trivial, fun fd0 _ => ?_⟩
      cases fd0 with
      | none => exact closes ..
      | some fd0 =>
        refine pays_perform_bind.mpr ⟨trivial, fun fd1 _ => ?_⟩
        cases fd1 with
        | none => exact ⟨trivial, fun _ _ => closes ..⟩
        | some fd1 => exact (calm_pure _).reports

theorem reports_fork : Reports fork := by
  refine pays_perform_bind.mpr ⟨trivial, fun np _ => ?_⟩
  cases np with
  | none => exact fun _ => rfl
  | some np =>
    refine calm_test.then fun memory => ?_
    cases memory with
    | false => exact Calm.fails (calm_op fun _ _ => rfl)
    | true =>
      refine (calm_forkFiles np _).then fun _ =>
        Calm.then (calm_op fun _ _ => rfl) fun cwd => ?_
      cases cwd with
      | none => exact (calm_pure _).reports
      | some cwd =>
        exact Calm.reports (Calm.bind (calm_op fun _ _ => rfl) fun _ =>
          Calm.bind (calm_op fun _ _ => rfl) fun _ =>
            Calm.bind (calm_op fun _ _ => rfl) fun _ => calm_pure _)

/-- Every call that finds a table full returns `-1`. -/
theorem reports_body (p : Fin nproc) (call : Call) : Reports (call.body p) := by
  have ends : ∀ ip : Slot, Calm (op (.iput ip) >>= fun _ =>
      (pure (-1) : FileM Int)) :=
    fun ip => Calm.bind (calm_iput ip) fun _ => calm_pure _
  cases call with
  | openPath path creates => exact reports_sysOpen path creates
  | dup fd => exact reports_sysDup fd
  | pipe => exact reports_sysPipe
  | fork => exact reports_fork
  | close fd =>
    refine Calm.reports (Calm.bind (calm_op fun _ _ => rfl) fun file => ?_)
    cases file with
    | none => exact calm_pure _
    | some f =>
      exact Calm.bind (calm_op fun _ _ => rfl) fun _ =>
        Calm.bind (calm_fileclose f) fun _ => calm_pure _
  | link old new =>
    refine Calm.reports (Calm.bind (calm_namex ..) fun found => ?_)
    cases found with
    | none => exact calm_pure _
    | some ip =>
      refine Calm.bind calm_test fun dir => ?_
      cases dir with
      | true => exact ends ip
      | false =>
        refine Calm.bind (calm_namex ..) fun found => ?_
        cases found with
        | none => exact ends ip
        | some dp =>
          refine Calm.bind calm_dirlink fun linked =>
            Calm.bind (calm_iput dp) fun _ =>
              Calm.bind (calm_iput ip) fun _ => ?_
          cases linked with
          | true => exact calm_pure _
          | false => exact calm_pure _
  | unlink path =>
    refine Calm.reports (Calm.bind (calm_namex ..) fun found => ?_)
    cases found with
    | none => exact calm_pure _
    | some dp =>
      refine Calm.bind calm_test fun dots => ?_
      cases dots with
      | true => exact ends dp
      | false =>
        refine Calm.bind calm_dirlookup fun found => ?_
        cases found with
        | none => exact ends dp
        | some ip =>
          refine Calm.bind calm_test fun notEmpty => ?_
          cases notEmpty with
          | true => exact Calm.bind (calm_iput ip) fun _ => ends dp
          | false =>
            exact Calm.bind (calm_iput dp) fun _ =>
              Calm.bind (calm_iput ip) fun _ => calm_pure _
  | mkdir path | mknod path =>
    refine Calm.reports (Calm.bind (calm_create ..) fun found => ?_)
    cases found with
    | none => exact calm_pure _
    | some ip => exact Calm.bind (calm_iput ip) fun _ => calm_pure _
  | chdir path =>
    refine Calm.reports (Calm.bind (calm_namex ..) fun found => ?_)
    cases found with
    | none => exact calm_pure _
    | some ip =>
      refine Calm.bind calm_test fun dir => ?_
      cases dir with
      | false => exact ends ip
      | true =>
        refine Calm.bind (calm_op fun _ _ => rfl) fun cwd => ?_
        cases cwd with
        | none => exact calm_pure _
        | some cwd =>
          exact Calm.bind (calm_iput cwd) fun _ =>
            Calm.bind (calm_op fun _ _ => rfl) fun _ => calm_pure _
  | exec path =>
    refine Calm.reports (Calm.bind (calm_namex ..) fun found => ?_)
    cases found with
    | none => exact calm_pure _
    | some ip =>
      refine Calm.bind (calm_iput ip) fun _ =>
        Calm.bind calm_test fun loaded => ?_
      cases loaded with
      | true => exact calm_pure _
      | false => exact calm_pure _
  | exit =>
    refine Calm.reports ?_
    change Calm (exit p)
    unfold exit
    split
    case isTrue => exact Calm.bind (calm_op fun _ _ => rfl) fun _ => calm_pure _
    case isFalse =>
      refine Calm.bind (calm_exitFiles _) fun _ =>
        Calm.bind (calm_op fun _ _ => rfl) fun cwd => ?_
      cases cwd with
      | none => exact calm_pure _
      | some cwd =>
        exact Calm.bind (calm_iput cwd) fun _ =>
          Calm.bind (calm_op fun _ _ => rfl) fun _ =>
            Calm.bind (calm_op fun _ _ => rfl) fun _ => calm_pure _
  | wait child =>
    exact Calm.reports (Calm.bind (calm_op fun _ _ => rfl)
      fun _ => calm_pure _)

/-! ## The inode cache -/

/-- The references that a process has taken and neither given back nor stored in
a table, after an operation: those of a path lookup in progress. -/
def taken (proc : Proc) (op : Op) : Reply op → (Slot → Int) → Slot → Int :=
  match op with
  | .iget .. => fun (reply : Option Slot) walk => walk + point reply
  | .idup ip => fun _ walk => walk + Pi.single ip 1
  | .iput ip => fun _ walk => walk - Pi.single ip 1
  | .fileclose _ => fun (reply : Closing) walk =>
    match reply with
    | .last kind => walk + kind.grip
    | _ => walk
  | .setKind _ kind => fun _ walk => walk - kind.grip
  | .setCwd cwd => fun _ walk => walk + point proc.cwd - point cwd
  | .setChildCwd _ ip => fun _ walk => walk - Pi.single ip 1
  | _ => fun _ walk => walk

/-- The kernel, and what the processes have taken. -/
abbrev Watched := Kernel × (Fin nproc → Slot → Int)

/-- What the processes have taken after a step. -/
def Watched.record (watched : Watched) : Action (Fin nproc) Call → Fin nproc → Slot → Int
  | .call .. => watched.2
  | .go p choice =>
    match watched.1.code p with
    | some (.act op _) =>
      match watched.1.shared.perform p op choice with
      | some (reply, _) =>
        Function.update watched.2 p (taken (watched.1.shared.procs p) op reply (watched.2 p))
      | none => watched.2
    | _ => watched.2

/-- One step, which is recorded. -/
def watch (watched : Watched) (action : Action (Fin nproc) Call) : Option Watched :=
  (watched.1.step machine action).map fun next => (next, watched.record action)

/-- An open file, a current directory or a path lookup in progress refers to the
entry. -/
def Referred (shared : Shared) (walks : Fin nproc → Slot → Int) (ip : Slot) : Prop :=
  (∃ f, (shared.ftable f).kind = .inode ip) ∨
    ∃ p, 0 < point (shared.procs p).cwd ip + walks p ip

instance decidableReferred (shared : Shared) (walks : Fin nproc → Slot → Int) (ip : Slot) :
    Decidable (Referred shared walks ip) :=
  inferInstanceAs (Decidable (_ ∨ _))

/-- Something refers to the inode already, or nothing refers to some entry. -/
def Fits (walks : Fin nproc → Slot → Int) (shared : Shared) : Op → Prop
  | .iget dev inum =>
    (∃ ip, (shared.icache ip).dev = dev ∧ (shared.icache ip).inum = inum ∧
      Referred shared walks ip) ∨
    ∃ ip, ¬ Referred shared walks ip
  | _ => True

instance decidableFits (walks : Fin nproc → Slot → Int) (shared : Shared) :
    ∀ op, Decidable (Fits walks shared op)
  | .iget .. => inferInstanceAs (Decidable (_ ∨ _))
  | .choose | .panic _ | .idup _ | .iput _ | .filealloc | .filedup _
  | .fileclose _ | .setKind .. | .newPipe | .pipeclose .. | .getFd _
  | .clearFd _ | .fdalloc _ | .getCwd | .setCwd _ | .allocproc | .freeproc _
  | .setChildFd .. | .setChildCwd .. | .runnable _ | .zombie | .reap _ => isTrue trivial

/-- Before each `iget` there are few enough references. -/
def Roomy (watched : Watched) (action : Action (Fin nproc) Call) : Prop :=
  watched.1.Admits (Fits watched.2) action

instance decidableRoomy (watched : Watched) (action : Action (Fin nproc) Call) :
    Decidable (Roomy watched action) :=
  inferInstanceAs (Decidable (watched.1.Admits _ action))

section Cache

variable {shared : Shared} {held : Fin nproc → Held} {walks : Fin nproc → Slot → Int}

/-- The accounts are right, and the processes hold what was recorded. -/
def Audited (watched : Watched) : Prop :=
  ∃ held, (Accounts watched.1.shared held ∧ ∀ p, Due (rules True) (watched.1.code p) (held p)) ∧
    ∀ p, (held p).inodes = watched.2 p

theorem inodes_after {op : Op} (reply : Reply op) (held : Held) :
    ((rules True).after op reply held).inodes = taken held.proc op reply held.inodes := by
  cases op with
  | iget dev inum =>
    cases (reply : Option Slot) with
    | none => exact (add_zero _).symm
    | some ip => rfl
  | filealloc => cases (reply : Option (Fin nfile)) <;> rfl
  | filedup f => cases (reply : Bool) <;> rfl
  | fileclose f => cases (reply : Closing) <;> rfl
  | newPipe => cases (reply : Option Nat) <;> rfl
  | fdalloc f => cases (reply : Option (Fin nofile)) <;> rfl
  | choose | panic | idup | iput | setKind | pipeclose | getFd | clearFd | getCwd | setCwd
  | allocproc | freeproc | setChildFd | setChildCwd | runnable | zombie | reap => rfl

/-- The entries in use are those that something refers to. -/
theorem Accounts.referred_iff (accounts : Accounts shared held)
    (same : ∀ p, (held p).inodes = walks p) (ip : Slot) :
    Referred shared walks ip ↔ 0 < (shared.icache ip).ref := by
  have total := congrFun accounts.inodes ip
  rw [Pi.add_apply, Finset.sum_apply] at total
  change (shared.icache ip).ref = _ at total
  have held_eq : ∀ p, (held p).inode ip = point (shared.procs p).cwd ip + walks p ip := by
    intro p
    rw [← accounts.proc, ← same]
    rfl
  have grips : shared.grips ip = ∑ f, (shared.ftable f).kind.grip ip := Finset.sum_apply ..
  have positive := fun f (_ : f ∈ Finset.univ) => (shared.ftable f).kind.grip_nonneg ip
  have solvent := fun p (_ : p ∈ Finset.univ) => (accounts.solvent p).inode ip
  have first := Finset.sum_nonneg positive
  have second := Finset.sum_nonneg solvent
  rw [total, grips]
  constructor
  · rintro (⟨f, kind⟩ | ⟨p, taken⟩)
    · have one := Finset.single_le_sum positive (Finset.mem_univ f)
      rw [kind, Kind.grip_apply, if_pos rfl] at one
      omega
    · have one := Finset.single_le_sum solvent (Finset.mem_univ p)
      rw [← held_eq] at taken
      omega
  · intro used
    by_contra free
    obtain ⟨files, processes⟩ := not_or.mp free
    have none : ∑ f, (shared.ftable f).kind.grip ip = 0 := Finset.sum_eq_zero fun f _ => by
      rw [Kind.grip_apply, if_neg fun kind => files ⟨f, kind⟩]
    have nobody : ∑ p, (held p).inode ip = 0 := Finset.sum_eq_zero fun p member => by
      have few : ¬ 0 < (held p).inode ip := fun taken => processes ⟨p, held_eq p ▸ taken⟩
      exact le_antisymm (not_lt.mp few) (solvent p member)
    omega

/-- With few enough references `iget` finds an entry. -/
theorem Accounts.room (accounts : Accounts shared held) (same : ∀ p, (held p).inodes = walks p)
    {op : Op} (fits : Fits walks shared op) : shared.Room op := by
  cases op with
  | iget dev inum =>
    rcases fits with ⟨ip, dev, inum, referred⟩ | ⟨ip, free⟩
    · refine .inl fun missing => ?_
      have used := (accounts.referred_iff same ip).mp referred
      exact List.find?_eq_none.mp missing ip (List.mem_finRange ip)
        (decide_eq_true ⟨used, dev, inum⟩)
    · refine .inr fun missing => free ((accounts.referred_iff same ip).mpr ?_)
      have used := List.find?_eq_none.mp missing ip (List.mem_finRange ip)
      rw [decide_eq_true_eq] at used
      have nonneg := ((accounts.solvent 0).inode ip).trans (accounts.inode_le 0 ip)
      exact lt_of_le_of_ne nonneg (Ne.symm used)
  | choose | panic | idup | iput | filealloc | filedup | fileclose | setKind | newPipe | pipeclose
  | getFd | clearFd | fdalloc | getCwd | setCwd | allocproc | freeproc | setChildFd | setChildCwd
  | runnable | zombie | reap => trivial

theorem Audited.step {watched next : Watched} {action : Action (Fin nproc) Call}
    (audited : Audited watched) (roomy : Roomy watched action)
    (done : watch watched action = some next) : Audited next := by
  obtain ⟨held, ⟨accounts, due⟩, same⟩ := audited
  obtain ⟨state, stepped, rfl⟩ := Option.map_eq_some_iff.mp done
  have admitted : watched.1.Admits Shared.Room action := by
    cases action with
    | call p call => trivial
    | go p choice => exact fun op next code => accounts.room same (roomy op next code)
  obtain ⟨held', kept, follows⟩ :=
    (sound fun _ _ admitted _ => admitted).step accounts due admitted stepped
  refine ⟨held', kept, fun q => ?_⟩
  cases action with
  | call p call =>
    rw [show held' = held from follows]
    exact same q
  | go p choice =>
    obtain ⟨op, following, reply, shared, code, performed, mine, others⟩ := follows
    change _ = watched.record (.go p choice) q
    have performed : watched.1.shared.perform p op choice = some (reply, shared) := performed
    simp only [Watched.record, code, performed]
    by_cases own : q = p
    · subst own
      rw [mine, inodes_after, accounts.proc, same, Function.update_self]
    · rw [Function.update_of_ne own, ← same]
      rcases others q own with kept | ⟨before, after⟩
      · rw [kept]
      · rw [Held.Rested.inodes before, Held.Rested.inodes after]

/-- In a run in which before every `iget` the open files, the current directories
and the path lookups in progress refer to the inode already or leave an entry of
the cache unused, nobody panics for want of inodes.  Full tables are reported. -/
theorem opens_of_run {actions : List (Action (Fin nproc) Call)} {final : Watched}
    (ended : run watch (idle boot, fun _ _ => 0) actions = some final)
    (roomy : Along watch Roomy (idle boot, fun _ _ => 0) actions) :
    (∀ p, panicking final.1 p ≠ some "iget: no inodes") ∧
    ∀ p call, Reports (Call.body p call) := by
  have initially : Audited (idle boot, fun _ _ => 0) :=
    ⟨bootHeld, ⟨accounts_boot, rested_bootHeld⟩, fun _ => rfl⟩
  obtain ⟨held, kept, -⟩ := run_invariant_along Audited
    (fun _ _ _ audited roomy done => audited.step roomy done) initially roomy ended
  exact ⟨fun p panics => (allowed_of_panicking ⟨held, kept⟩ panics).2.2 trivial rfl, reports_body⟩

end Cache

/-- The file of the root directory that has the inode has one byte as its
name. -/
def filePath (inum : Nat) : List Byte :=
  [slash, BitVec.ofNat 8 (64 + inum)]

/-- A process opens the file that has the inode. -/
def openActions (p : Fin nproc) (inum : Nat) : List (Action (Fin nproc) Call) :=
  .call p (.openPath (filePath inum) false) :: .go p 0 :: .go p 1 ::
    .go p inum :: List.replicate 6 (.go p 0)

/-- The first process makes a child. -/
def forkActions : List (Action (Fin nproc) Call) :=
  .call 0 .fork :: .go 0 0 :: .go 0 1 :: List.replicate (nofile + 4) (.go 0 0)

/-- Two processes open three files. -/
def sharingRun : List (Action (Fin nproc) Call) :=
  forkActions ++ openActions 0 2 ++ openActions 1 3 ++ openActions 0 4

theorem opens_sharingRun : ∃ final, run watch (idle boot, fun _ _ => 0) sharingRun = some final ∧
      (∀ p, panicking final.1 p ≠ some "iget: no inodes") := by
  have seen : ((run watch (idle boot, fun _ _ => 0) sharingRun).map
      fun final => decide (Resting final.1)) = some true := by
    decide +kernel
  have roomy : Along watch Roomy (idle boot, fun _ _ => 0) sharingRun := by
    decide +kernel
  obtain ⟨final, ended, -⟩ := Option.map_eq_some_iff.mp seen
  exact ⟨final, ended, (opens_of_run ended roomy).1⟩

/-- Four processes open forty-nine files, each sixteen at most; with the root
these are all entries of the cache.  Then one more file is opened. -/
def openingRun : List (Action (Fin nproc) Call) :=
  forkActions ++ forkActions ++ forkActions ++
    ((List.range 49).flatMap fun k =>
      openActions (Fin.ofNat nproc (k / nofile)) (k + 2)) ++
    [.call 3 (.openPath (filePath 51) false), .go 3 0, .go 3 1, .go 3 51, .go 3 0]

theorem panicking_openingRun :
    ((run (State.step machine) (idle boot) openingRun).map fun final =>
      panicking final 3) = some (some "iget: no inodes") := by
  decide +kernel

end Xv6.Files
