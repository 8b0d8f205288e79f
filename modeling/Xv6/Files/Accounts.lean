import Xv6.Files.Calls
import Xv6.Foundation.Tally
import Mathlib.Algebra.BigOperators.Pi
import Mathlib.Algebra.Order.BigOperators.Group.Finset
import Mathlib.Tactic.LinearCombination

/-!
# Accounts of references

What a process holds while it runs a call: the references it has taken and not
yet given back or stored in a table, and the process it is making.  Together
with the tables these account for every count, and every operation keeps the
accounts.
-/

namespace Xv6.Files

open Function Foundation.Interleaving Foundation.Tally
open Fs (Slot nfile nofile nproc ninode)
open Finset (mem_univ single_le_sum sum_nonneg)
open Pi (single single_apply single_eq_of_ne)

/-- One reference, for an entry that is not empty. -/
def point {Index : Type} [DecidableEq Index] (entry : Option Index) : Index → Int :=
  entry.elim 0 (Pi.single · 1)

/-- The reference of an open file to its inode. -/
def Kind.grip : Kind → Slot → Int
  | inode ip => Pi.single ip 1
  | _ => 0

/-- The end of a pipe that an open file stands for. -/
def Kind.ends : Kind → Nat × Bool → Int
  | pipe number writable => Pi.single (number, writable) 1
  | _ => 0

/-- The references of a process from its descriptors. -/
def Proc.descriptors (proc : Proc) : Fin nfile → Int :=
  ∑ fd, point (proc.ofile fd)

/-- What a process holds, besides what its `struct proc` shows. -/
structure Held where
  inodes : Slot → Int
  files : Fin nfile → Int
  /-- Ends of pipes that no open file stands for, by pipe and direction. -/
  ends : Nat × Bool → Int
  /-- Open files that it has allocated and not yet given a type. -/
  fresh : Fin nfile → Bool
  proc : Proc
  /-- The process that `fork` is making. -/
  child : Option (Fin nproc × Proc)

/-- Of what there is at least one, one may be given away. -/
theorem nonneg_sub_single {ι : Type} [DecidableEq ι] {count : ι → Int} {i : ι}
    (nonneg : ∀ j, 0 ≤ count j) (holds : 1 ≤ count i) (j : ι) :
    0 ≤ (count - single i 1 : ι → Int) j := by
  have := nonneg j
  rw [Pi.sub_apply, single_apply]
  split
  case isTrue same =>
    rw [same]
    omega
  case isFalse => omega

namespace Held

/-- All references of the process to inodes. -/
def inode (held : Held) : Slot → Int :=
  point held.proc.cwd + held.inodes

/-- All references of the process to open files. -/
def file (held : Held) : Fin nfile → Int :=
  held.proc.descriptors + held.files

/-- The process has stored or given back all it took. -/
structure Rested (held : Held) : Prop where
  inodes : held.inodes = 0
  files : held.files = 0
  ends : held.ends = 0
  fresh : ∀ f, held.fresh f = false
  child : held.child = none
  cwd : held.proc.state = .live → held.proc.cwd ≠ none

/-- Nothing is owed. -/
structure Solvent (held : Held) : Prop where
  inode : ∀ ip, 0 ≤ held.inode ip
  file : ∀ f, 0 ≤ held.file f
  ends : ∀ e, 0 ≤ held.ends e

/-- An inode is taken. -/
def take (held : Held) (ip : Slot) : Held :=
  { held with inodes := held.inodes + Pi.single ip 1 }

/-- An inode is given back. -/
def drop (held : Held) (ip : Slot) : Held :=
  { held with inodes := held.inodes - Pi.single ip 1 }

/-- A reference to an open file is taken. -/
def takeFile (held : Held) (f : Fin nfile) : Held :=
  { held with files := held.files + Pi.single f 1 }

/-- A reference to an open file is given back. -/
def dropFile (held : Held) (f : Fin nfile) : Held :=
  { held with
    files := held.files - Pi.single f 1
    fresh := Function.update held.fresh f false }

/-- The descriptors are changed; the references are kept. -/
def setFd (held : Held) (fd : Fin nofile) (entry : Option (Fin nfile)) : Held :=
  { held with
    files := held.files + point (held.proc.ofile fd) - point entry
    proc := { held.proc with
      ofile := Function.update held.proc.ofile fd entry } }

/-- The current directory is changed; the references are kept. -/
def setCwd (held : Held) (cwd : Option Slot) : Held :=
  { held with
    inodes := held.inodes + point held.proc.cwd - point cwd
    proc := { held.proc with cwd := cwd } }

/-- What an open file stands for is moved to it. -/
def give (held : Held) (f : Fin nfile) (kind : Kind) : Held :=
  { held with
    inodes := held.inodes - kind.grip
    ends := held.ends - kind.ends
    fresh := Function.update held.fresh f false }

/-- What an open file stood for. -/
def receive (held : Held) (kind : Kind) : Held :=
  { held with
    inodes := held.inodes + kind.grip
    ends := held.ends + kind.ends }

end Held

/-- The rules of the operations.  Under `roomy` every `iget` finds an entry. -/
def rules (roomy : Prop) : Rules Op Reply Held where
  allowed := fun op held => held.proc.state = .live ∧
    match op with
    | .panic message => message ≠ "filedup" ∧ message ≠ "fileclose" ∧
        (roomy → message ≠ "iget: no inodes")
    | .idup ip | .iput ip => 1 ≤ held.inode ip
    | .filedup f => 1 ≤ held.file f ∧ held.fresh f = false
    | .fileclose f => 1 ≤ held.file f
    | .setKind f kind => held.fresh f = true ∧ (∀ ip, kind.grip ip ≤ held.inode ip) ∧
        (∀ e, kind.ends e ≤ held.ends e) ∧ kind ≠ .none
    | .pipeclose pipe writable => 1 ≤ held.ends (pipe, writable)
    | .allocproc => held.child = none
    | .freeproc np => ∃ child, held.child = some (np, child) ∧
        (∀ fd, child.ofile fd = none) ∧ child.cwd = none
    | .setChildFd np fd f => 1 ≤ held.file f ∧ held.fresh f = false ∧
        ∃ child, held.child = some (np, child) ∧ child.ofile fd = none
    | .setChildCwd np ip => 1 ≤ held.inode ip ∧
        ∃ child, held.child = some (np, child) ∧ child.cwd = none
    | .runnable np => ∃ child, held.child = some (np, child) ∧ child.cwd ≠ none
    | .reap _ => held.child = none
    | .zombie => held.inodes = 0 ∧ held.files = 0 ∧ held.ends = 0 ∧
        (∀ f, held.fresh f = false) ∧ held.child = none ∧
        (∀ fd, held.proc.ofile fd = none) ∧ held.proc.cwd = none
    | _ => True
  possible := fun op held =>
    match op with
    | .panic _ => fun _ => False
    | .iget .. => fun reply : Option Slot => roomy → reply ≠ none
    | .filealloc => fun reply : Option (Fin nfile) => ∀ f, reply = some f → held.file f = 0
    | .filedup _ => fun reply : Bool => reply = true
    | .fileclose f => fun reply : Closing => reply ≠ .bad ∧
        (held.fresh f = true → reply = .last .none)
    | .getFd fd => fun reply : Option (Fin nfile) => reply = held.proc.ofile fd
    | .fdalloc _ => fun reply : Option (Fin nofile) =>
      ∀ fd, reply = some fd → held.proc.ofile fd = none
    | .getCwd => fun reply : Option Slot => reply = held.proc.cwd
    | _ => fun _ => True
  after := fun op =>
    match op with
    | .iget .. => fun (reply : Option Slot) held => reply.elim held held.take
    | .idup ip => fun _ held => held.take ip
    | .iput ip => fun _ held => held.drop ip
    | .filealloc => fun (reply : Option (Fin nfile)) held =>
      reply.elim held fun f =>
        { held.takeFile f with fresh := Function.update held.fresh f true }
    | .filedup f => fun (reply : Bool) held =>
      if reply then held.takeFile f else held
    | .fileclose f => fun (reply : Closing) held =>
      match reply with
      | .bad => held
      | .shared => held.dropFile f
      | .last kind => (held.dropFile f).receive kind
    | .setKind f kind => fun _ held => held.give f kind
    | .newPipe => fun (reply : Option Nat) held =>
      reply.elim held fun pipe =>
        { held with ends := held.ends + Pi.single (pipe, false) 1 +
            Pi.single (pipe, true) 1 }
    | .pipeclose pipe writable => fun _ held =>
      { held with ends := held.ends - Pi.single (pipe, writable) 1 }
    | .clearFd fd => fun _ held => held.setFd fd none
    | .fdalloc f => fun (reply : Option (Fin nofile)) held =>
      reply.elim held fun fd => held.setFd fd (some f)
    | .setCwd cwd => fun _ held => held.setCwd cwd
    | .allocproc => fun (reply : Option (Fin nproc)) held =>
      { held with child := reply.map fun np =>
          (np, ⟨.embryo, fun _ => none, none⟩) }
    | .freeproc _ => fun _ held => { held with child := none }
    | .setChildFd _ fd f => fun _ held =>
      { held with
        files := held.files - Pi.single f 1
        child := held.child.map fun (np, child) =>
          (np, { child with
            ofile := Function.update child.ofile fd (some f) }) }
    | .setChildCwd _ ip => fun _ held =>
      { held with
        inodes := held.inodes - Pi.single ip 1
        child := held.child.map fun (np, child) =>
          (np, { child with cwd := some ip }) }
    | .runnable _ => fun _ held => { held with child := none }
    | .zombie => fun _ held =>
      { held with proc := { held.proc with state := .zombie } }
    | _ => fun _ held => held
  rested := Held.Rested

namespace Shared

/-- The reference counts of the inode cache. -/
def refs (shared : Shared) : Slot → Int := fun ip => (shared.icache ip).ref

/-- The reference counts of the table of open files. -/
def counts (shared : Shared) : Fin nfile → Int := fun f =>
  (shared.ftable f).ref

/-- The references of open files to inodes. -/
def grips (shared : Shared) : Slot → Int :=
  ∑ f, (shared.ftable f).kind.grip

/-- The end of the pipe is open. -/
def isOpen (shared : Shared) (e : Nat × Bool) : Bool :=
  if e.2 then (shared.pipes e.1).writeopen else (shared.pipes e.1).readopen

/-- The ends of pipes that are open. -/
def opened (shared : Shared) : Nat × Bool → Int := fun e =>
  if shared.isOpen e then 1 else 0

/-- The ends of pipes that open files stand for. -/
def ends (shared : Shared) : Nat × Bool → Int :=
  ∑ f, (shared.ftable f).kind.ends

end Shared

/-- The tables and what the processes hold account for each other. -/
structure Accounts (shared : Shared) (held : Fin nproc → Held) : Prop where
  inodes : shared.refs = shared.grips + ∑ p, (held p).inode
  files : shared.counts = ∑ p, (held p).file
  ends : shared.opened = shared.ends + ∑ p, (held p).ends
  solvent : ∀ p, (held p).Solvent
  proc : ∀ p, (held p).proc = shared.procs p
  closed : ∀ f, (shared.ftable f).ref = 0 → (shared.ftable f).kind = .none
  fresh : ∀ p f, (held p).fresh f = true →
    (shared.ftable f).kind = .none ∧ (shared.ftable f).ref = 1 ∧ (held p).file f = 1
  unique : ∀ ip jp, 0 < shared.refs ip → 0 < shared.refs jp →
    (shared.icache ip).dev = (shared.icache jp).dev →
    (shared.icache ip).inum = (shared.icache jp).inum → ip = jp
  /-- Who is made by `fork` does nothing and has one parent. -/
  child : ∀ p np child, (held p).child = some (np, child) →
    shared.procs np = child ∧ child.state = .embryo
  parent : ∀ p q np child other, (held p).child = some (np, child) →
    (held q).child = some (np, other) → p = q
  embryo : ∀ np, (shared.procs np).state = .embryo → ∃ p child, (held p).child = some (np, child)
  dead : ∀ p, (shared.procs p).state = .unused ∨ (shared.procs p).state = .zombie →
      (∀ fd, (shared.procs p).ofile fd = none) ∧ (shared.procs p).cwd = none
  dormant : ∀ p, (shared.procs p).state ≠ .live → (held p).Rested
  freed : ∀ pipe, (shared.pipes pipe).freed =
    if pipe < shared.npipes ∧ shared.isOpen (pipe, false) = false ∧
      shared.isOpen (pipe, true) = false then 1 else 0
  unmade : ∀ pipe writable, shared.npipes ≤ pipe → shared.isOpen (pipe, writable) = false

variable {held : Fin nproc → Held}

section Sums

variable {shared : Shared} {p q : Fin nproc}

theorem point_nonneg {Index : Type} [DecidableEq Index] (entry : Option Index) (index : Index) :
    0 ≤ point entry index := by
  cases entry with
  | none => exact le_rfl
  | some entry =>
    change 0 ≤ (single entry 1 : Index → Int) index
    rw [single_apply]
    split <;> decide

theorem Proc.descriptors_nonneg (proc : Proc) (f : Fin nfile) : 0 ≤ proc.descriptors f := by
  unfold Proc.descriptors
  rw [Finset.sum_apply]
  exact sum_nonneg fun fd _ => point_nonneg ..

theorem Kind.grip_nonneg (kind : Kind) (ip : Slot) : 0 ≤ kind.grip ip := by
  cases kind with
  | none | pipe number writable => exact le_rfl
  | inode other =>
    rw [Kind.grip, single_apply]
    split <;> decide

theorem Kind.ends_nonneg (kind : Kind) (e : Nat × Bool) : 0 ≤ kind.ends e := by
  cases kind with
  | none | inode ip => exact le_rfl
  | pipe number writable =>
    rw [Kind.ends, single_apply]
    split <;> decide

theorem Accounts.file_le (accounts : Accounts shared held) (p : Fin nproc) (f : Fin nfile) :
    (held p).file f ≤ (shared.ftable f).ref := by
  have total := congrFun accounts.files f
  rw [Finset.sum_apply] at total
  change (shared.ftable f).ref = _ at total
  rw [total]
  exact single_le_sum (fun q _ => (accounts.solvent q).file f) (mem_univ p)

theorem Accounts.inode_le (accounts : Accounts shared held) (p : Fin nproc) (ip : Slot) :
    (held p).inode ip ≤ (shared.icache ip).ref := by
  have total := congrFun accounts.inodes ip
  rw [Pi.add_apply, Finset.sum_apply] at total
  change (shared.icache ip).ref = _ at total
  have grips : 0 ≤ shared.grips ip := by
    unfold Shared.grips
    rw [Finset.sum_apply]
    exact sum_nonneg fun f _ => (shared.ftable f).kind.grip_nonneg ip
  have mine := single_le_sum (fun q _ => (accounts.solvent q).inode ip) (mem_univ p)
  omega

/-- A file that was just allocated is held by one process. -/
theorem Accounts.alone {f : Fin nfile} (accounts : Accounts shared held)
    (fresh : (held p).fresh f = true) (holds : 1 ≤ (held q).file f) : q = p := by
  by_contra different
  obtain ⟨-, one, mine⟩ := accounts.fresh p f fresh
  have total := congrFun accounts.files f
  rw [Finset.sum_apply] at total
  change (shared.ftable f).ref = _ at total
  have both := Finset.add_le_sum (fun q _ => (accounts.solvent q).file f)
    (mem_univ q) (mem_univ p) different
  omega

end Sums

/-! ## Operations keep the accounts -/

section Update

variable {shared next : Shared} {p : Fin nproc} {h : Held}

section

variable (accounts : Accounts shared held) (live : (held p).proc.state = .live)
include accounts live

/-- One live process changes what it holds, with the tables. -/
theorem Accounts.update (others : ∀ q, q ≠ p → next.procs q = shared.procs q)
    (proc : h.proc = next.procs p) (state : h.proc.state = .live) (child : h.child = (held p).child)
    (inodes : next.refs + (shared.grips + (held p).inode) = shared.refs + (next.grips + h.inode))
    (files : next.counts + (held p).file = shared.counts + h.file)
    (ends : next.opened + (shared.ends + (held p).ends) = shared.opened + (next.ends + h.ends))
    (solvent : h.Solvent) (closed : ∀ f, (next.ftable f).ref = 0 → (next.ftable f).kind = .none)
    (fresh : ∀ q f, (Function.update held p h q).fresh f = true →
      (next.ftable f).kind = .none ∧ (next.ftable f).ref = 1 ∧
        (Function.update held p h q).file f = 1)
    (unique : ∀ ip jp, 0 < next.refs ip → 0 < next.refs jp →
      (next.icache ip).dev = (next.icache jp).dev →
      (next.icache ip).inum = (next.icache jp).inum → ip = jp)
    (freed : ∀ pipe, (next.pipes pipe).freed =
      if pipe < next.npipes ∧ next.isOpen (pipe, false) = false ∧
        next.isOpen (pipe, true) = false then 1 else 0)
    (unmade : ∀ pipe writable, next.npipes ≤ pipe → next.isOpen (pipe, writable) = false) :
    Accounts next (Function.update held p h) := by
  have sums : ∀ {Weight : Type} [AddCommMonoid Weight] (weight : Held → Weight),
      ∑ q, weight (Function.update held p h q) + weight (held p) =
        ∑ q, weight (held q) + weight h :=
    fun weight => sum_update (mem_univ p) weight held h
  have children : ∀ q, (Function.update held p h q).child = (held q).child := by
    intro q
    by_cases same : q = p
    · subst same
      rw [update_self, child]
    · rw [update_of_ne same]
  have procs : ∀ q, (next.procs q).state ≠ .live → q ≠ p ∧ next.procs q = shared.procs q := by
    intro q notLive
    have different : q ≠ p := by
      rintro rfl
      rw [← proc] at notLive
      exact notLive state
    exact ⟨different, others q different⟩
  have parents : ∀ q np c, (held q).child = some (np, c) → np ≠ p := by
    rintro q np c made rfl
    have known := accounts.child q np c made
    rw [accounts.proc, known.1, known.2] at live
    cases live
  refine ⟨?_, ?_, ?_, ?_, ?_, closed, fresh, unique, ?_, ?_, ?_, ?_, ?_, freed, unmade⟩
  · linear_combination inodes + accounts.inodes - sums Held.inode
  · linear_combination files + accounts.files - sums Held.file
  · linear_combination ends + accounts.ends - sums Held.ends
  · intro q
    by_cases same : q = p
    · subst same
      rw [update_self]
      exact solvent
    · rw [update_of_ne same]
      exact accounts.solvent q
  · intro q
    by_cases same : q = p
    · subst same
      rw [update_self]
      exact proc
    · rw [update_of_ne same, others q same]
      exact accounts.proc q
  · intro q np c made
    rw [children] at made
    rw [others np (parents q np c made)]
    exact accounts.child q np c made
  · intro q r np c d made also
    rw [children] at made also
    exact accounts.parent q r np c d made also
  · intro np embryo
    obtain ⟨-, same⟩ := procs np (by rw [embryo]; decide)
    rw [same] at embryo
    obtain ⟨q, c, made⟩ := accounts.embryo np embryo
    exact ⟨q, c, (children q).trans made⟩
  · intro q ended
    obtain ⟨-, same⟩ := procs q (by
      rcases ended with unused | zombie
      · rw [unused]; decide
      · rw [zombie]; decide)
    rw [same] at ended ⊢
    exact accounts.dead q ended
  · intro q notLive
    obtain ⟨different, same⟩ := procs q notLive
    rw [update_of_ne different]
    exact accounts.dormant q (by rwa [same] at notLive)

/-- The process changes its own `struct proc`, and keeps its references. -/
theorem Accounts.private (state : h.proc.state = .live)
    (child : h.child = (held p).child) (inode : h.inode = (held p).inode)
    (file : h.file = (held p).file) (ends : h.ends = (held p).ends)
    (fresh : h.fresh = (held p).fresh) :
    Accounts (shared.setProc p h.proc) (Function.update held p h) := by
  refine accounts.update live (fun q different => ?_) ?_ state child ?_ ?_ ?_ ?_
    accounts.closed ?_ accounts.unique accounts.freed accounts.unmade
  · exact update_of_ne different ..
  · exact (update_self p h.proc shared.procs).symm
  · rw [inode]
    rfl
  · rw [file]
    rfl
  · rw [ends]
    rfl
  · have solvent := accounts.solvent p
    exact ⟨by rw [inode]; exact solvent.inode, by rw [file]; exact solvent.file,
      by rw [ends]; exact solvent.ends⟩
  · intro q f isFresh
    by_cases same : q = p
    · subst same
      rw [update_self] at isFresh ⊢
      rw [fresh] at isFresh
      rw [file]
      exact accounts.fresh q f isFresh
    · rw [update_of_ne same] at isFresh ⊢
      exact accounts.fresh q f isFresh

/-- An entry of the inode cache and the references of the process change
together. -/
theorem Accounts.inode {ip : Slot} {inode : Inode} {change : Int}
    (ref : inode.ref = (shared.icache ip).ref + change) (enough : 0 ≤ (held p).inode ip + change)
    (unique : ∀ jp, jp ≠ ip → 0 < inode.ref → 0 < shared.refs jp →
      ¬ (inode.dev = (shared.icache jp).dev ∧ inode.inum = (shared.icache jp).inum)) :
    Accounts (shared.setInode ip inode) (Function.update held p
      { held p with inodes := (held p).inodes + single ip change }) := by
  have own : Held.inode { held p with
      inodes := (held p).inodes + single ip change } =
      (held p).inode + single ip change := by
    unfold Held.inode
    rw [add_assoc]
  have refs : (shared.setInode ip inode).refs = shared.refs + single ip change := by
    funext jp
    change (Function.update shared.icache ip inode jp).ref = _
    by_cases same : jp = ip
    · subst same
      rw [update_self, Pi.add_apply, Pi.single_eq_same]
      exact ref
    · rw [update_of_ne same, Pi.add_apply, single_eq_of_ne same, add_zero]
      rfl
  refine accounts.update live (fun _ _ => rfl) (accounts.proc p) live rfl ?_ rfl
    rfl ?_ accounts.closed ?_ ?_ accounts.freed accounts.unmade
  · rw [own, refs]
    change _ + (shared.grips + _) = shared.refs + (shared.grips + _)
    abel
  · refine ⟨fun jp => ?_, (accounts.solvent p).file, (accounts.solvent p).ends⟩
    rw [own, Pi.add_apply]
    by_cases same : jp = ip
    · subst same
      rw [Pi.single_eq_same]
      exact enough
    · rw [single_eq_of_ne same, add_zero]
      exact (accounts.solvent p).inode jp
  · intro q f isFresh
    by_cases same : q = p
    · subst same
      rw [update_self] at isFresh ⊢
      exact accounts.fresh q f isFresh
    · rw [update_of_ne same] at isFresh ⊢
      exact accounts.fresh q f isFresh
  · intro jp kp first second dev inum
    change 0 < (Function.update shared.icache ip inode jp).ref at first
    change 0 < (Function.update shared.icache ip inode kp).ref at second
    change (Function.update shared.icache ip inode jp).dev =
      (Function.update shared.icache ip inode kp).dev at dev
    change (Function.update shared.icache ip inode jp).inum =
      (Function.update shared.icache ip inode kp).inum at inum
    by_cases one : jp = ip
    · by_cases two : kp = ip
      · exact one.trans two.symm
      · subst one
        rw [update_self] at first dev inum
        rw [update_of_ne two] at second dev inum
        exact absurd ⟨dev, inum⟩ (unique kp two first second)
    · rw [update_of_ne one] at first dev inum
      by_cases two : kp = ip
      · subst two
        rw [update_self] at second dev inum
        exact absurd ⟨dev.symm, inum.symm⟩ (unique jp one second first)
      · rw [update_of_ne two] at second dev inum
        exact accounts.unique jp kp first second dev inum

/-- An open file and what the process holds change together. -/
theorem Accounts.file {f : Fin nfile} {file : File}
    (proc : h.proc = (held p).proc) (child : h.child = (held p).child)
    (inode : h.inode + file.kind.grip = (held p).inode + (shared.ftable f).kind.grip)
    (files : h.file + single f (shared.ftable f).ref = (held p).file + single f file.ref)
    (ends : h.ends + file.kind.ends = (held p).ends + (shared.ftable f).kind.ends)
    (solvent : h.Solvent) (closed : file.ref = 0 → file.kind = .none)
    (mine : h.fresh f = true → file.kind = .none ∧ file.ref = 1 ∧ h.file f = 1)
    (kept : ∀ g, g ≠ f → h.fresh g = (held p).fresh g)
    (others : ∀ q, q ≠ p → (held q).fresh f = false) :
    Accounts (shared.setFile f file) (Function.update held p h) := by
  have grips : (shared.setFile f file).grips + (shared.ftable f).kind.grip =
      shared.grips + file.kind.grip :=
    sum_update (mem_univ f) (fun file : File => file.kind.grip) shared.ftable file
  have fileEnds : (shared.setFile f file).ends + (shared.ftable f).kind.ends =
      shared.ends + file.kind.ends :=
    sum_update (mem_univ f) (fun file : File => file.kind.ends) shared.ftable file
  have counts : (shared.setFile f file).counts + single f (shared.ftable f).ref =
        shared.counts + single f file.ref := by
    funext g
    change (Function.update shared.ftable f file g).ref + _ = (shared.ftable g).ref + _
    by_cases same : g = f
    · subst same
      rw [update_self, Pi.single_eq_same, Pi.single_eq_same, add_comm]
    · rw [update_of_ne same, single_eq_of_ne same, single_eq_of_ne same]
  have elsewhere : ∀ g, g ≠ f → h.file g = (held p).file g := by
    intro g different
    have at_ := congrFun files g
    rwa [Pi.add_apply, Pi.add_apply, single_eq_of_ne different,
      single_eq_of_ne different, add_zero, add_zero] at at_
  refine accounts.update live (fun _ _ => rfl)
    (proc.trans (accounts.proc p)) (by rw [proc]; exact live) child ?_ ?_ ?_
    solvent ?_ ?_ accounts.unique accounts.freed accounts.unmade
  · change shared.refs + _ = _
    linear_combination -grips - inode
  · linear_combination counts - files
  · change shared.opened + _ = _
    linear_combination -fileEnds - ends
  · intro g
    change (Function.update shared.ftable f file g).ref = 0 →
      (Function.update shared.ftable f file g).kind = .none
    by_cases same : g = f
    · subst same
      rw [update_self]
      exact closed
    · rw [update_of_ne same]
      exact accounts.closed g
  · intro q g isFresh
    change (Function.update shared.ftable f file g).kind = .none ∧
      (Function.update shared.ftable f file g).ref = 1 ∧ _
    by_cases here : q = p
    · subst here
      rw [update_self] at isFresh ⊢
      by_cases same : g = f
      · subst same
        rw [update_self]
        exact mine isFresh
      · rw [update_of_ne same, elsewhere g same]
        exact accounts.fresh q g (by rw [← kept g same]; exact isFresh)
    · rw [update_of_ne here] at isFresh ⊢
      have different : g ≠ f := by
        rintro rfl
        rw [others q here] at isFresh
        cases isFresh
      rw [update_of_ne different]
      exact accounts.fresh q g isFresh

/-- The ends of a pipe and what the process holds change together. -/
theorem Accounts.pipe (icache : next.icache = shared.icache)
    (ftable : next.ftable = shared.ftable) (procs : next.procs = shared.procs)
    (ends : Nat × Bool → Int) (opened : next.opened + (held p).ends = shared.opened + ends)
    (enough : ∀ e, 0 ≤ ends e)
    (freed : ∀ pipe, (next.pipes pipe).freed =
      if pipe < next.npipes ∧ next.isOpen (pipe, false) = false ∧
        next.isOpen (pipe, true) = false then 1 else 0)
    (unmade : ∀ pipe writable, next.npipes ≤ pipe → next.isOpen (pipe, writable) = false) :
    Accounts next (Function.update held p { held p with ends := ends }) := by
  have grips : next.grips = shared.grips := by
    unfold Shared.grips
    rw [ftable]
  have fileEnds : next.ends = shared.ends := by
    unfold Shared.ends
    rw [ftable]
  have refs : next.refs = shared.refs := by
    unfold Shared.refs
    rw [icache]
  have counts : next.counts = shared.counts := by
    unfold Shared.counts
    rw [ftable]
  refine accounts.update live (fun q _ => by rw [procs])
    (by rw [procs]; exact accounts.proc p) live rfl ?_ ?_ ?_
    ⟨(accounts.solvent p).inode, (accounts.solvent p).file, enough⟩ ?_ ?_ ?_
    freed unmade
  · rw [refs, grips]
    rfl
  · rw [counts]
    rfl
  · rw [fileEnds]
    linear_combination opened
  · rw [ftable]
    exact accounts.closed
  · intro q f isFresh
    rw [ftable]
    by_cases same : q = p
    · subst same
      rw [update_self] at isFresh ⊢
      exact accounts.fresh q f isFresh
    · rw [update_of_ne same] at isFresh ⊢
      exact accounts.fresh q f isFresh
  · rw [icache, refs]
    exact accounts.unique

end

theorem isOpen_newPipe (e : Nat × Bool) : shared.newPipe.isOpen e =
      if e.1 = shared.npipes then true else shared.isOpen e := by
  unfold Shared.isOpen Shared.newPipe
  dsimp only
  by_cases same : e.1 = shared.npipes
  · rw [if_pos same, same, update_self, ite_self]
  · rw [if_neg same, update_of_ne same]

theorem Accounts.newPipe (accounts : Accounts shared held) (live : (held p).proc.state = .live) :
    Accounts shared.newPipe
      (Function.update held p { held p with
        ends := (held p).ends + single (shared.npipes, false) 1 +
          single (shared.npipes, true) 1 }) := by
  refine accounts.pipe live ?_ ?_ ?_ _ ?_ ?_ ?_ ?_
  · rfl
  · rfl
  · rfl
  · funext e
    obtain ⟨number, writable⟩ := e
    rw [Pi.add_apply, Pi.add_apply, Pi.add_apply, Pi.add_apply]
    unfold Shared.opened
    rw [isOpen_newPipe]
    by_cases same : number = shared.npipes
    · subst same
      rw [if_pos rfl, if_pos rfl, accounts.unmade _ writable le_rfl]
      cases writable <;> simp <;> ring
    · have first : ((number, writable) : Nat × Bool) ≠
          (shared.npipes, false) := fun equal => same (congrArg Prod.fst equal)
      have second : ((number, writable) : Nat × Bool) ≠
          (shared.npipes, true) := fun equal => same (congrArg Prod.fst equal)
      rw [if_neg same, single_eq_of_ne first, single_eq_of_ne second]
      ring
  · intro e
    have nonneg := (accounts.solvent p).ends e
    rw [Pi.add_apply, Pi.add_apply, single_apply, single_apply]
    split <;> split <;> omega
  · intro pipe
    change (Function.update shared.pipes shared.npipes ⟨true, true, 0⟩
      pipe).freed = if pipe < shared.npipes + 1 ∧ _ ∧ _ then 1 else 0
    rw [isOpen_newPipe, isOpen_newPipe]
    by_cases same : pipe = shared.npipes
    · subst same
      simp
    · rw [update_of_ne same, accounts.freed]
      dsimp only
      rw [if_neg same, if_neg same]
      have bound : pipe < shared.npipes ↔ pipe < shared.npipes + 1 := by omega
      exact if_congr (and_congr_left fun _ => bound) rfl rfl
  · intro pipe writable beyond
    change shared.npipes + 1 ≤ pipe at beyond
    rw [isOpen_newPipe, if_neg (by change pipe ≠ _; omega)]
    exact accounts.unmade pipe writable (by omega)

theorem Accounts.isOpen_of_held {e : Nat × Bool}
    (accounts : Accounts shared held) (holds : 1 ≤ (held p).ends e) : shared.isOpen e = true := by
  have total := congrFun accounts.ends e
  rw [Pi.add_apply, Finset.sum_apply] at total
  have mine := single_le_sum (fun q _ => (accounts.solvent q).ends e) (mem_univ p)
  have files : 0 ≤ shared.ends e := by
    unfold Shared.ends
    rw [Finset.sum_apply]
    exact sum_nonneg fun f _ => (shared.ftable f).kind.ends_nonneg e
  unfold Shared.opened at total
  by_contra closed
  rw [if_neg closed] at total
  omega

theorem isOpen_pipeclose (pipe : Nat) (writable : Bool) (e : Nat × Bool) :
    (shared.pipeclose pipe writable).isOpen e =
      if e = (pipe, writable) then false else shared.isOpen e := by
  obtain ⟨number, direction⟩ := e
  unfold Shared.isOpen Shared.pipeclose
  dsimp only
  by_cases same : number = pipe
  · subst same
    rw [update_self]
    cases writable <;> cases direction <;> simp [Pipe.close]
  · rw [update_of_ne same, if_neg fun equal =>
      same (congrArg Prod.fst equal)]

section

variable (accounts : Accounts shared held) (live : (held p).proc.state = .live)
include accounts live

theorem Accounts.pipeclose {pipe : Nat} {writable : Bool}
    (holds : 1 ≤ (held p).ends (pipe, writable)) :
    Accounts (shared.pipeclose pipe writable)
      (Function.update held p { held p with
        ends := (held p).ends - single (pipe, writable) 1 }) := by
  have wasOpen := accounts.isOpen_of_held holds
  have made : pipe < shared.npipes := by
    by_contra beyond
    rw [accounts.unmade pipe writable (by omega)] at wasOpen
    cases wasOpen
  refine accounts.pipe live ?_ ?_ ?_ _ ?_ ?_ ?_ ?_
  · rfl
  · rfl
  · rfl
  · funext e
    rw [Pi.add_apply, Pi.add_apply, Pi.sub_apply, single_apply]
    unfold Shared.opened
    rw [isOpen_pipeclose]
    by_cases same : e = (pipe, writable)
    · rw [if_pos same, if_pos same, same, wasOpen]
      simp
    · rw [if_neg same, if_neg same]
      ring
  · exact nonneg_sub_single (accounts.solvent p).ends (by omega)
  · intro number
    change (Function.update shared.pipes pipe _ number).freed =
      if number < shared.npipes ∧ _ ∧ _ then 1 else 0
    rw [isOpen_pipeclose, isOpen_pipeclose]
    by_cases same : number = pipe
    · subst same
      have before := accounts.freed number
      rw [update_self]
      unfold Pipe.close
      unfold Shared.isOpen at wasOpen before ⊢
      cases writable <;> simp_all
    · rw [update_of_ne same, if_neg fun equal =>
        same (congrArg Prod.fst equal), if_neg fun equal =>
        same (congrArg Prod.fst equal)]
      exact accounts.freed number
  · intro number direction beyond
    rw [isOpen_pipeclose, accounts.unmade number direction beyond, ite_self]

/-- A process changes another one that does not run: one that it makes, or one
that has ended. -/
theorem Accounts.family {np : Fin nproc} {proc : Proc} (sleeps : (shared.procs np).state ≠ .live)
    (mine : (shared.procs np).state = .embryo → ∃ child, (held p).child = some (np, child))
    (only : ∀ other child, (held p).child = some (other, child) → other = np)
    (same : h.proc = (held p).proc)
    (child : h.child = if proc.state = .embryo then some (np, proc) else none)
    (inodes : h.inode + point proc.cwd = (held p).inode + point (shared.procs np).cwd)
    (files : h.file + proc.descriptors = (held p).file + (shared.procs np).descriptors)
    (ends : h.ends = (held p).ends)
    (fresh : ∀ f, h.fresh f = true → (held p).fresh f = true ∧ h.file f = (held p).file f)
    (solvent : h.Solvent)
    (dead : proc.state = .unused ∨ proc.state = .zombie →
      (∀ fd, proc.ofile fd = none) ∧ proc.cwd = none) :
    Accounts (shared.setProc np proc)
      (Function.update (Function.update held p h) np { held np with proc := proc }) := by
  have rested := accounts.dormant np sleeps
  have different : np ≠ p := by
    rintro rfl
    rw [accounts.proc] at live
    exact sleeps live
  have atParent : Function.update (Function.update held p h) np
      { held np with proc := proc } p = h := by
    rw [update_of_ne different.symm, update_self]
  have atChild : Function.update (Function.update held p h) np
      { held np with proc := proc } np = { held np with proc := proc } :=
    update_self ..
  have elsewhere : ∀ q, q ≠ p → q ≠ np → Function.update (Function.update held p h) np
        { held np with proc := proc } q = held q := by
    intro q notParent notChild
    rw [update_of_ne notChild, update_of_ne notParent]
  have procs : ∀ q, q ≠ np → (shared.setProc np proc).procs q =
      shared.procs q := fun q other => update_of_ne other ..
  have procChild : (shared.setProc np proc).procs np = proc := update_self ..
  have sums : ∀ {Weight : Type} [AddCommGroup Weight] (weight : Held → Weight),
      ∑ q, weight (Function.update (Function.update held p h) np { held np with proc := proc } q) +
        (weight (held p) + weight (held np)) =
        ∑ q, weight (held q) + (weight h + weight { held np with proc := proc }) := by
    intro Weight group weight
    have outer := sum_update (mem_univ np) weight
      (Function.update held p h) { held np with proc := proc }
    have inner := sum_update (mem_univ p) weight held h
    rw [update_of_ne different] at outer
    calc _ = (∑ q, weight (Function.update (Function.update held p h) np
            { held np with proc := proc } q) + weight (held np)) +
          weight (held p) := by abel
      _ = (∑ q, weight (Function.update held p h q) + weight (held p)) +
          weight { held np with proc := proc } := by rw [outer]; abel
      _ = _ := by rw [inner]; abel
  -- Nobody but the parent knows the child.
  have parents : ∀ q c, (held q).child = some (np, c) → q = p := by
    intro q c made
    have known := accounts.child q np c made
    obtain ⟨d, own⟩ := mine (by rw [known.1]; exact known.2)
    exact accounts.parent q p np c d made own
  have childless : ∀ m c, (held np).child ≠ some (m, c) := by
    intro m c made
    rw [rested.child] at made
    cases made
  refine ⟨?_, ?_, ?_, ?_, ?_, accounts.closed, ?_, accounts.unique, ?_, ?_, ?_,
    ?_, ?_, accounts.freed, accounts.unmade⟩
  · have own : (held np).inode = point (shared.procs np).cwd := by
      unfold Held.inode
      rw [rested.inodes, add_zero, accounts.proc]
    have becomes : Held.inode { held np with proc := proc } = point proc.cwd := by
      unfold Held.inode
      dsimp only
      rw [rested.inodes, add_zero]
    have total := sums Held.inode
    rw [own, becomes] at total
    change shared.refs = shared.grips + _
    linear_combination accounts.inodes - total - inodes
  · have own : (held np).file = (shared.procs np).descriptors := by
      unfold Held.file
      rw [rested.files, add_zero, accounts.proc]
    have becomes : Held.file { held np with proc := proc } = proc.descriptors := by
      unfold Held.file
      dsimp only
      rw [rested.files, add_zero]
    have total := sums Held.file
    rw [own, becomes] at total
    change shared.counts = _
    linear_combination accounts.files - total - files
  · have total := sums Held.ends
    change _ + ((held p).ends + (held np).ends) = _ + (h.ends + (held np).ends) at total
    change shared.opened = shared.ends + _
    linear_combination accounts.ends - total - ends
  · intro q
    by_cases atNp : q = np
    · subst atNp
      rw [atChild]
      refine ⟨fun ip => ?_, fun f => ?_, (accounts.solvent q).ends⟩
      · unfold Held.inode
        dsimp only
        rw [rested.inodes, add_zero]
        exact point_nonneg ..
      · unfold Held.file
        dsimp only
        rw [rested.files, add_zero]
        exact proc.descriptors_nonneg f
    · by_cases atP : q = p
      · subst atP
        rw [atParent]
        exact solvent
      · rw [elsewhere q atP atNp]
        exact accounts.solvent q
  · intro q
    by_cases atNp : q = np
    · subst atNp
      rw [atChild, procChild]
    · rw [procs q atNp]
      by_cases atP : q = p
      · subst atP
        rw [atParent, same]
        exact accounts.proc q
      · rw [elsewhere q atP atNp]
        exact accounts.proc q
  · intro q f isFresh
    by_cases atNp : q = np
    · subst atNp
      rw [atChild] at isFresh
      change (held q).fresh f = true at isFresh
      rw [rested.fresh] at isFresh
      cases isFresh
    · by_cases atP : q = p
      · subst atP
        rw [atParent] at isFresh ⊢
        obtain ⟨before, file⟩ := fresh f isFresh
        rw [file]
        exact accounts.fresh q f before
      · rw [elsewhere q atP atNp] at isFresh ⊢
        exact accounts.fresh q f isFresh
  · intro q m c made
    by_cases atNp : q = np
    · subst atNp
      rw [atChild] at made
      exact absurd made (childless m c)
    · by_cases atP : q = p
      · subst atP
        rw [atParent, child] at made
        split at made
        case isTrue embryo =>
          cases made
          exact ⟨procChild, embryo⟩
        case isFalse => cases made
      · rw [elsewhere q atP atNp] at made
        have apart : m ≠ np := by
          rintro rfl
          exact atP (parents q c made)
        rw [procs m apart]
        exact accounts.child q m c made
  · intro q r m c d first second
    have parent : ∀ q c, (Function.update (Function.update held p h) np
        { held np with proc := proc } q).child = some (m, c) →
        q = p ∧ m = np ∨ q ≠ p ∧ (held q).child = some (m, c) := by
      intro q c made
      by_cases atNp : q = np
      · subst atNp
        rw [atChild] at made
        exact absurd made (childless m c)
      · by_cases atP : q = p
        · subst atP
          rw [atParent, child] at made
          split at made
          case isTrue =>
            cases made
            exact .inl ⟨rfl, rfl⟩
          case isFalse => cases made
        · rw [elsewhere q atP atNp] at made
          exact .inr ⟨atP, made⟩
    rcases parent q c first with ⟨atP, isNp⟩ | ⟨notP, made⟩
    · rcases parent r d second with ⟨alsoP, -⟩ | ⟨notP, made⟩
      · exact atP.trans alsoP.symm
      · rw [isNp] at made
        exact absurd (parents r d made) notP
    · rcases parent r d second with ⟨-, isNp⟩ | ⟨-, also⟩
      · rw [isNp] at made
        exact absurd (parents q c made) notP
      · exact accounts.parent q r m c d made also
  · intro m embryo
    by_cases atNp : m = np
    · subst atNp
      rw [procChild] at embryo
      refine ⟨p, proc, ?_⟩
      rw [atParent, child, if_pos embryo]
    · rw [procs m atNp] at embryo
      obtain ⟨q, c, made⟩ := accounts.embryo m embryo
      have notP : q ≠ p := by
        rintro rfl
        exact atNp (only m c made)
      have notNp : q ≠ np := by
        rintro rfl
        exact childless m c made
      exact ⟨q, c, by rw [elsewhere q notP notNp]; exact made⟩
  · intro q ended
    by_cases atNp : q = np
    · subst atNp
      rw [procChild] at ended ⊢
      exact dead ended
    · rw [procs q atNp] at ended ⊢
      exact accounts.dead q ended
  · intro q notLive
    by_cases atNp : q = np
    · subst atNp
      rw [procChild] at notLive
      rw [atChild]
      exact ⟨rested.inodes, rested.files, rested.ends, rested.fresh,
        rested.child, fun isLive => absurd isLive notLive⟩
    · rw [procs q atNp] at notLive
      have notP : q ≠ p := by
        rintro rfl
        rw [accounts.proc] at live
        exact notLive live
      rw [elsewhere q notP atNp]
      exact accounts.dormant q notLive

/-- A process that holds nothing ends. -/
theorem Accounts.zombie (state : h.proc.state = .zombie)
    (rested : h.Rested) (ofile : ∀ fd, h.proc.ofile fd = none)
    (cwd : h.proc.cwd = none) (child : (held p).child = none)
    (inode : h.inode = (held p).inode) (file : h.file = (held p).file)
    (ends : h.ends = (held p).ends) :
    Accounts (shared.setProc p h.proc) (Function.update held p h) := by
  have procs : ∀ q, q ≠ p → (shared.setProc p h.proc).procs q =
      shared.procs q := fun q other => update_of_ne other ..
  have procSelf : (shared.setProc p h.proc).procs p = h.proc := update_self ..
  have sums : ∀ {Weight : Type} [AddCommMonoid Weight]
      (weight : Held → Weight), weight h = weight (held p) →
      ∑ q, weight (Function.update held p h q) = ∑ q, weight (held q) := by
    intro Weight monoid weight equal
    refine Finset.sum_congr rfl fun q _ => ?_
    by_cases same : q = p
    · subst same
      rw [update_self, equal]
    · rw [update_of_ne same]
  have children : ∀ q, (Function.update held p h q).child = (held q).child := by
    intro q
    by_cases same : q = p
    · subst same
      rw [update_self, rested.child, child]
    · rw [update_of_ne same]
  have notEmbryo : ∀ q np c, (held q).child = some (np, c) → np ≠ p := by
    rintro q np c made rfl
    have known := accounts.child q np c made
    rw [accounts.proc, known.1, known.2] at live
    cases live
  refine ⟨?_, ?_, ?_, ?_, ?_, accounts.closed, ?_, accounts.unique, ?_, ?_, ?_,
    ?_, ?_, accounts.freed, accounts.unmade⟩
  · rw [sums Held.inode inode]
    exact accounts.inodes
  · rw [sums Held.file file]
    exact accounts.files
  · rw [sums Held.ends ends]
    exact accounts.ends
  · intro q
    by_cases same : q = p
    · subst same
      rw [update_self]
      have solvent := accounts.solvent q
      exact ⟨by rw [inode]; exact solvent.inode,
        by rw [file]; exact solvent.file, by rw [ends]; exact solvent.ends⟩
    · rw [update_of_ne same]
      exact accounts.solvent q
  · intro q
    by_cases same : q = p
    · subst same
      rw [update_self, procSelf]
    · rw [update_of_ne same, procs q same]
      exact accounts.proc q
  · intro q f isFresh
    by_cases same : q = p
    · subst same
      rw [update_self, rested.fresh] at isFresh
      cases isFresh
    · rw [update_of_ne same] at isFresh ⊢
      exact accounts.fresh q f isFresh
  · intro q np c made
    rw [children] at made
    rw [procs np (notEmbryo q np c made)]
    exact accounts.child q np c made
  · intro q r np c d first second
    rw [children] at first second
    exact accounts.parent q r np c d first second
  · intro np embryo
    have different : np ≠ p := by
      rintro rfl
      rw [procSelf, state] at embryo
      cases embryo
    rw [procs np different] at embryo
    obtain ⟨q, c, made⟩ := accounts.embryo np embryo
    exact ⟨q, c, (children q).trans made⟩
  · intro q ended
    by_cases same : q = p
    · subst same
      rw [procSelf]
      exact ⟨ofile, cwd⟩
    · rw [procs q same] at ended ⊢
      exact accounts.dead q ended
  · intro q notLive
    by_cases same : q = p
    · subst same
      rw [update_self]
      exact rested
    · rw [update_of_ne same]
      exact accounts.dormant q (by rwa [procs q same] at notLive)

end

end Update

end Xv6.Files
