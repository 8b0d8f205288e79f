import Xv6.Files.Accounts

/-!
# Every operation keeps the accounts
-/

namespace Xv6.Files

open Function Foundation.Interleaving Foundation.Tally
open Fs (Slot nfile nofile nproc ninode)

/-- `iget` finds the inode in the cache or an entry to recycle. -/
def Shared.Room (shared : Shared) : Op → Prop
  | .iget dev inum => shared.cached? dev inum ≠ none ∨ shared.empty? ≠ none
  | _ => True

section Held

variable {held : Held}

theorem descriptors_setFd (proc : Proc) (fd : Fin nofile) (entry : Option (Fin nfile)) :
    Proc.descriptors
        { proc with ofile := update proc.ofile fd entry } +
      point (proc.ofile fd) = proc.descriptors + point entry :=
  sum_update (Finset.mem_univ fd) point proc.ofile entry

/-- Changing a descriptor keeps the references. -/
theorem Held.file_setFd (fd : Fin nofile) (entry : Option (Fin nfile)) :
    (held.setFd fd entry).file = held.file := by
  have moved := descriptors_setFd held.proc fd entry
  unfold Held.file Held.setFd
  dsimp only
  linear_combination moved

/-- Changing the current directory keeps the references. -/
theorem Held.inode_setCwd (cwd : Option Slot) : (held.setCwd cwd).inode = held.inode := by
  unfold Held.inode Held.setCwd
  dsimp only
  abel

end Held

section Perform

variable {shared next : Shared} {held : Fin nproc → Held} {p : Fin nproc}

/-- What every operation does to the accounts. -/
def Keeps (roomy : Prop) (next : Shared) (held : Fin nproc → Held)
    (p : Fin nproc) (op : Op) (reply : Reply op) : Prop :=
  (rules roomy).possible op (held p) reply ∧ ∃ held', Accounts next held' ∧
      held' p = (rules roomy).after op reply (held p) ∧
      ∀ other, other ≠ p → held' other = held other ∨
        (∀ op, ¬ (rules roomy).allowed op (held other)) ∧ (held other).Rested ∧ (held' other).Rested

variable {roomy : Prop} {op : Op} {reply : Reply op}

/-- An operation that changes nothing. -/
theorem keeps_self (accounts : Accounts shared held)
    (possible : (rules roomy).possible op (held p) reply)
    (after : (rules roomy).after op reply (held p) = held p) : Keeps roomy shared held p op reply :=
  ⟨possible, held, accounts, after.symm, fun _ _ => .inl rfl⟩

variable {h : Held}

/-- An operation that changes what its process holds. -/
theorem keeps_update (accounts : Accounts next (update held p h))
    (possible : (rules roomy).possible op (held p) reply)
    (after : (rules roomy).after op reply (held p) = h) : Keeps roomy next held p op reply := by
  refine ⟨possible, _, accounts, ?_, fun other apart => .inl ?_⟩
  · rw [update_self, after]
  · exact update_of_ne apart ..

variable {np : Fin nproc}

/-- An operation that changes a process that does not run. -/
theorem keeps_family {proc : Proc}
    (before : Accounts shared held) (live : (held p).proc.state = .live)
    (sleeps : (shared.procs np).state ≠ .live)
    (accounts : Accounts next (update (update held p h) np { held np with proc := proc }))
    (possible : (rules roomy).possible op (held p) reply)
    (after : (rules roomy).after op reply (held p) = h)
    (cwd : proc.state = .live → proc.cwd ≠ none) : Keeps roomy next held p op reply := by
  have apart : p ≠ np := by
    rintro rfl
    rw [before.proc] at live
    exact sleeps live
  have rested := before.dormant np sleeps
  refine ⟨possible, _, accounts, ?_, fun other notP => ?_⟩
  · rw [update_of_ne apart, update_self, after]
  · by_cases same : other = np
    · subst same
      refine .inr ⟨fun op allowed => ?_, rested, ?_⟩
      · have isLive := allowed.1
        rw [before.proc] at isLive
        exact sleeps isLive
      · rw [update_self]
        exact ⟨rested.inodes, rested.files, rested.ends, rested.fresh, rested.child, cwd⟩
    · refine .inl ?_
      rw [update_of_ne same, update_of_ne notP]

/-! ## Inodes -/

theorem keeps_iget {dev inum : Nat} (accounts : Accounts shared held)
    (live : (held p).proc.state = .live) (room : roomy → shared.Room (.iget dev inum)) :
    Keeps roomy (shared.iget dev inum).2 held p (.iget dev inum) (shared.iget dev inum).1 := by
  unfold Shared.iget
  cases found : shared.cached? dev inum with
  | some ip =>
    have test := List.find?_some found
    obtain ⟨positive, sameDev, sameInum⟩ := of_decide_eq_true test
    refine keeps_update (accounts.inode live rfl ?_ ?_) (fun _ => Option.some_ne_none ip) rfl
    · have own := (accounts.solvent p).inode ip
      omega
    · rintro jp apart - held ⟨equalDev, equalInum⟩
      exact apart (accounts.unique jp ip held positive equalDev.symm equalInum.symm)
  | none =>
    have absent : ∀ jp, ¬ (0 < (shared.icache jp).ref ∧
        (shared.icache jp).dev = dev ∧ (shared.icache jp).inum = inum) := by
      intro jp matching
      exact List.find?_eq_none.mp found jp (List.mem_finRange jp) (decide_eq_true matching)
    cases empty : shared.empty? with
    | some ip =>
      have test := List.find?_some empty
      have zero : (shared.icache ip).ref = 0 := of_decide_eq_true test
      refine keeps_update (accounts.inode live ?_ ?_ ?_) (fun _ => Option.some_ne_none ip) rfl
      · rw [zero]
        rfl
      · have own := (accounts.solvent p).inode ip
        omega
      · rintro jp - - held ⟨equalDev, equalInum⟩
        exact absent jp ⟨held, equalDev.symm, equalInum.symm⟩
    | none =>
      refine keeps_self accounts (fun isRoomy => ?_) rfl
      rcases room isRoomy with cached | recycled
      · exact absurd found cached
      · exact absurd empty recycled

variable {ip : Slot}

/-- A count of the inode cache that stays positive, or falls. -/
theorem Accounts.unique_of_same {ref : Int} (accounts : Accounts shared held)
    (positive : 0 < ref → 0 < (shared.icache ip).ref) (jp : Slot)
    (apart : jp ≠ ip) (stays : 0 < ref) (held : 0 < shared.refs jp) :
    ¬ ((shared.icache ip).dev = (shared.icache jp).dev ∧
      (shared.icache ip).inum = (shared.icache jp).inum) :=
  fun same => apart (accounts.unique jp ip held (positive stays) same.1.symm same.2.symm)

section

variable (accounts : Accounts shared held) (live : (held p).proc.state = .live)
  (holds : 1 ≤ (held p).inode ip)
include accounts live holds

theorem keeps_idup :
    Keeps roomy (shared.setInode ip
        { shared.icache ip with ref := (shared.icache ip).ref + 1 }) held p
      (.idup ip) () := by
  have bound := accounts.inode_le p ip
  exact keeps_update (accounts.inode live rfl (by omega)
    (accounts.unique_of_same fun _ => by omega)) trivial rfl

theorem keeps_iput :
    Keeps roomy (shared.setInode ip
        { shared.icache ip with ref := (shared.icache ip).ref - 1 }) held p
      (.iput ip) () := by
  refine keeps_update (accounts.inode live rfl (by omega)
    (accounts.unique_of_same fun positive => ?_)) trivial ?_
  · change 0 < (shared.icache ip).ref - 1 at positive
    omega
  change (held p).drop ip = _
  unfold Held.drop
  rw [sub_eq_add_neg, ← Pi.single_neg]

end

/-! ## Open files -/

variable {f : Fin nfile}

theorem Accounts.not_fresh (accounts : Accounts shared held)
    (holds : 1 ≤ (held p).file f) (q : Fin nproc) (apart : q ≠ p) : (held q).fresh f = false := by
  by_contra isFresh
  exact apart (accounts.alone (by simpa using isFresh) holds).symm

theorem Held.file_takeFile (held : Held) (f : Fin nfile) :
    (held.takeFile f).file = held.file + Pi.single f 1 := by
  unfold Held.file Held.takeFile
  dsimp only
  abel

theorem keeps_filealloc (accounts : Accounts shared held) (live : (held p).proc.state = .live) :
    Keeps roomy shared.filealloc.2 held p .filealloc shared.filealloc.1 := by
  unfold Shared.filealloc
  split
  case h_1 f found =>
    have test := List.find?_some found
    have zero : (shared.ftable f).ref = 0 := of_decide_eq_true test
    have solvent := accounts.solvent p
    have none : (held p).file f = 0 := by
      have bound := accounts.file_le p f
      have nonneg := solvent.file f
      omega
    refine keeps_update (h := { (held p).takeFile f with
      fresh := update (held p).fresh f true })
      (accounts.file live rfl rfl rfl ?_ rfl ?_ ?_ ?_ ?_ ?_) ?_ rfl
    · change ((held p).takeFile f).file + _ = _
      rw [Held.file_takeFile, zero, Pi.single_zero, add_zero]
    · refine ⟨solvent.inode, fun g => ?_, solvent.ends⟩
      change 0 ≤ ((held p).takeFile f).file g
      rw [Held.file_takeFile, Pi.add_apply, Pi.single_apply]
      have nonneg := solvent.file g
      split <;> omega
    · intro one
      cases one
    · intro _
      refine ⟨accounts.closed f zero, rfl, ?_⟩
      change ((held p).takeFile f).file f = 1
      rw [Held.file_takeFile, Pi.add_apply, none, Pi.single_eq_same, zero_add]
    · intro g apart
      exact update_of_ne apart ..
    · intro q _
      by_contra isFresh
      have one := (accounts.fresh q f (by simpa using isFresh)).2.1
      omega
    · rintro g ⟨⟩
      exact none
  case h_2 => exact keeps_self accounts (fun f same => by cases same) rfl

theorem keeps_filedup (accounts : Accounts shared held)
    (live : (held p).proc.state = .live) (holds : 1 ≤ (held p).file f)
    (old : (held p).fresh f = false) :
    Keeps roomy (shared.setFile f { shared.ftable f with ref := (shared.ftable f).ref + 1 }) held p
      (.filedup f) true := by
  have solvent := accounts.solvent p
  have bound := accounts.file_le p f
  refine keeps_update (accounts.file (h := (held p).takeFile f) live rfl rfl
    rfl ?_ rfl ?_ ?_ ?_ (fun _ _ => rfl) (accounts.not_fresh holds)) rfl rfl
  · rw [Held.file_takeFile, add_assoc, ← Pi.single_add, add_comm 1]
  · refine ⟨solvent.inode, fun g => ?_, solvent.ends⟩
    rw [Held.file_takeFile, Pi.add_apply, Pi.single_apply]
    have nonneg := solvent.file g
    split <;> omega
  · intro zero
    change (shared.ftable f).ref + 1 = 0 at zero
    omega
  · intro isFresh
    change (held p).fresh f = true at isFresh
    rw [old] at isFresh
    cases isFresh

theorem Held.file_dropFile (held : Held) (f : Fin nfile) :
    (held.dropFile f).file = held.file - Pi.single f 1 := by
  unfold Held.file Held.dropFile
  dsimp only
  abel

theorem Held.solvent_dropFile (solvent : h.Solvent) (holds : 1 ≤ h.file f) :
    (h.dropFile f).Solvent := by
  refine ⟨solvent.inode, fun g => ?_, solvent.ends⟩
  rw [Held.file_dropFile]
  exact nonneg_sub_single solvent.file holds g

theorem Held.inode_receive (held : Held) (kind : Kind) :
    (held.receive kind).inode = held.inode + kind.grip := by
  unfold Held.inode Held.receive
  dsimp only
  rw [add_assoc]

section

variable (accounts : Accounts shared held)
include accounts

section

variable (live : (held p).proc.state = .live)
include live

theorem keeps_fileclose (holds : 1 ≤ (held p).file f) :
    Keeps roomy (shared.fileclose f).2 held p (.fileclose f) (shared.fileclose f).1 := by
  have solvent := accounts.solvent p
  have bound := accounts.file_le p f
  have dropped := Held.solvent_dropFile solvent holds
  have notFresh : ((held p).dropFile f).fresh f ≠ true := by
    change update (held p).fresh f false f ≠ true
    rw [update_self]
    exact Bool.false_ne_true
  have kept : ∀ g, g ≠ f → ((held p).dropFile f).fresh g =
      (held p).fresh g := fun g apart => update_of_ne apart ..
  unfold Shared.fileclose
  dsimp only
  rw [if_neg (show ¬ (shared.ftable f).ref < 1 by omega)]
  split
  case isTrue more =>
    refine keeps_update (accounts.file (h := (held p).dropFile f) live rfl rfl
      rfl ?_ rfl dropped ?_ (fun isFresh => absurd isFresh notFresh) kept
      (accounts.not_fresh holds)) ⟨by simp, fun isFresh => ?_⟩ rfl
    · rw [Held.file_dropFile, sub_add_eq_add_sub, add_sub_assoc, ← Pi.single_sub]
    · intro zero
      change (shared.ftable f).ref - 1 = 0 at zero
      omega
    · have one := (accounts.fresh p f isFresh).2.1
      omega
  case isFalse few =>
    have one : (shared.ftable f).ref = 1 := by omega
    refine keeps_update (accounts.file
      (h := ((held p).dropFile f).receive (shared.ftable f).kind) live rfl rfl
      ?_ ?_ ?_ ?_ (fun _ => rfl) (fun isFresh => absurd isFresh notFresh) kept
      (accounts.not_fresh holds)) ⟨by simp, fun isFresh => ?_⟩ rfl
    · rw [Held.inode_receive]
      exact add_zero _
    · change ((held p).dropFile f).file + _ = _
      rw [Held.file_dropFile, one, sub_add_cancel, Pi.single_zero, add_zero]
    · exact add_zero _
    · refine ⟨fun ip => ?_, dropped.file, fun e => ?_⟩
      · rw [Held.inode_receive]
        exact add_nonneg (dropped.inode ip) (Kind.grip_nonneg _ ip)
      · exact add_nonneg (dropped.ends e) (Kind.ends_nonneg _ e)
    · rw [(accounts.fresh p f isFresh).1]

theorem keeps_setKind {kind : Kind} (isFresh : (held p).fresh f = true)
    (inode : ∀ ip, kind.grip ip ≤ (held p).inode ip) (ends : ∀ e, kind.ends e ≤ (held p).ends e) :
    Keeps roomy (shared.setFile f { shared.ftable f with kind := kind }) held p
      (.setKind f kind) () := by
  have solvent := accounts.solvent p
  obtain ⟨none, one, mine⟩ := accounts.fresh p f isFresh
  have own : ((held p).give f kind).inode = (held p).inode - kind.grip := by
    unfold Held.inode Held.give
    dsimp only
    rw [add_sub_assoc]
  refine keeps_update (accounts.file (h := (held p).give f kind) live rfl rfl
    ?_ rfl ?_ ?_ ?_ ?_ ?_ (accounts.not_fresh (by omega))) trivial rfl
  · rw [own, none]
    exact (sub_add_cancel ..).trans (add_zero _).symm
  · rw [none]
    exact (sub_add_cancel ..).trans (add_zero _).symm
  · refine ⟨fun ip => ?_, solvent.file, fun e => ?_⟩
    · rw [own]
      exact sub_nonneg.mpr (inode ip)
    · exact sub_nonneg.mpr (ends e)
  · intro zero
    change (shared.ftable f).ref = 0 at zero
    omega
  · intro still
    change update (held p).fresh f false f = true at still
    rw [update_self] at still
    cases still
  · intro g apart
    exact update_of_ne apart ..

/-! ## The process itself -/

theorem keeps_setFd {fd : Fin nofile} {entry : Option (Fin nfile)}
    (possible : (rules roomy).possible op (held p) reply)
    (after : (rules roomy).after op reply (held p) = (held p).setFd fd entry) :
    Keeps roomy (shared.setProc p { shared.procs p with
          ofile := update (shared.procs p).ofile fd entry }) held p
      op reply := by
  have kept := accounts.private (h := (held p).setFd fd entry) live live rfl rfl
    (Held.file_setFd fd entry) rfl rfl
  have proc : ((held p).setFd fd entry).proc = { shared.procs p with
      ofile := update (shared.procs p).ofile fd entry } := by
    unfold Held.setFd
    dsimp only
    rw [accounts.proc]
  rw [proc] at kept
  exact keeps_update kept possible after

theorem keeps_setCwd {cwd : Option Slot} :
    Keeps roomy (shared.setProc p { shared.procs p with cwd := cwd }) held p (.setCwd cwd) () := by
  have kept := accounts.private (h := (held p).setCwd cwd) live live rfl
    (Held.inode_setCwd cwd) rfl rfl rfl
  have proc : ((held p).setCwd cwd).proc =
      { shared.procs p with cwd := cwd } := by
    unfold Held.setCwd
    dsimp only
    rw [accounts.proc]
  rw [proc] at kept
  exact keeps_update kept trivial rfl

end

theorem keeps_zombie (allowed : (rules roomy).allowed .zombie (held p)) :
    Keeps roomy (shared.setProc p { shared.procs p with state := .zombie }) held p .zombie () := by
  obtain ⟨live, inodes, files, ends, fresh, child, ofile, cwd⟩ := allowed
  have kept := accounts.zombie (h := { held p with
      proc := { (held p).proc with state := .zombie } }) live rfl
    ⟨inodes, files, ends, fresh, child, fun isLive => by cases isLive⟩ ofile
    cwd child rfl rfl rfl
  rw [show Held.proc { held p with
      proc := { (held p).proc with state := .zombie } } =
      { shared.procs p with state := .zombie } by
    rw [accounts.proc]] at kept
  exact keeps_update kept trivial rfl

/-! ## Other processes -/

theorem keeps_allocproc (live : (held p).proc.state = .live) (none : (held p).child = none) :
    Keeps roomy shared.allocproc.2 held p .allocproc shared.allocproc.1 := by
  unfold Shared.allocproc
  split
  case h_1 np found =>
    have test := List.find?_some found
    have unused : (shared.procs np).state = .unused := of_decide_eq_true test
    have sleeps : (shared.procs np).state ≠ .live := by
      rw [unused]
      decide
    obtain ⟨ofile, cwd⟩ := accounts.dead np (.inl unused)
    have blank : { shared.procs np with state := .embryo } =
        (⟨.embryo, fun _ => .none, .none⟩ : Proc) := by
      dsimp only
      rw [cwd, show (shared.procs np).ofile = fun _ => .none from funext ofile]
    have solvent := accounts.solvent p
    dsimp only
    rw [blank]
    refine keeps_family (h := { held p with
        child := some (np, ⟨.embryo, fun _ => .none, .none⟩) }) accounts live
      sleeps (accounts.family live sleeps ?_ ?_ rfl rfl ?_ ?_ rfl (fun _ isFresh => ⟨isFresh, rfl⟩)
        ⟨solvent.inode, solvent.file, solvent.ends⟩ ?_) trivial rfl ?_
    · intro embryo
      rw [unused] at embryo
      cases embryo
    · intro other child made
      rw [none] at made
      cases made
    · rw [cwd]
      rfl
    · have zero : (shared.procs np).descriptors =
          Proc.descriptors ⟨.embryo, fun _ => .none, .none⟩ := by
        unfold Proc.descriptors
        exact Finset.sum_congr rfl fun fd _ => by rw [ofile fd]
      rw [zero]
      rfl
    · intro _
      exact ⟨fun _ => rfl, rfl⟩
    · intro isLive
      cases isLive
  case h_2 =>
    refine keeps_self accounts trivial ?_
    change { held p with child := .none } = held p
    rw [← none]

theorem Accounts.making {child : Proc} (made : (held p).child = some (np, child)) :
    (shared.procs np).state ≠ .live ∧
      ∀ other proc, (held p).child = some (other, proc) → other = np := by
  obtain ⟨same, embryo⟩ := accounts.child p np child made
  refine ⟨?_, fun other proc also => ?_⟩
  · rw [same, embryo]
    decide
  · rw [made] at also
    cases also
    rfl

theorem keeps_freeproc (allowed : (rules roomy).allowed (.freeproc np) (held p)) :
    Keeps roomy (shared.setProc np
        { shared.procs np with state := .unused }) held p (.freeproc np) () := by
  obtain ⟨live, child, made, ofile, cwd⟩ := allowed
  obtain ⟨sleeps, only⟩ := accounts.making made
  obtain ⟨same, -⟩ := accounts.child p np child made
  have solvent := accounts.solvent p
  refine keeps_family (h := { held p with child := none }) accounts live sleeps
    (accounts.family live sleeps (fun _ => ⟨child, made⟩) only rfl rfl rfl rfl
      rfl (fun _ isFresh => ⟨isFresh, rfl⟩)
      ⟨solvent.inode, solvent.file, solvent.ends⟩ fun _ => ?_) trivial rfl ?_
  · dsimp only
    rw [same]
    exact ⟨ofile, cwd⟩
  · intro isLive
    cases isLive

theorem keeps_runnable (allowed : (rules roomy).allowed (.runnable np) (held p)) :
    Keeps roomy (shared.setProc np
        { shared.procs np with state := .live }) held p (.runnable np) () := by
  obtain ⟨live, child, made, cwd⟩ := allowed
  obtain ⟨sleeps, only⟩ := accounts.making made
  obtain ⟨same, -⟩ := accounts.child p np child made
  have solvent := accounts.solvent p
  refine keeps_family (h := { held p with child := none }) accounts live sleeps
    (accounts.family live sleeps (fun _ => ⟨child, made⟩) only rfl rfl rfl rfl
      rfl (fun _ isFresh => ⟨isFresh, rfl⟩)
      ⟨solvent.inode, solvent.file, solvent.ends⟩ ?_) trivial rfl ?_
  · rintro (ended | ended) <;> cases ended
  · intro _
    dsimp only
    rw [same]
    exact cwd

theorem keeps_reap (allowed : (rules roomy).allowed (.reap np) (held p))
    (zombie : (shared.procs np).state = .zombie) :
    Keeps roomy (shared.setProc np
        { shared.procs np with state := .unused }) held p (.reap np) () := by
  obtain ⟨live, none⟩ := allowed
  have none : (held p).child = .none := none
  have sleeps : (shared.procs np).state ≠ .live := by
    rw [zombie]
    decide
  have solvent := accounts.solvent p
  refine keeps_family (h := held p) accounts live sleeps
    (accounts.family live sleeps ?_ ?_ rfl none rfl rfl rfl
      (fun _ isFresh => ⟨isFresh, rfl⟩) solvent fun _ => ?_) trivial rfl ?_
  · intro embryo
    rw [zombie] at embryo
    cases embryo
  · intro other child made
    rw [none] at made
    cases made
  · exact accounts.dead np (.inr zombie)
  · intro isLive
    cases isLive

theorem keeps_setChildFd {fd : Fin nofile}
    (allowed : (rules roomy).allowed (.setChildFd np fd f) (held p)) :
    Keeps roomy (shared.setProc np { shared.procs np with
          ofile := update (shared.procs np).ofile fd (some f) }) held p
      (.setChildFd np fd f) () := by
  obtain ⟨live, holds, old, child, made, empty⟩ := allowed
  obtain ⟨sleeps, only⟩ := accounts.making made
  obtain ⟨rfl, embryo⟩ := accounts.child p np child made
  have solvent := accounts.solvent p
  have own : Held.file { held p with
      files := (held p).files - Pi.single f 1
      child := some (np, { shared.procs np with
        ofile := update (shared.procs np).ofile fd (some f) }) } =
      (held p).file - Pi.single f 1 := by
    unfold Held.file
    dsimp only
    rw [add_sub_assoc]
  refine keeps_family (h := { held p with
      files := (held p).files - Pi.single f 1
      child := some (np, { shared.procs np with
        ofile := update (shared.procs np).ofile fd (some f) }) })
    accounts live sleeps (accounts.family live sleeps
      (fun _ => ⟨_, made⟩) only rfl (if_pos embryo).symm rfl ?_ rfl ?_ ?_ ?_)
    trivial ?_ ?_
  · have moved := descriptors_setFd (shared.procs np) fd (some f)
    rw [empty] at moved
    have none : point (none : Option (Fin nfile)) = 0 := rfl
    have one : point (some f) = Pi.single f 1 := rfl
    rw [none, one] at moved
    rw [own]
    linear_combination moved
  · intro g isFresh
    refine ⟨isFresh, ?_⟩
    have apart : g ≠ f := by
      rintro rfl
      rw [old] at isFresh
      cases isFresh
    rw [own, Pi.sub_apply, Pi.single_eq_of_ne apart, sub_zero]
  · refine ⟨solvent.inode, fun g => ?_, solvent.ends⟩
    rw [own]
    exact nonneg_sub_single solvent.file holds g
  · rintro (ended | ended)
    · exact absurd (embryo.symm.trans ended) (by decide)
    · exact absurd (embryo.symm.trans ended) (by decide)
  · unfold rules
    dsimp only
    rw [made]
    rfl
  · intro isLive
    exact absurd (embryo.symm.trans isLive) (by decide)

theorem keeps_setChildCwd (allowed : (rules roomy).allowed (.setChildCwd np ip) (held p)) :
    Keeps roomy (shared.setProc np { shared.procs np with cwd := some ip }) held p
      (.setChildCwd np ip) () := by
  obtain ⟨live, holds, child, made, empty⟩ := allowed
  obtain ⟨sleeps, only⟩ := accounts.making made
  obtain ⟨rfl, embryo⟩ := accounts.child p np child made
  have solvent := accounts.solvent p
  have own : Held.inode { held p with
      inodes := (held p).inodes - Pi.single ip 1
      child := some (np, { shared.procs np with cwd := some ip }) } =
      (held p).inode - Pi.single ip 1 := by
    unfold Held.inode
    dsimp only
    rw [add_sub_assoc]
  refine keeps_family (h := { held p with
      inodes := (held p).inodes - Pi.single ip 1
      child := some (np, { shared.procs np with cwd := some ip }) })
    accounts live sleeps (accounts.family live sleeps
      (fun _ => ⟨_, made⟩) only rfl (if_pos embryo).symm ?_ rfl rfl
      (fun _ isFresh => ⟨isFresh, rfl⟩) ?_ ?_)
    trivial ?_ ?_
  · rw [own, empty]
    change (held p).inode - Pi.single ip 1 + Pi.single ip 1 = (held p).inode + 0
    rw [sub_add_cancel, add_zero]
  · refine ⟨fun jp => ?_, solvent.file, solvent.ends⟩
    rw [own]
    exact nonneg_sub_single solvent.inode holds jp
  · rintro (ended | ended)
    · exact absurd (embryo.symm.trans ended) (by decide)
    · exact absurd (embryo.symm.trans ended) (by decide)
  · unfold rules
    dsimp only
    rw [made]
    rfl
  · intro isLive
    exact absurd (embryo.symm.trans isLive) (by decide)

/-! ## All operations -/

theorem keeps_perform {choice : Nat} (room : roomy → shared.Room op)
    (allowed : (rules roomy).allowed op (held p))
    (performed : shared.perform p op choice = some (reply, next)) :
    Keeps roomy next held p op reply := by
  have live := allowed.1
  cases op with
  | choose =>
    cases performed
    exact keeps_self accounts trivial rfl
  | panic message => cases performed
  | iget dev inum =>
    have result := keeps_iget accounts live room
    rw [Option.some.inj performed] at result
    exact result
  | idup ip =>
    cases performed
    exact keeps_idup accounts live allowed.2
  | iput ip =>
    cases performed
    exact keeps_iput accounts live allowed.2
  | filealloc =>
    have result : Keeps roomy shared.filealloc.2 held p .filealloc
        shared.filealloc.1 := keeps_filealloc accounts live
    rw [Option.some.inj performed] at result
    exact result
  | filedup f =>
    obtain ⟨-, holds, old⟩ := allowed
    have bound := accounts.file_le p f
    simp only [Shared.perform] at performed
    rw [if_neg (show ¬ (shared.ftable f).ref < 1 by omega)] at performed
    cases performed
    exact keeps_filedup accounts live holds old
  | fileclose f =>
    have result : Keeps roomy (shared.fileclose f).2 held p (.fileclose f)
        (shared.fileclose f).1 := keeps_fileclose accounts live allowed.2
    rw [Option.some.inj performed] at result
    exact result
  | setKind f kind =>
    cases performed
    obtain ⟨-, isFresh, inode, ends, -⟩ := allowed
    exact keeps_setKind accounts live isFresh inode ends
  | newPipe =>
    simp only [Shared.perform] at performed
    split at performed
    case isTrue =>
      cases performed
      exact keeps_self accounts trivial rfl
    case isFalse =>
      cases performed
      exact keeps_update (accounts.newPipe live) trivial rfl
  | pipeclose pipe writable =>
    cases performed
    exact keeps_update (accounts.pipeclose live allowed.2) trivial rfl
  | getFd fd =>
    cases performed
    exact keeps_self accounts (by rw [← accounts.proc]; rfl) rfl
  | clearFd fd =>
    cases performed
    exact keeps_setFd accounts live trivial rfl
  | fdalloc f =>
    simp only [Shared.perform, Shared.fdalloc] at performed
    split at performed
    case h_1 fd found =>
      cases performed
      have test := List.find?_some found
      have empty : (shared.procs p).ofile fd = none := of_decide_eq_true test
      refine keeps_setFd accounts live ?_ rfl
      rintro other ⟨⟩
      rw [accounts.proc]
      exact empty
    case h_2 =>
      cases performed
      exact keeps_self accounts (fun fd same => by cases same) rfl
  | getCwd =>
    cases performed
    exact keeps_self accounts (by rw [← accounts.proc]; rfl) rfl
  | setCwd cwd =>
    cases performed
    exact keeps_setCwd accounts live
  | allocproc =>
    have result : Keeps roomy shared.allocproc.2 held p .allocproc
        shared.allocproc.1 := keeps_allocproc accounts live allowed.2
    rw [Option.some.inj performed] at result
    exact result
  | freeproc np =>
    cases performed
    exact keeps_freeproc accounts allowed
  | setChildFd np fd f =>
    cases performed
    exact keeps_setChildFd accounts allowed
  | setChildCwd np ip =>
    cases performed
    exact keeps_setChildCwd accounts allowed
  | runnable np =>
    cases performed
    exact keeps_runnable accounts allowed
  | zombie =>
    cases performed
    exact keeps_zombie accounts allowed
  | reap child =>
    simp only [Shared.perform] at performed
    split at performed
    case isTrue zombie =>
      cases performed
      exact keeps_reap accounts allowed zombie
    case isFalse => cases performed

end

end Perform

end Xv6.Files
