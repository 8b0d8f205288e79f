import Xv6.Files.Operations

/-!
# Every call gives back what it took

The code of every call follows the rules of the operations, along every path
and also where it fails midway, and ends with nothing held.
-/

namespace Xv6.Files

open Function Foundation.Interleaving Foundation.Interleaving.Rules
open Fs (Slot nfile nofile nproc ninode rootdev rootino skipelem slash)
open Pi (single single_eq_same)

namespace Held

variable {held : Held}

/-- A process that runs a call. -/
structure Afoot (held : Held) : Prop where
  live : held.proc.state = .live
  inodes : ∀ ip, 0 ≤ held.inodes ip
  ends : ∀ e, 0 ≤ held.ends e

/-- The current directory can be given back, and be taken once more. -/
theorem Afoot.one_le_cwd {ip : Slot} (afoot : held.Afoot)
    (current : held.proc.cwd = some ip) : 1 ≤ held.inode ip := by
  have more := afoot.inodes ip
  unfold inode
  rw [current, Pi.add_apply]
  change 1 ≤ (single ip 1 : Slot → Int) ip + _
  rw [single_eq_same]
  omega

theorem Afoot.take (afoot : held.Afoot) (ip : Slot) : (held.take ip).Afoot := by
  refine ⟨afoot.live, fun jp => ?_, afoot.ends⟩
  have before := afoot.inodes jp
  change 0 ≤ held.inodes jp + (single ip 1 : Slot → Int) jp
  rw [Pi.single_apply]
  split <;> omega

theorem Afoot.one_le_take (afoot : held.Afoot) (ip : Slot) : 1 ≤ (held.take ip).inode ip := by
  have before := afoot.inodes ip
  have current := point_nonneg held.proc.cwd ip
  change 1 ≤ point held.proc.cwd ip + (held.inodes ip + (single ip 1 : Slot → Int) ip)
  rw [single_eq_same]
  omega

@[simp] theorem drop_take (held : Held) (ip : Slot) : (held.take ip).drop ip = held := by
  unfold take drop
  dsimp only
  rw [add_sub_cancel_right]

theorem take_comm (held : Held) (ip jp : Slot) :
    (held.take ip).take jp = (held.take jp).take ip := by
  unfold take
  dsimp only
  rw [add_right_comm]

end Held

open Held (Afoot)

section Payment

variable {roomy : Prop} {α : Type} {held : Held} {post : α → Held → Prop}

/-! ## Inodes -/

theorem pays_test {next : Bool → FileM α} (afoot : held.Afoot)
    (each : ∀ found, (rules roomy).Pays post (next found) held) :
    (rules roomy).Pays post (test >>= next) held := by
  refine ⟨⟨afoot.live, trivial⟩, fun choice _ => each _⟩

variable {next : Unit → FileM α}

section

variable (afoot : held.Afoot)
include afoot

theorem pays_panic {message : String} (other : message ≠ "filedup" ∧ message ≠ "fileclose" ∧
      (roomy → message ≠ "iget: no inodes")) :
    (rules roomy).Pays post (op (.panic message) >>= next) held :=
  ⟨⟨afoot.live, other⟩, fun _ never => absurd never id⟩

theorem pays_iput {ip : Slot} (rest : (rules roomy).Pays post (next ()) held) :
    (rules roomy).Pays post (op (.iput ip) >>= next) (held.take ip) := by
  refine ⟨⟨afoot.live, afoot.one_le_take ip⟩, fun _ _ => ?_⟩
  change (rules roomy).Pays post (next ()) ((held.take ip).drop ip)
  rw [Held.drop_take]
  exact rest

/-- The other of two inodes is given back. -/
theorem pays_iput_first {ip jp : Slot} (rest : (rules roomy).Pays post (next ()) (held.take jp)) :
    (rules roomy).Pays post (op (.iput ip) >>= next) ((held.take ip).take jp) := by
  rw [Held.take_comm]
  exact pays_iput (afoot.take jp) rest

theorem pays_iget {next : Slot → FileM α} {dev inum : Nat}
    (rest : ∀ ip, (rules roomy).Pays post (next ip) (held.take ip)) :
    (rules roomy).Pays post (iget dev inum >>= next) held := by
  refine ⟨⟨afoot.live, trivial⟩, fun reply possible => ?_⟩
  cases reply with
  | some ip => exact rest ip
  | none =>
    exact pays_panic afoot ⟨by decide, by decide,
      fun isRoomy => absurd rfl (possible isRoomy)⟩

theorem pays_dirlookup {next : Option Slot → FileM α}
    (absent : (rules roomy).Pays post (next none) held)
    (present : ∀ ip, (rules roomy).Pays post (next (some ip)) (held.take ip)) :
    (rules roomy).Pays post (dirlookup >>= next) held := by
  refine (pays_bind ..).mpr ⟨⟨afoot.live, trivial⟩, fun (inum : Nat) _ => ?_⟩
  change (rules roomy).Pays _ (if inum = 0 then pure none
      else iget rootdev inum >>= fun ip => pure (some ip)) held
  split
  case isTrue => exact absent
  case isFalse => exact pays_iget afoot present

theorem pays_dirlink {next : Bool → FileM α}
    (each : ∀ linked, (rules roomy).Pays post (next linked) held) :
    (rules roomy).Pays post (dirlink >>= next) held := by
  refine (pays_bind ..).mpr (pays_dirlookup afoot ?_ fun ip => ?_)
  · exact each true
  · exact pays_iput afoot (each false)

end

/-- What a lookup leaves: nothing, or the inode it found. -/
def Finds (held : Held) (post : α → Held → Prop)
    (next : Option Slot → FileM α) (roomy : Prop) : Prop :=
  (rules roomy).Pays post (next none) held ∧
    ∀ ip, (rules roomy).Pays post (next (some ip)) (held.take ip)

theorem pays_namexLoop {next : Option Slot → FileM α} (nameiparent : Bool)
    (afoot : held.Afoot) (finds : Finds held post next roomy)
    (fuel : Nat) (path : List Byte) (ip : Slot) :
    (rules roomy).Pays post (namexLoop nameiparent fuel path ip >>= next) (held.take ip) := by
  have gives : (rules roomy).Pays (fun value held => (rules roomy).Pays post (next value) held)
      (op (.iput ip) >>= fun _ => pure none) (held.take ip) :=
    pays_iput afoot finds.1
  induction fuel generalizing path ip with
  | zero => exact (pays_bind ..).mpr gives
  | succ fuel ih =>
    refine (pays_bind ..).mpr ?_
    rw [namexLoop.eq_def]
    dsimp only
    split
    case h_1 =>
      split
      case isTrue => exact gives
      case isFalse => exact finds.2 ip
    case h_2 =>
      refine pays_test (afoot.take ip) fun dir => ?_
      split
      case isTrue => exact gives
      case isFalse =>
        split
        case isTrue => exact finds.2 ip
        case isFalse =>
          refine pays_dirlookup (afoot.take ip) gives fun found => ?_
          refine pays_iput_first afoot ((pays_bind ..).mp ?_)
          exact ih _ found (pays_iput afoot finds.1)

variable {path : List Byte}

theorem pays_namex {next : Option Slot → FileM α} {nameiparent : Bool}
    (afoot : held.Afoot) (finds : Finds held post next roomy) :
    (rules roomy).Pays post (namex path nameiparent >>= next) held := by
  refine (pays_bind ..).mpr ?_
  unfold namex
  split
  case isTrue =>
    exact pays_iget afoot fun ip =>
      (pays_bind ..).mp (pays_namexLoop nameiparent afoot finds _ path ip)
  case isFalse =>
    refine ⟨⟨afoot.live, trivial⟩, fun cwd current => ?_⟩
    cases cwd with
    | none => exact finds.1
    | some ip =>
      exact ⟨⟨afoot.live, afoot.one_le_cwd current.symm⟩, fun _ _ =>
        (pays_bind ..).mp (pays_namexLoop nameiparent afoot finds _ path ip)⟩

theorem pays_create {next : Option Slot → FileM α} {file dir : Bool}
    (afoot : held.Afoot) (finds : Finds held post next roomy) :
    (rules roomy).Pays post (create path file dir >>= next) held := by
  have links : ∀ dp ip, (rules roomy).Pays
      (fun value held => (rules roomy).Pays post (next value) held)
      (do
        if !(← dirlink) then op (.panic "create: dirlink")
        op (.iput dp)
        return some ip)
      ((held.take dp).take ip) := by
    intro dp ip
    refine pays_dirlink ((afoot.take dp).take ip) fun linked => ?_
    cases linked with
    | false =>
      exact pays_panic ((afoot.take dp).take ip) ⟨by decide, by decide,
        fun _ => by decide⟩
    | true => exact pays_iput_first afoot (finds.2 ip)
  refine (pays_bind ..).mpr ?_
  unfold create
  refine pays_namex afoot ⟨finds.1, fun dp => ?_⟩
  refine pays_dirlookup (afoot.take dp) ?_ fun ip => ?_
  · refine ⟨⟨afoot.live, trivial⟩, fun inum _ => ?_⟩
    refine pays_iget (afoot.take dp) fun ip => ?_
    have both := (afoot.take dp).take ip
    cases dir with
    | false => exact links dp ip
    | true =>
      refine pays_dirlink both fun first => ?_
      cases first with
      | false => exact pays_panic both ⟨by decide, by decide, fun _ => by decide⟩
      | true =>
        refine pays_dirlink both fun second => ?_
        cases second with
        | false =>
          exact pays_panic both ⟨by decide, by decide,
            fun _ => by decide⟩
        | true => exact links dp ip
  · refine pays_iput_first afoot ?_
    refine pays_test (afoot.take ip) fun sameType => ?_
    split
    case isTrue => exact finds.2 ip
    case isFalse => exact pays_iput afoot finds.1

/-! ## Open files -/

@[simp] theorem Held.receive_none (held : Held) : held.receive .none = held := by
  unfold Held.receive Kind.grip Kind.ends
  dsimp only
  rw [add_zero, add_zero]

variable {f : Fin nfile}

theorem pays_fileclose (afoot : held.Afoot)
    (holds : 1 ≤ held.file f) (rest : (rules roomy).Pays post (next ()) (held.dropFile f)) :
    (rules roomy).Pays post (fileclose f >>= next) held := by
  refine (pays_bind ..).mpr ⟨⟨afoot.live, holds⟩, fun reply possible => ?_⟩
  cases reply with
  | bad => exact absurd rfl possible.1
  | shared => exact rest
  | last kind =>
    change (rules roomy).Pays _ _ ((held.dropFile f).receive kind)
    cases kind with
    | none =>
      rw [Held.receive_none]
      exact rest
    | pipe pipe writable =>
      refine ⟨⟨afoot.live, ?_⟩, fun _ _ => ?_⟩
      · have before := afoot.ends (pipe, writable)
        change 1 ≤ held.ends _ + (single (pipe, writable) 1 : Nat × Bool → Int) _
        rw [single_eq_same]
        omega
      · change (rules roomy).Pays post (next ())
          { held.dropFile f with
            inodes := held.inodes + 0
            ends := held.ends + single (pipe, writable) 1 - single (pipe, writable) 1 }
        rw [add_sub_cancel_right, add_zero]
        exact rest
    | inode ip =>
      refine ⟨⟨afoot.live, ?_⟩, fun _ _ => ?_⟩
      · have before := afoot.inodes ip
        have current := point_nonneg held.proc.cwd ip
        change 1 ≤ point held.proc.cwd ip + (held.inodes ip + (single ip 1 : Slot → Int) ip)
        rw [single_eq_same]
        omega
      · change (rules roomy).Pays post (next ())
          { held.dropFile f with
            inodes := held.inodes + single ip 1 - single ip 1
            ends := held.ends + 0 }
        rw [add_sub_cancel_right, add_zero]
        exact rest

/-- Between operations on files a process holds references to open files, and
nothing else. -/
structure Held.Carries (held : Held) (files : Fin nfile → Int) : Prop where
  live : held.proc.state = .live
  cwd : held.proc.cwd ≠ none
  inodes : held.inodes = 0
  files : held.files = files
  ends : held.ends = 0
  fresh : ∀ f, held.fresh f = false
  child : held.child = none

namespace Held

variable {files : Fin nfile → Int}

theorem Rested.carries (rested : held.Rested) (live : held.proc.state = .live) : held.Carries 0 :=
  ⟨live, rested.cwd live, rested.inodes, rested.files, rested.ends, rested.fresh, rested.child⟩

theorem Carries.rested (carries : held.Carries 0) : held.Rested :=
  ⟨carries.inodes, carries.files, carries.ends, carries.fresh, carries.child, fun _ => carries.cwd⟩

theorem Carries.afoot (carries : held.Carries files) : held.Afoot := by
  refine ⟨carries.live, fun ip => ?_, fun e => ?_⟩
  · rw [carries.inodes]
    exact le_rfl
  · rw [carries.ends]
    exact le_rfl

theorem Carries.nonneg (carries : held.Carries 0) (f : Fin nfile) : 0 ≤ held.files f := by
  rw [carries.files]
  exact le_rfl

/-- A file that is given a type is not fresh any more. -/
theorem Carries.settled (carries : held.Carries files) (f other : Fin nfile) :
    update (update held.fresh f true) f false other = false := by
  rw [update_idem, update_apply]
  split
  case isTrue => rfl
  case isFalse => exact carries.fresh other

theorem Carries.dropFile (carries : held.Carries files) (f : Fin nfile) :
    (held.dropFile f).Carries (files - single f 1) where
  live := carries.live
  cwd := carries.cwd
  inodes := carries.inodes
  files := congrArg (· - single f 1) carries.files
  ends := carries.ends
  fresh g := by
    change update held.fresh f false g = false
    rw [update_apply]
    split
    case isTrue => rfl
    case isFalse => exact carries.fresh g
  child := carries.child

theorem Carries.setFd (carries : held.Carries files) (fd : Fin nofile)
    (entry : Option (Fin nfile)) :
    (held.setFd fd entry).Carries (files + point (held.proc.ofile fd) - point entry) where
  live := carries.live
  cwd := carries.cwd
  inodes := carries.inodes
  files := by
    change held.files + _ - _ = _
    rw [carries.files]
  ends := carries.ends
  fresh := carries.fresh
  child := carries.child

/-- A process has the references of its descriptors. -/
theorem one_le_file {fd : Fin nofile} {f : Fin nfile}
    (stored : held.proc.ofile fd = some f) (carried : 0 ≤ held.files f) : 1 ≤ held.file f := by
  have entry : point (held.proc.ofile fd) f ≤ ∑ fd, point (held.proc.ofile fd) f :=
    Finset.single_le_sum (fun fd _ => point_nonneg (held.proc.ofile fd) f) (Finset.mem_univ fd)
  rw [stored] at entry
  change (single f 1 : Fin nfile → Int) f ≤ _ at entry
  rw [single_eq_same] at entry
  unfold file Proc.descriptors
  rw [Pi.add_apply, Finset.sum_apply]
  omega

theorem one_le_file_of_carried {f : Fin nfile} (carried : 1 ≤ held.files f) : 1 ≤ held.file f := by
  have stored := held.proc.descriptors_nonneg f
  unfold file
  rw [Pi.add_apply]
  omega

end Held

/-- `fileclose` of a reference that the process carries. -/
theorem pays_fileclose_carried {files : Fin nfile → Int} (carries : held.Carries files)
    (one : 1 ≤ files f)
    (rest : (held.dropFile f).Carries (files - single f 1) →
      (rules roomy).Pays post (next ()) (held.dropFile f)) :
    (rules roomy).Pays post (fileclose f >>= next) held := by
  refine pays_fileclose carries.afoot (Held.one_le_file_of_carried ?_) (rest (carries.dropFile f))
  rw [carries.files]
  exact one

/-- What the process holds after it has allocated an open file. -/
def Held.alloc (held : Held) (f : Fin nfile) : Held :=
  { held.takeFile f with fresh := Function.update held.fresh f true }

/-- After the second allocation the files are different. -/
theorem Held.ne_of_alloc {g : Fin nfile} (carries : held.Carries 0)
    (unheld : (held.alloc f).file g = 0) : f ≠ g := by
  rintro rfl
  have own : 1 ≤ (held.alloc f).file f := by
    refine one_le_file_of_carried ?_
    change 1 ≤ held.files f + (single f 1 : Fin nfile → Int) f
    rw [carries.files, single_eq_same]
    exact le_rfl
  omega

/-- `fileclose` of an open file that was just allocated. -/
theorem pays_fileclose_alloc (afoot : held.Afoot)
    (nonneg : 0 ≤ held.files f) (old : held.fresh f = false)
    (rest : (rules roomy).Pays post (next ()) held) :
    (rules roomy).Pays post (fileclose f >>= next) (held.alloc f) := by
  refine pays_fileclose ⟨afoot.live, afoot.inodes, afoot.ends⟩ (Held.one_le_file_of_carried ?_) ?_
  · change 1 ≤ held.files f + (single f 1 : Fin nfile → Int) f
    rw [single_eq_same]
    omega
  · have same : (held.alloc f).dropFile f = held := by
      unfold Held.alloc Held.dropFile Held.takeFile
      dsimp only
      rw [add_sub_cancel_right, update_idem, update_eq_self_iff.mpr old.symm]
    rw [same]
    exact rest

theorem pays_openFile (carries : held.Carries 0) (ip : Slot) :
    (rules roomy).Pays (fun _ => Held.Rested) (openFile ip) (held.take ip) := by
  have afoot := carries.afoot
  refine ⟨⟨carries.live, trivial⟩, fun file _ => ?_⟩
  cases file with
  | none => exact pays_iput afoot carries.rested
  | some f =>
    refine ⟨⟨carries.live, trivial⟩, fun fd free => ?_⟩
    cases fd with
    | none =>
      exact pays_fileclose_alloc (afoot.take ip) (carries.nonneg f)
        (carries.fresh f) (pays_iput afoot carries.rested)
    | some fd =>
      refine ⟨⟨carries.live, update_self .., fun jp => ?_,
        afoot.ends, fun same => (by cases same)⟩, fun _ _ => ?_⟩
      · have current := point_nonneg held.proc.cwd jp
        have others := afoot.inodes jp
        change (single ip 1 : Slot → Int) jp ≤ point held.proc.cwd jp +
          (held.inodes jp + (single ip 1 : Slot → Int) jp)
        omega
      · refine ⟨?_, ?_, ?_, carries.settled f, carries.child, fun _ => carries.cwd⟩
        · change held.inodes + single ip 1 - single ip 1 = 0
          rw [add_sub_cancel_right]
          exact carries.inodes
        · have empty : held.proc.ofile fd = none := free fd rfl
          change held.files + single f 1 + point (held.proc.ofile fd) - single f 1 = 0
          rw [empty]
          change held.files + single f 1 + 0 - single f 1 = 0
          rw [add_zero, add_sub_cancel_right, carries.files]
        · change held.ends - 0 = 0
          rw [sub_zero, carries.ends]

theorem pays_sysClose (carries : held.Carries 0) (fd : Fin nofile) :
    (rules roomy).Pays (fun _ => Held.Rested) (sysClose fd) held := by
  refine ⟨⟨carries.live, trivial⟩, fun file stored => ?_⟩
  cases file with
  | none => exact carries.rested
  | some f =>
    refine ⟨⟨carries.live, trivial⟩, fun _ _ => ?_⟩
    have taken := carries.setFd fd none
    rw [← stored] at taken
    have one : (0 + point (some f) - point none : Fin nfile → Int) = single f 1 := by
      change (0 + single f 1 - 0 : Fin nfile → Int) = _
      rw [zero_add, sub_zero]
    rw [one] at taken
    refine pays_fileclose_carried taken (by rw [single_eq_same])
      fun closed => ?_
    rw [sub_self] at closed
    exact closed.rested

theorem pays_filedup (live : held.proc.state = .live)
    (holds : 1 ≤ held.file f) (old : held.fresh f = false)
    (rest : (rules roomy).Pays post (next ()) (held.takeFile f)) :
    (rules roomy).Pays post (filedup f >>= next) held := by
  refine (pays_bind ..).mpr ⟨⟨live, holds, old⟩, fun reply possible => ?_⟩
  cases (possible : reply = true)
  exact rest

theorem pays_sysDup (carries : held.Carries 0) (fd : Fin nofile) :
    (rules roomy).Pays (fun _ => Held.Rested) (sysDup fd) held := by
  refine ⟨⟨carries.live, trivial⟩, fun file stored => ?_⟩
  cases file with
  | none => exact carries.rested
  | some f =>
    refine ⟨⟨carries.live, trivial⟩, fun fd' free => ?_⟩
    cases fd' with
    | none => exact carries.rested
    | some fd' =>
      have empty : held.proc.ofile fd' = none := free fd' rfl
      have owed := carries.setFd fd' (some f)
      rw [empty] at owed
      refine pays_filedup carries.live ?_ (carries.fresh f) ?_
      · change 1 ≤ (held.setFd fd' (some f)).file f
        rw [Held.file_setFd]
        refine Held.one_le_file (Eq.symm stored) ?_
        rw [carries.files]
        exact le_rfl
      · refine ⟨owed.inodes, ?_, owed.ends, owed.fresh, owed.child, fun _ => owed.cwd⟩
        change (held.setFd fd' (some f)).files + single f 1 = 0
        rw [owed.files]
        change (0 + 0 - single f 1 + single f 1 : Fin nfile → Int) = 0
        rw [sub_add_cancel, add_zero]

/-! ## Pipes -/

theorem Held.alloc_comm {g : Fin nfile} (apart : f ≠ g) :
    (held.alloc f).alloc g = (held.alloc g).alloc f := by
  unfold Held.alloc Held.takeFile
  dsimp only
  rw [add_right_comm, update_comm apart]

/-- Both ends of a pipe are moved to two open files. -/
theorem Held.Carries.pipe {f0 f1 : Fin nfile} (pipe : Nat)
    (carries : held.Carries 0) (apart : f0 ≠ f1) :
    Held.Carries
      ((Held.give { (held.alloc f0).alloc f1 with
        ends := held.ends + single (pipe, false) 1 +
          single (pipe, true) 1 } f0 (.pipe pipe false)).give f1
        (.pipe pipe true))
      (single f0 1 + single f1 1) where
  live := carries.live
  cwd := carries.cwd
  inodes := by
    change held.inodes - 0 - 0 = 0
    rw [sub_zero, sub_zero, carries.inodes]
  files := by
    change held.files + single f0 1 + single f1 1 = _
    rw [carries.files, zero_add]
  ends := by
    change held.ends + single (pipe, false) 1 + single (pipe, true) 1 -
      single (pipe, false) 1 - single (pipe, true) 1 = 0
    linear_combination carries.ends
  fresh g := by
    change update (update (update (update held.fresh f0 true) f1 true) f0 false) f1 false g = false
    rw [update_comm apart.symm, update_idem, update_idem, update_apply]
    split
    case isTrue => rfl
    case isFalse =>
      rw [update_apply]
      split
      case isTrue => rfl
      case isFalse => exact carries.fresh g
  child := carries.child

section

variable (carries : held.Carries 0)
include carries

theorem pays_pipealloc {next : Option (Fin nfile × Fin nfile) → FileM α}
    (failed : (rules roomy).Pays post (next none) held)
    (made : ∀ f0 f1 held', held'.Carries (single f0 1 + single f1 1) →
      (rules roomy).Pays post (next (some (f0, f1))) held') :
    (rules roomy).Pays post (pipealloc >>= next) held := by
  have afoot := carries.afoot
  have inode : ∀ ip, 0 ≤ held.inode ip := by
    intro ip
    have current := point_nonneg held.proc.cwd ip
    have others := afoot.inodes ip
    exact add_nonneg current others
  refine (pays_bind ..).mpr ⟨⟨carries.live, trivial⟩, fun file _ => ?_⟩
  cases file with
  | none => exact failed
  | some f0 =>
    refine ⟨⟨carries.live, trivial⟩, fun file unheld => ?_⟩
    cases file with
    | none => exact pays_fileclose_alloc afoot (carries.nonneg f0) (carries.fresh f0) failed
    | some f1 =>
      have apart : f0 ≠ f1 := Held.ne_of_alloc carries (unheld f1 rfl)
      refine ⟨⟨carries.live, trivial⟩, fun pipe _ => ?_⟩
      cases pipe with
      | none =>
        change (rules roomy).Pays _ (fileclose f0 >>= fun _ => fileclose f1 >>= fun _ => pure none)
          ((held.alloc f0).alloc f1)
        rw [Held.alloc_comm apart]
        refine pays_fileclose_alloc ⟨afoot.live, afoot.inodes, afoot.ends⟩ ?_ ?_
          (pays_fileclose_alloc afoot (carries.nonneg f1) (carries.fresh f1) failed)
        · change 0 ≤ held.files f0 + (single f1 1 : Fin nfile → Int) f0
          rw [carries.files, Pi.single_eq_of_ne apart]
          exact le_rfl
        · change update held.fresh f1 true f0 = false
          rw [update_of_ne apart]
          exact carries.fresh f0
      | some pipe =>
        have ends : ∀ e, 0 ≤ (single (pipe, false) 1 : Nat × Bool → Int) e ∧
              0 ≤ (single (pipe, true) 1 : Nat × Bool → Int) e :=
          fun e => ⟨(Kind.pipe pipe false).ends_nonneg e, (Kind.pipe pipe true).ends_nonneg e⟩
        refine ⟨⟨carries.live, ?_, inode, fun e => ?_,
          fun same => (by cases same)⟩, fun _ _ =>
          ⟨⟨carries.live, ?_, fun ip => ?_, fun e => ?_,
            fun same => (by cases same)⟩, fun _ _ => ?_⟩⟩
        · change update (update held.fresh f0 true) f1 true f0 = true
          rw [update_of_ne apart, update_self]
        · obtain ⟨first, second⟩ := ends e
          have before := afoot.ends e
          change (single (pipe, false) 1 : Nat × Bool → Int) e ≤
            held.ends e + (single (pipe, false) 1 : _ → Int) e +
              (single (pipe, true) 1 : _ → Int) e
          omega
        · change update (update (update held.fresh f0 true) f1 true) f0 false f1 = true
          rw [update_of_ne apart.symm, update_self]
        · change 0 ≤ point held.proc.cwd ip + (held.inodes ip - 0)
          rw [sub_zero]
          exact inode ip
        · have before := afoot.ends e
          change (single (pipe, true) 1 : Nat × Bool → Int) e ≤
            held.ends e + (single (pipe, false) 1 : _ → Int) e +
              (single (pipe, true) 1 : _ → Int) e -
              (single (pipe, false) 1 : _ → Int) e
          omega
        · exact made f0 f1 _ (carries.pipe pipe apart)

theorem pays_sysPipe : (rules roomy).Pays (fun _ => Held.Rested) sysPipe held := by
  refine pays_pipealloc carries carries.rested fun rf wf held carries => ?_
  have first : 1 ≤ (single rf 1 + single wf 1 : Fin nfile → Int) rf := by
    rw [Pi.add_apply, single_eq_same]
    have second := point_nonneg (some wf) rf
    change 0 ≤ (single wf 1 : Fin nfile → Int) rf at second
    omega
  -- Where a descriptor is missing both ends are closed.
  have closes : ∀ held, held.Carries (single rf 1 + single wf 1) →
      (rules roomy).Pays (fun _ => Held.Rested)
        (fileclose rf >>= fun _ => fileclose wf >>= fun _ => pure (-1 : Int))
        held := by
    intro held carries
    refine pays_fileclose_carried carries first fun closed => ?_
    rw [add_sub_cancel_left] at closed
    refine pays_fileclose_carried closed (by rw [single_eq_same])
      fun closed => ?_
    rw [sub_self] at closed
    exact closed.rested
  refine ⟨⟨carries.live, trivial⟩, fun fd0 free => ?_⟩
  cases fd0 with
  | none => exact closes held carries
  | some fd0 =>
    have empty : held.proc.ofile fd0 = none := free fd0 rfl
    have stored := carries.setFd fd0 (some rf)
    rw [empty] at stored
    have one : (single rf 1 + single wf 1 + point none -
        point (some rf) : Fin nfile → Int) = single wf 1 := by
      change (single rf 1 + single wf 1 + 0 - single rf 1 : Fin nfile → Int) = _
      rw [add_zero, add_sub_cancel_left]
    rw [one] at stored
    refine ⟨⟨carries.live, trivial⟩, fun fd1 free => ?_⟩
    cases fd1 with
    | none =>
      have back := stored.setFd fd0 none
      refine ⟨⟨carries.live, trivial⟩, fun _ _ => closes _ ?_⟩
      have entry : (held.setFd fd0 (some rf)).proc.ofile fd0 = some rf := update_self ..
      rw [entry] at back
      have both : (single wf 1 + point (some rf) - point none :
          Fin nfile → Int) = single rf 1 + single wf 1 := by
        change (single wf 1 + single rf 1 - 0 : Fin nfile → Int) = _
        rw [sub_zero, add_comm]
      rw [both] at back
      exact back
    | some fd1 =>
      have empty : (held.setFd fd0 (some rf)).proc.ofile fd1 = none := free fd1 rfl
      have settled := stored.setFd fd1 (some wf)
      rw [empty] at settled
      have zero : (single wf 1 + point none - point (some wf) : Fin nfile → Int) = 0 := by
        change (single wf 1 + 0 - single wf 1 : Fin nfile → Int) = 0
        rw [add_zero, sub_self]
      rw [zero] at settled
      exact settled.rested

/-! ## Paths -/

theorem pays_sysOpen {creates : Bool} :
    (rules roomy).Pays (fun _ => Held.Rested) (sysOpen path creates) held := by
  have afoot := carries.afoot
  unfold sysOpen
  split
  case isTrue => exact pays_create afoot ⟨carries.rested, pays_openFile carries⟩
  case isFalse =>
    refine pays_namex afoot ⟨carries.rested, fun ip => ?_⟩
    refine pays_test (afoot.take ip) fun refused => ?_
    cases refused with
    | true => exact pays_iput afoot carries.rested
    | false => exact pays_openFile carries ip

theorem pays_sysLink {old new : List Byte} :
    (rules roomy).Pays (fun _ => Held.Rested) (sysLink old new) held := by
  have afoot := carries.afoot
  refine pays_namex afoot ⟨carries.rested, fun ip => ?_⟩
  refine pays_test (afoot.take ip) fun dir => ?_
  cases dir with
  | true => exact pays_iput afoot carries.rested
  | false =>
    refine pays_namex (afoot.take ip) ⟨pays_iput afoot carries.rested, fun dp => ?_⟩
    refine pays_dirlink ((afoot.take ip).take dp) fun linked => ?_
    refine pays_iput (afoot.take ip) (pays_iput afoot ?_)
    cases linked with
    | true => exact carries.rested
    | false => exact carries.rested

theorem pays_sysUnlink : (rules roomy).Pays (fun _ => Held.Rested) (sysUnlink path) held := by
  have afoot := carries.afoot
  refine pays_namex afoot ⟨carries.rested, fun dp => ?_⟩
  refine pays_test (afoot.take dp) fun dots => ?_
  cases dots with
  | true => exact pays_iput afoot carries.rested
  | false =>
    refine pays_dirlookup (afoot.take dp) (pays_iput afoot carries.rested)
      fun ip => ?_
    refine pays_test ((afoot.take dp).take ip) fun notEmpty => ?_
    cases notEmpty with
    | true => exact pays_iput (afoot.take dp) (pays_iput afoot carries.rested)
    | false => exact pays_iput_first afoot (pays_iput afoot carries.rested)

theorem pays_makeNode {dir : Bool} :
    (rules roomy).Pays (fun _ => Held.Rested) (makeNode path dir) held :=
  pays_create carries.afoot ⟨carries.rested, fun _ =>
    pays_iput carries.afoot carries.rested⟩

theorem pays_sysChdir : (rules roomy).Pays (fun _ => Held.Rested) (sysChdir path) held := by
  have afoot := carries.afoot
  refine pays_namex afoot ⟨carries.rested, fun ip => ?_⟩
  refine pays_test (afoot.take ip) fun dir => ?_
  cases dir with
  | false => exact pays_iput afoot carries.rested
  | true =>
    refine ⟨⟨carries.live, trivial⟩, fun cwd current => ?_⟩
    have current : cwd = held.proc.cwd := current
    cases cwd with
    | none => exact absurd current.symm carries.cwd
    | some cwd =>
      refine ⟨⟨carries.live, (afoot.take ip).one_le_cwd current.symm⟩,
        fun _ _ => ⟨⟨carries.live, trivial⟩, fun _ _ => ?_⟩⟩
      refine ⟨?_, carries.files, carries.ends, carries.fresh, carries.child,
        fun _ same => (by cases same)⟩
      change held.inodes + single ip 1 - single cwd 1 +
        point held.proc.cwd - single ip 1 = 0
      rw [← current]
      change held.inodes + single ip 1 - single cwd 1 + single cwd 1 - single ip 1 = 0
      rw [sub_add_cancel, add_sub_cancel_right, carries.inodes]

theorem pays_exec : (rules roomy).Pays (fun _ => Held.Rested) (exec path) held := by
  have afoot := carries.afoot
  refine pays_namex afoot ⟨carries.rested, fun ip => pays_iput afoot ?_⟩
  refine pays_test afoot fun loaded => ?_
  cases loaded with
  | true => exact carries.rested
  | false => exact carries.rested

/-! ## Processes -/

/-- A child is made besides. -/
theorem pays_forkFiles {np : Fin nproc} (fds : List (Fin nofile)) (child : Proc)
    (distinct : fds.Nodup) (blank : ∀ fd ∈ fds, child.ofile fd = none) (homeless : child.cwd = none)
    (rest : ∀ child, child.cwd = none → (rules roomy).Pays post (next ())
      { held with child := some (np, child) }) :
    (rules roomy).Pays post (forkFiles np fds >>= next)
      { held with child := some (np, child) } := by
  refine (pays_bind ..).mpr ?_
  induction fds generalizing child with
  | nil => exact rest child homeless
  | cons fd fds ih =>
    obtain ⟨new, distinct⟩ := List.nodup_cons.mp distinct
    refine ⟨⟨carries.live, trivial⟩, fun file stored => ?_⟩
    cases file with
    | none =>
      exact ih child distinct
        (fun other member => blank other (List.mem_cons_of_mem _ member))
        homeless
    | some f =>
      have holds : 1 ≤ held.file f := Held.one_le_file (Eq.symm stored) (carries.nonneg f)
      refine pays_filedup carries.live holds (carries.fresh f) ?_
      refine ⟨⟨carries.live, Held.one_le_file (Eq.symm stored) ?_,
        carries.fresh f, child, rfl, blank fd List.mem_cons_self⟩,
        fun _ _ => ?_⟩
      · change 0 ≤ held.files f + (single f 1 : Fin nfile → Int) f
        have before := carries.nonneg f
        rw [single_eq_same]
        omega
      · change (rules roomy).Pays _ (forkFiles np fds)
          { held with
            files := held.files + single f 1 - single f 1
            child := some (np, { child with
              ofile := update child.ofile fd (some f) }) }
        rw [add_sub_cancel_right]
        refine ih _ distinct (fun other member => ?_) homeless
        have apart : other ≠ fd := by
          rintro rfl
          exact new member
        change update child.ofile fd (some f) other = none
        rw [update_of_ne apart]
        exact blank other (List.mem_cons_of_mem _ member)

theorem pays_fork : (rules roomy).Pays (fun _ => Held.Rested) fork held := by
  have afoot := carries.afoot
  have alone : ∀ entry, entry = none → Held.Rested { held with child := entry } := by
    rintro entry rfl
    exact ⟨carries.inodes, carries.files, carries.ends, carries.fresh, rfl, fun _ => carries.cwd⟩
  refine ⟨⟨carries.live, carries.child⟩, fun np _ => ?_⟩
  cases np with
  | none => exact alone none rfl
  | some np =>
    refine pays_test ⟨carries.live, afoot.inodes, afoot.ends⟩
      fun memory => ?_
    cases memory with
    | false =>
      exact ⟨⟨carries.live, _, rfl, fun _ => rfl, rfl⟩,
        fun _ _ => alone none rfl⟩
    | true =>
      refine pays_forkFiles carries (List.finRange nofile) _
        (List.nodup_finRange nofile) (fun _ _ => rfl) rfl
        fun child homeless => ?_
      refine ⟨⟨carries.live, trivial⟩, fun cwd current => ?_⟩
      have current : cwd = held.proc.cwd := current
      cases cwd with
      | none => exact absurd current.symm carries.cwd
      | some cwd =>
        refine ⟨⟨carries.live, afoot.one_le_cwd current.symm⟩,
          fun _ _ => ⟨⟨carries.live, afoot.one_le_take cwd, child, rfl,
            homeless⟩, fun _ _ => ⟨⟨carries.live, _, rfl,
              fun same => (by cases same)⟩, fun _ _ => ?_⟩⟩⟩
        refine ⟨?_, carries.files, carries.ends, carries.fresh, rfl, fun _ => carries.cwd⟩
        change held.inodes + single cwd 1 - single cwd 1 = 0
        rw [add_sub_cancel_right, carries.inodes]

end

/-- The loop of `exit` clears the descriptors that it visits. -/
theorem pays_exitFiles (fds : List (Fin nofile))
    (carries : held.Carries 0) (cleared : ∀ fd ∉ fds, held.proc.ofile fd = none)
    (rest : ∀ held, held.Carries 0 → (∀ fd, held.proc.ofile fd = none) →
      (rules roomy).Pays post (next ()) held) :
    (rules roomy).Pays post (exitFiles fds >>= next) held := by
  refine (pays_bind ..).mpr ?_
  induction fds generalizing held with
  | nil => exact rest held carries fun fd => cleared fd List.not_mem_nil
  | cons fd fds ih =>
    refine ⟨⟨carries.live, trivial⟩, fun file stored => ?_⟩
    have stored : file = held.proc.ofile fd := stored
    cases file with
    | none =>
      refine ih carries fun other visited => ?_
      by_cases same : other = fd
      · rw [same]
        exact stored.symm
      · exact cleared other fun member =>
          (List.mem_cons.mp member).elim same visited
    | some f =>
      refine pays_fileclose carries.afoot (Held.one_le_file stored.symm (carries.nonneg f)) ?_
      refine ⟨⟨carries.live, trivial⟩, fun _ _ => ?_⟩
      have owed := (carries.dropFile f).setFd fd none
      have entry : (held.dropFile f).proc.ofile fd = some f := stored.symm
      rw [entry] at owed
      have zero : (0 - single f 1 + point (some f) - point none : Fin nfile → Int) = 0 := by
        change (0 - single f 1 + single f 1 - 0 : Fin nfile → Int) = 0
        rw [sub_add_cancel, sub_zero]
      rw [zero] at owed
      refine ih owed fun other visited => ?_
      change update held.proc.ofile fd none other = none
      rw [update_apply]
      split
      case isTrue => rfl
      case isFalse apart =>
        exact cleared other fun member =>
          (List.mem_cons.mp member).elim apart visited

theorem pays_exit (carries : held.Carries 0) (p : Fin nproc) :
    (rules roomy).Pays (fun _ => Held.Rested) (exit p) held := by
  unfold exit
  split
  case isTrue => exact pays_panic carries.afoot ⟨by decide, by decide, fun _ => by decide⟩
  case isFalse =>
    refine pays_exitFiles (List.finRange nofile) carries
      (fun fd missing => absurd (List.mem_finRange fd) missing)
      fun held carries cleared => ?_
    have afoot := carries.afoot
    refine ⟨⟨carries.live, trivial⟩, fun cwd current => ?_⟩
    have current : cwd = held.proc.cwd := current
    cases cwd with
    | none => exact absurd current.symm carries.cwd
    | some cwd =>
      have inodes : held.inodes - single cwd 1 + point held.proc.cwd - point none = 0 := by
        rw [← current]
        change held.inodes - single cwd 1 + single cwd 1 - 0 = 0
        rw [sub_add_cancel, sub_zero, carries.inodes]
      refine ⟨⟨carries.live, afoot.one_le_cwd current.symm⟩, fun _ _ =>
        ⟨⟨carries.live, trivial⟩, fun _ _ => ⟨⟨carries.live, inodes,
          carries.files, carries.ends, carries.fresh, carries.child, cleared,
          rfl⟩, fun _ _ => ?_⟩⟩⟩
      exact ⟨inodes, carries.files, carries.ends, carries.fresh,
        carries.child, fun isLive => (by cases isLive)⟩

/-- Every call gives back what it took. -/
theorem pays_body (carries : held.Carries 0) (p : Fin nproc) (call : Call) :
    (rules roomy).Pays (fun _ => Held.Rested) (call.body p) held := by
  cases call with
  | openPath path creates => exact pays_sysOpen carries
  | close fd => exact pays_sysClose carries fd
  | dup fd => exact pays_sysDup carries fd
  | pipe => exact pays_sysPipe carries
  | link old new => exact pays_sysLink carries
  | unlink path => exact pays_sysUnlink carries
  | mkdir path => exact pays_makeNode carries
  | mknod path => exact pays_makeNode carries
  | chdir path => exact pays_sysChdir carries
  | exec path => exact pays_exec carries
  | fork => exact pays_fork carries
  | exit => exact pays_exit carries p
  | wait child => exact ⟨⟨carries.live, carries.child⟩, fun _ _ => carries.rested⟩

end Payment

/-! ## The whole system -/

/-- Operations that find room keep the accounts, and calls pay. -/
theorem sound {roomy : Prop} {admits : Shared → Op → Prop}
    (room : ∀ shared op, admits shared op → roomy → shared.Room op) :
    Sound machine (rules roomy) Accounts admits where
  perform := fun accounts admitted allowed performed =>
    keeps_perform accounts (room _ _ admitted) allowed performed
  body := by
    intro shared held p call accounts alive rested
    have live : (held p).proc.state = .live := by
      rw [accounts.proc]
      exact of_decide_eq_true alive
    exact pays_body (Held.Rested.carries rested live) p call

end Xv6.Files
