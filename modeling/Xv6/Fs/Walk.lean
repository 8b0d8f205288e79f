import Xv6.Fs.Lookup
import Mathlib.Data.Finset.Image
import Mathlib.Data.Fintype.Basic
import Mathlib.Tactic.Abel

/-!
# Walking a path

`walk` resolves a path on a volume.  `namex` does the same through the cache:
it finds the inode that `walk` finds, or stops where `walk` does, and leaves the
volume as it is, provided that inodes without links are in use.
-/

namespace Xv6.Fs

open Function Foundation.Program
open Finset (mem_filter mem_image mem_univ univ)

/-! ## Resolving a path on a volume -/

/-- There is an entry of the cache for each inode. -/
def Room (inums : Finset Nat) : Prop :=
  inums.card ≤ ninode

instance (inums : Finset Nat) : Decidable (Room inums) :=
  inferInstanceAs (Decidable (_ ≤ _))

/-- Resolve a path from an inode, while the cache has the inodes `used`. -/
def walkFrom (vol : Volume) (used : Finset Nat) (nameiparent : Bool) :
    Nat → List Byte → Nat → List Byte → Except Stop (Option (Nat × List Byte))
  | 0, _, _, _ => .ok none
  | fuel + 1, path, inum, name =>
    match skipelem path with
    | none => .ok (if nameiparent then none else some (inum, name))
    | some (name, path) =>
      match vol inum with
      | none => .error (.panic "ilock: no type")
      | some node =>
        if node.type ≠ tDir then .ok none
        else if nameiparent ∧ path = [] then .ok (some (inum, name))
        else
          match lookup node.entries name with
          | none => .ok none
          | some (next, _) =>
            if Room (insert next (insert inum used)) then
              walkFrom vol used nameiparent fuel path next name
            else .error (.panic "iget: no inodes")

/-- Resolve a path for a process with a current directory. -/
def walk (vol : Volume) (used : Finset Nat) (cwd : Nat) (path : List Byte)
    (nameiparent : Bool) : Except Stop (Option (Nat × List Byte)) :=
  if path.head? = some slash then
    if Room (insert rootino used) then
      walkFrom vol used nameiparent (path.length + 1) path rootino []
    else .error (.panic "iget: no inodes")
  else walkFrom vol used nameiparent (path.length + 1) path cwd []

theorem length_skipelem {path name rest : List Byte}
    (element : skipelem path = some (name, rest)) : rest.length < path.length := by
  unfold skipelem at element
  cases stripped : path.dropWhile (· = slash) with
  | nil =>
    rw [stripped] at element
    cases element
  | cons first tail =>
    have apart : ¬ first = slash := by
      have head := List.head?_dropWhile_not (· = slash) path
      rw [stripped] at head
      simpa using head
    have shorter : (first :: tail).length ≤ path.length := by
      rw [← stripped]
      exact (List.dropWhile_sublist _).length_le
    rw [stripped] at element
    simp only [reduceCtorEq, if_false, Option.some.injEq, Prod.mk.injEq] at element
    rw [← element.2, List.dropWhile_cons_of_pos (by simpa using apart)]
    calc ((tail.dropWhile (· ≠ slash)).dropWhile (· = slash)).length
        ≤ (tail.dropWhile (· ≠ slash)).length :=
          (List.dropWhile_sublist _).length_le
      _ ≤ tail.length := (List.dropWhile_sublist _).length_le
      _ < (first :: tail).length := Nat.lt_succ_self _
      _ ≤ path.length := shorter

/-- What `nameiparent` finds is a directory. -/
theorem walkFrom_parent {vol : Volume} {used : Finset Nat} {fuel inum found : Nat}
    {path name last : List Byte}
    (result : walkFrom vol used true fuel path inum name = .ok (some (found, last))) :
    ∃ node, vol found = some node ∧ node.type = tDir := by
  induction fuel generalizing path inum name with
  | zero => cases result
  | succ fuel ih =>
    unfold walkFrom at result
    split at result
    case h_1 => cases result
    case h_2 =>
      split at result
      case h_1 => cases result
      case h_2 node present =>
        split at result
        case isTrue => cases result
        case isFalse dir =>
          split at result
          case isTrue =>
            cases result
            exact ⟨node, present, not_not.mp dir⟩
          case isFalse =>
            split at result
            case h_1 => cases result
            case h_2 =>
              split at result
              case isTrue => exact ih result
              case isFalse => cases result

theorem walk_parent {vol : Volume} {used : Finset Nat} {cwd found : Nat} {path last : List Byte}
    (result : walk vol used cwd path true = .ok (some (found, last))) :
    ∃ node, vol found = some node ∧ node.type = tDir := by
  unfold walk at result
  split at result
  case isTrue =>
    split at result
    case isTrue => exact walkFrom_parent result
    case isFalse => cases result
  case isFalse => exact walkFrom_parent result

/-! ## Inodes without links -/

/-- Every inode without links is in use, by a reference that `base` counts. -/
def Retained (os : Kernel) (base : Slot → Int) : Prop :=
  ∀ inum node, os.store.volume inum = some node → node.nlink = 0 →
    ∃ ip, 0 < base ip ∧ os.inum ip = inum ∧ (os.icache ip).valid = true

variable {base : Slot → Int} {ip : Slot}

section Retained

variable {os next : Kernel}

/-- Giving up an additional reference does not free an inode. -/
theorem Retained.kept (retained : Retained os base) (cached : Cached os)
    (fewer : ∀ jp, base jp ≤ os.refs jp) (additional : base ip < os.refs ip) : ¬ os.Frees ip := by
  rintro ⟨valid, unlinked, last⟩
  have opened : Open os ip := ⟨by omega, valid⟩
  obtain ⟨jp, held, same, -⟩ := retained _ _ (opened.volume cached) unlinked
  have here : jp = ip := cached.unique jp ip (by have := fewer jp; omega) opened.held same
  rw [here] at held
  omega

theorem Retained.mono {base' : Slot → Int} (retained : Retained os base)
    (more : ∀ jp, 0 < base jp → 0 < base' jp) : Retained os base' := by
  intro inum node present unlinked
  obtain ⟨jp, held, rest⟩ := retained inum node present unlinked
  exact ⟨jp, more jp held, rest⟩

theorem Retained.frame (retained : Retained os base)
    (frame : Frame base os next) (store : next.store = os.store) : Retained next base := by
  intro inum node present unlinked
  rw [store] at present
  obtain ⟨ip, held, same, valid⟩ := retained inum node present unlinked
  exact ⟨ip, held, (frame.inum ip held).trans same, frame.valid ip held valid⟩

end Retained

/-- The cache changed, and inodes may have been freed, unless those without
links are in use. -/
structure Visit (base : Slot → Int) (os next : Kernel)
    (refs : Slot → Int) (locks : Slot → Option Nat) : Prop where
  sound : Sound next.store
  cached : Cached next
  frame : Frame base os next
  refs : next.refs = refs
  locks : next.locks = locks
  store : Retained os base → next.store = os.store

section Visit

variable {base base' refs refs' : Slot → Int} {os middle next : Kernel}
variable {locks locks' : Slot → Option Nat}

theorem Shift.visit (shift : Shift base os next refs locks)
    (sound : Sound os.store) (fewer : ∀ ip, 0 < base' ip → 0 < base ip) :
    Visit base' os next refs locks where
  sound := by
    rw [shift.store]
    exact sound
  cached := shift.cached
  frame := shift.frame.mono fewer
  refs := shift.refs
  locks := shift.locks
  store := fun _ => shift.store

theorem Visit.mono (visit : Visit base' os next refs locks)
    (fewer : ∀ ip, 0 < base ip → 0 < base' ip) : Visit base os next refs locks :=
  { visit with
    frame := visit.frame.mono fewer
    store := fun retained => visit.store (retained.mono fewer) }

theorem Visit.trans (first : Visit base os middle refs locks)
    (second : Visit base middle next refs' locks') : Visit base os next refs' locks' :=
  { second with
    frame := first.frame.trans second.frame
    store := fun retained =>
      (second.store (retained.frame first.frame (first.store retained))).trans
        (first.store retained) }

theorem Visit.retained (visit : Visit base os next refs locks)
    (retained : Retained os base) : Retained next base :=
  retained.frame visit.frame (visit.store retained)

end Visit

/-! ## Giving up references on the way -/

variable {stops : Stop → Prop} {os : Kernel}

section Put

theorem Waits.of_free (free : os.locks ip = none) : Waits stops os ip := by
  intro holder holds
  rw [free] at holds
  cases holds

section

variable (sound : Sound os.store) (cached : Cached os) (counted : 0 ≤ base ip)
  (fewer : ∀ jp, base jp ≤ (os.refs - Pi.single ip 1 : Slot → Int) jp)
include sound cached counted fewer

/-- `iput` of a reference that `base` does not count. -/
theorem iput_visit (waits : Waits stops os ip) (lenient : ¬ Retained os base → Lenient stops) :
    wp (iput ip) (fun _ next => Visit base os next (os.refs - Pi.single ip 1) os.locks)
      stops os := by
  have additional : base ip < os.refs ip := by
    have here := fewer ip
    rw [Pi.sub_apply, Pi.single_eq_same] at here
    omega
  have fewerRefs : ∀ jp, base jp ≤ os.refs jp := by
    intro jp
    have here := fewer jp
    rw [Pi.sub_apply, Pi.single_apply] at here
    split at here <;> omega
  have weaken : ∀ jp, 0 < base jp →
      0 < (os.refs - Pi.single ip 1 : Slot → Int) jp := fun jp positive =>
    positive.trans_le (fewer jp)
  by_cases frees : os.Frees ip
  · have loose : ¬ Retained os base := fun retained =>
      retained.kept cached fewerRefs additional frees
    refine wp_mono (iput_spec sound cached (by omega) waits fun _ =>
      lenient loose) ?_ fun _ => id
    rintro _ next ⟨outcome, -⟩
    exact ⟨outcome.sound, outcome.cached, outcome.frame.mono weaken,
      outcome.refs, outcome.locks, fun retained => absurd retained loose⟩
  · refine wp_mono (iput_spec_kept cached (by omega) waits frees) ?_
      fun _ => id
    rintro _ next ⟨shift, -⟩
    exact shift.visit sound weaken

/-- `iunlockput` of a reference that `base` does not count. -/
theorem iunlockput_visit (locked : os.locks ip = some os.pid)
    (lenient : ¬ Retained os base → Lenient stops) :
    wp (iunlockput ip) (fun _ next => Visit base os next (os.refs - Pi.single ip 1)
        (update os.locks ip none))
      stops os := by
  have held : 0 < os.refs ip := by
    have here := fewer ip
    rw [Pi.sub_apply, Pi.single_eq_same] at here
    omega
  have weaken : ∀ jp, 0 < base jp → 0 < os.refs jp := fun jp positive =>
    pos_of_sub_single (positive.trans_le (fewer jp))
  unfold iunlockput
  refine wp_bind_of (iunlock_spec cached held locked) ?_
  intro _ middle unlocked
  have first := unlocked.visit sound weaken
  refine wp_mono (iput_visit first.sound first.cached counted (by rw [first.refs]; exact fewer)
    (.of_free (by rw [first.locks, update_self]))
    fun loose => lenient fun retained => loose (first.retained retained)) ?_
    fun _ => id
  intro _ next second
  rw [first.refs, first.locks] at second
  exact first.trans second

end

end Put

/-! ## `namex` -/

section Namex

variable {parent : Bool}

/-- The inodes that have an entry of the cache because of references in
`base`. -/
def Kernel.used (os : Kernel) (base : Slot → Int) : Finset Nat :=
  (Finset.univ.filter fun ip => 0 < base ip).image os.inum

theorem Frame.used {next : Kernel} (frame : Frame base os next) :
    next.used base = os.used base := by
  unfold Kernel.used
  refine Finset.image_congr fun jp member => ?_
  exact frame.inum jp (by simpa using member)

/-- `iget` finds an entry exactly if there is room for one more inode. -/
theorem Cached.full_iff (cached : Cached os) (inum : Nat) :
    os.Full inum ↔ ¬ Room (insert inum (os.used os.refs)) := by
  have injective : Set.InjOn os.inum (univ.filter fun jp => 0 < os.refs jp) := by
    intro jp heldJ kp heldK same
    exact cached.unique jp kp (by simpa using heldJ) (by simpa using heldK) same
  have card : (os.used os.refs).card =
      (univ.filter fun jp => 0 < os.refs jp).card :=
    Finset.card_image_of_injOn injective
  have slots : (univ : Finset Slot).card = ninode := by
    rw [Finset.card_univ, Fintype.card_fin]
  unfold Room
  constructor
  · intro full
    have all : univ.filter (fun jp => 0 < os.refs jp) = univ := by
      refine Finset.filter_true_of_mem fun jp _ => ?_
      have counted := cached.counted jp
      have used := (full jp).1
      omega
    have absent : inum ∉ os.used os.refs := by
      unfold Kernel.used
      simp only [mem_image, mem_filter, mem_univ, true_and, not_exists, not_and]
      exact fun jp held same => (full jp).2 ⟨held, same⟩
    rw [Finset.card_insert_of_notMem absent, card, all, slots]
    omega
  · intro crowded jp
    refine ⟨fun unused => crowded ?_, fun ⟨held, same⟩ => crowded ?_⟩
    · have fewer : (univ.filter fun kp => 0 < os.refs kp).card < ninode := by
        refine slots.subst (Finset.card_lt_card (Finset.filter_ssubset.mpr ⟨jp, mem_univ jp, ?_⟩))
        rw [unused]
        exact lt_irrefl 0
      exact (Finset.card_insert_le ..).trans (by rw [card]; omega)
    · have present : inum ∈ os.used os.refs := by
        unfold Kernel.used
        exact mem_image.mpr ⟨jp, by simpa using held, same⟩
      rw [Finset.insert_eq_of_mem present, card]
      exact (Finset.card_le_card (Finset.filter_subset ..)).trans slots.le

theorem used_add_single (counted : ∀ jp, 0 ≤ base jp) : os.used (base + Pi.single ip 1) =
      insert (os.inum ip) (os.used base) := by
  unfold Kernel.used
  rw [← Finset.image_insert]
  congr 1
  ext jp
  have here := counted jp
  rw [Finset.mem_insert, mem_filter, mem_filter, Pi.add_apply, Pi.single_apply]
  simp only [mem_univ, true_and]
  by_cases same : jp = ip
  · rw [if_pos same]
    exact iff_of_true (by omega) (.inl same)
  · rw [if_neg same, add_zero]
    exact ⟨.inr, fun either => either.resolve_left same⟩

theorem volume_eq_none {store : Store} {inum : Nat}
    (untyped : (store.dinode inum).type = 0) : store.volume inum = none := by
  unfold Store.volume Dinode.node?
  rw [if_pos untyped]
  split <;> rfl

/-- What `namex` returns, compared with a walk on the volume. -/
def Resolved (base : Slot → Int) (os next : Kernel) (parent : Bool)
    (walked : Except Stop (Option (Nat × List Byte))) :
    Option (Slot × List Byte) → Prop
  | none => Visit base os next base os.locks ∧ (Retained os base → walked = .ok none)
  | some (jp, last) =>
    Visit base os next (base + Pi.single jp 1) os.locks ∧
      (Retained os base → walked = .ok (some (next.inum jp, last))) ∧
      (parent = true → ∃ node, next.store.volume (next.inum jp) = some node ∧ node.type = tDir)

/-- The reasons for which `namex` panics. -/
def WalkStop (reason : Stop) : Prop :=
  reason = .panic "ilock: no type" ∨ reason = .panic "iget: no inodes"

/-- A result of the rest of a walk. -/
theorem Resolved.after {middle next : Kernel} {result : Option (Slot × List Byte)}
    {rest walked : Except Stop (Option (Nat × List Byte))} {refs : Slot → Int}
    (first : Visit base os middle refs os.locks)
    (resolved : Resolved base middle next parent rest result)
    (same : Retained os base → walked = rest) : Resolved base os next parent walked result := by
  have retained := first.retained
  cases result with
  | none =>
    obtain ⟨visit, walks⟩ := resolved
    rw [first.locks] at visit
    exact ⟨first.trans visit, fun before =>
      (same before).trans (walks (retained before))⟩
  | some pair =>
    obtain ⟨visit, walks, dir⟩ := resolved
    rw [first.locks] at visit
    exact ⟨first.trans visit, fun before =>
      (same before).trans (walks (retained before)), dir⟩

theorem namexLoop_spec {fuel : Nat} {path name : List Byte}
    (sound : Sound os.store) (cached : Cached os)
    (counted : ∀ jp, 0 ≤ base jp) (refs : os.refs = base + Pi.single ip 1)
    (enough : path.length < fuel) (waits : ∀ jp, Waits stops os jp)
    (lenient : ¬ Retained os base → Lenient stops)
    (stopped : ∀ reason, WalkStop reason →
      (Retained os base → walkFrom os.store.volume (os.used base)
        parent fuel path (os.inum ip) name = .error reason) →
      stops reason) :
    wp (namexLoop parent fuel path ip name) (fun result next => Resolved base os next parent
        (walkFrom os.store.volume (os.used base) parent fuel path (os.inum ip) name) result)
      stops os := by
  induction fuel generalizing os ip path name with
  | zero => omega
  | succ fuel ih =>
    have held := pos_of_taken refs (counted ip)
    have fewer : ∀ jp, base jp ≤ (os.refs - Pi.single ip 1 : Slot → Int) jp := by
      intro jp
      rw [refs, add_sub_cancel_right]
    have weaken : ∀ jp, 0 < base jp → 0 < os.refs jp := fun jp positive =>
      pos_of_sub_single (positive.trans_le (fewer jp))
    unfold namexLoop
    unfold walkFrom at stopped ⊢
    cases element : skipelem path with
    | none =>
      simp only
      rw [wp_ite]
      refine ⟨fun isParent => ?_, fun notParent => ?_⟩
      · rw [wp_bind]
        refine wp_mono (iput_visit sound cached (counted ip) fewer (waits ip)
          lenient) ?_ fun _ => id
        intro _ next visit
        rw [refs, add_sub_cancel_right] at visit
        exact ⟨visit, fun _ => by rw [if_pos isParent]⟩
      · refine ⟨⟨sound, cached, .refl _ _, refs, rfl, fun _ => rfl⟩,
          fun _ => ?_, fun isParent => absurd isParent notParent⟩
        rw [if_neg notParent]
    | some pair =>
      obtain ⟨name, path⟩ := pair
      have shorter := length_skipelem element
      rw [element] at stopped
      simp only at stopped ⊢
      refine wp_bind_of (ilock_spec cached held (waits ip) fun untyped =>
        stopped _ (.inl rfl) fun _ => ?_) ?_
      · rw [volume_eq_none untyped]
      rintro _ locked ⟨shift, valid, free⟩
      have first := shift.visit sound weaken
      have opened : Open locked ip := ⟨by rw [shift.refs]; exact held, valid⟩
      have inum : locked.inum ip = os.inum ip := shift.frame.inum ip held
      have present := opened.volume first.cached
      rw [shift.store, inum] at present
      rw [present] at stopped ⊢
      have byUs : locked.locks ip = some locked.pid := by
        rw [shift.locks, update_self, shift.frame.pid]
      have back : update locked.locks ip none = os.locks := by
        rw [shift.locks, update_idem, ← free, update_eq_self]
      -- giving the inode back when the walk ends here
      have ends : ∀ result : Option (Slot × List Byte), result = none →
          ∀ walked, (Retained os base → walked = .ok none) →
          wp (do iunlockput ip; return result)
            (fun result next => Resolved base os next parent walked result) stops locked := by
        rintro _ rfl walked same
        rw [wp_bind]
        refine wp_mono (iunlockput_visit first.sound first.cached
          (counted ip) (by rw [first.refs]; exact fewer) byUs
          fun loose => lenient fun retained =>
            loose (first.retained retained)) ?_ fun _ => id
        intro _ next second
        rw [back, first.refs, refs, add_sub_cancel_right] at second
        exact ⟨first.trans second, same⟩
      rw [wp_bind, wp_getInode, wp_ite]
      refine ⟨fun other => ends none rfl _ fun _ => ?_, fun dir => ?_⟩
      · exact if_pos other
      rw [not_not] at dir
      have isDirectory : OpenDirectory locked ip := ⟨opened, dir⟩
      have entries : ((locked.icache ip).dinode.node
          os.store.blocks).entries = locked.entries ip := by
        unfold Dinode.node
        rw [if_pos dir, ← shift.store]
        rfl
      have type : ((locked.icache ip).dinode.node os.store.blocks).type = tDir := dir
      simp only [entries, type, ne_eq, not_true_eq_false, if_false] at stopped ⊢
      rw [wp_ite]
      refine ⟨fun last => ?_, fun inner => ?_⟩
      · rw [wp_bind]
        refine wp_mono (iunlock_spec first.cached opened.held byUs) ?_
          fun _ => id
        intro _ next unlocked
        have second := unlocked.visit first.sound (by rw [first.refs]; exact weaken)
        rw [back, first.refs, refs] at second
        have nextInum : next.inum ip = os.inum ip := (unlocked.frame.inum ip opened.held).trans inum
        refine ⟨first.trans second, fun _ => ?_, fun _ => ⟨_, ?_, type⟩⟩
        · rw [if_pos last, nextInum]
        · rw [unlocked.store, shift.store, nextInum]
          exact present
      · rw [wp_bind]
        rw [if_neg inner] at stopped ⊢
        have roomy : ∀ other, locked.Full other ↔
            ¬ Room (insert other (insert (os.inum ip) (os.used base))) := by
          intro other
          rw [first.cached.full_iff, first.refs, refs,
            used_add_single counted, inum, first.frame.used]
        refine dirlookup_spec first.sound first.cached isDirectory ?_ ?_ ?_
        · intro other index found full
          refine stopped _ (.inr rfl) fun _ => ?_
          rw [found]
          exact if_neg ((roomy other).mp full)
        · intro missing
          refine ends none rfl _ fun _ => ?_
          rw [missing]
        · intro jp other index middle found got same _ room
          have counted' : 0 ≤ (base + Pi.single jp 1 : Slot → Int) ip :=
            nonneg_add_single (counted ip)
          have more : ∀ kp, 0 < base kp → 0 < (base + Pi.single jp 1 : Slot → Int) kp := fun kp =>
            pos_add_single
          have third := got.visit first.sound (by rw [first.refs]; exact weaken)
          have whole := first.trans third
          have left : (middle.refs - Pi.single ip 1 : Slot → Int) = base + Pi.single jp 1 := by
            rw [got.refs, first.refs, refs]
            abel
          refine wp_bind_of (iunlockput_visit third.sound third.cached
            counted' (fun kp => by rw [left])
            (by rw [got.locks, byUs, got.frame.pid])
            fun loose => lenient fun retained =>
              loose ((whole.retained retained).mono more)) ?_
          intro _ last fourth
          rw [left, got.locks, back] at fourth
          have before := whole.trans (fourth.mono more)
          have lastInum : last.inum jp = other :=
            (fourth.frame.inum jp (pos_add_single_self (counted jp))).trans same
          have continues : Retained os base → (match lookup (locked.entries ip) name with
              | none => Except.ok none
              | some (next, _) =>
                if Room (insert next (insert (os.inum ip) (os.used base))) then
                  walkFrom os.store.volume (os.used base) parent fuel path next name
                else .error (.panic "iget: no inodes")) =
              walkFrom last.store.volume (last.used base) parent fuel path (last.inum jp) name := by
            intro retained
            rw [found, before.store retained, before.frame.used, lastInum]
            exact if_pos (not_not.mp fun crowded =>
              room ((roomy other).mpr crowded))
          refine wp_mono (ih before.sound before.cached before.refs (by omega)
            (fun kp => (waits kp).congr (by rw [before.locks]) before.frame.pid)
            (fun loose => lenient fun retained =>
              loose (before.retained retained))
            fun reason kind walks => stopped reason kind fun retained =>
              (continues retained).trans (walks (before.retained retained)))
            ?_ fun _ => id
          intro result next resolved
          exact resolved.after before continues

/-- The current directory of the process that runs. -/
def Kernel.cwd (os : Kernel) : Slot :=
  (os.procs os.cur).cwd

/-- `namex` walks the path from the root or the current directory. -/
theorem namex_spec {path : List Byte} (sound : Sound os.store)
    (cached : Cached os) (refs : os.refs = base)
    (current : path.head? ≠ some slash → 0 < os.refs os.cwd)
    (waits : ∀ jp, Waits stops os jp) (lenient : ¬ Retained os base → Lenient stops)
    (stopped : ∀ reason, WalkStop reason → (Retained os base → walk os.store.volume (os.used base)
        (os.inum os.cwd) path parent = .error reason) →
      stops reason) :
    wp (namex path parent) (fun result next => Resolved base os next parent
        (walk os.store.volume (os.used base) (os.inum os.cwd) path parent) result)
      stops os := by
  subst refs
  -- the walk from the inode that the path starts at
  have rest : ∀ ip next, Shift os.refs os next (os.refs + Pi.single ip 1) os.locks →
      (∀ reason, WalkStop reason → (Retained os os.refs →
        walkFrom os.store.volume (os.used os.refs) parent
          (path.length + 1) path (next.inum ip) [] = .error reason) →
        stops reason) →
      wp (namexLoop parent (path.length + 1) path ip [])
        (fun result final => Resolved os.refs os final parent
          (walkFrom os.store.volume (os.used os.refs) parent
            (path.length + 1) path (next.inum ip) []) result)
        stops next := by
    intro ip next shift stops'
    have first := shift.visit sound fun _ => id
    have loop := namexLoop_spec first.sound first.cached cached.counted
      first.refs (Nat.lt_succ_self path.length)
      (fun jp => (waits jp).congr (by rw [first.locks]) first.frame.pid)
      (fun loose => lenient fun retained => loose (first.retained retained))
      (fun reason kind walks => stops' reason kind fun retained => by
        rw [← walks (first.retained retained), shift.store, first.frame.used])
    refine wp_mono loop ?_ fun _ => id
    intro result final resolved
    refine resolved.after first fun _ => ?_
    rw [shift.store, first.frame.used]
  unfold namex
  unfold walk at stopped ⊢
  dsimp only
  by_cases absolute : path.head? = some slash
  · rw [if_pos absolute] at stopped ⊢
    rw [if_pos absolute, wp_bind]
    have roomy := cached.full_iff rootino
    refine wp_mono (iget_spec cached sound.valid.root fun full => stopped _ (.inr rfl)
      fun _ => if_neg (roomy.mp full)) ?_ fun _ => id
    rintro ip next ⟨shift, same, -, room⟩
    have fits : Room (insert rootino (os.used os.refs)) :=
      not_not.mp fun crowded => room (roomy.mpr crowded)
    rw [if_pos fits] at stopped ⊢
    rw [← same] at stopped ⊢
    exact rest ip next shift stopped
  · rw [if_neg absolute] at stopped ⊢
    rw [if_neg absolute, wp_bind, wp_get, wp_bind]
    refine wp_mono (idup_spec cached (current absolute)) ?_ fun _ => id
    rintro _ next ⟨rfl, shift⟩
    rw [← shift.frame.inum _ (current absolute)] at stopped ⊢
    exact rest _ next shift stopped

end Namex

end Xv6.Fs
