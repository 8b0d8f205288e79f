import Xv6.Foundation.Tally
import Xv6.Fs.Unlinking

/-!
# Directory entries and link counts

The first two entries of a directory are `.` and `..`; the others refer to its
children.  The link count of an inode is the number of entries that refer to it
as a child, plus the number of directories among its own children, plus one for
the root.  This module says how the operations on a volume change these
numbers.
-/

namespace Xv6.Fs

open List Function Foundation.Tally
open Option (any_some elim_none elim_some)

/-! ## Names -/

/-- The characters of a name that are compared. -/
def label (name : List Byte) (n : Nat) : List Byte :=
  (name.take n).takeWhile (· ≠ 0)

theorem label_succ (name : List Byte) (n : Nat) : label name (n + 1) =
      if name.headD 0 = 0 then [] else name.headD 0 :: label name.tail n := by
  unfold label
  cases name with
  | nil => rfl
  | cons byte rest =>
    rw [take_succ_cons, takeWhile_cons, headD_cons, tail_cons]
    by_cases zero : byte = 0
    · rw [if_pos zero, if_neg (by simp [zero])]
    · rw [if_neg zero, if_pos (decide_eq_true zero)]

theorem strncmp_eq_zero {p q : List Byte} {n : Nat} :
    strncmp p q n = 0 ↔ label p n = label q n := by
  induction n generalizing p q with
  | zero => simp [strncmp, label]
  | succ n ih =>
    unfold strncmp
    rw [label_succ, label_succ]
    by_cases equal : p.headD 0 = q.headD 0
    · by_cases zero : p.headD 0 = 0
      · rw [if_neg fun both => both.1 zero, if_pos zero, if_pos (equal ▸ zero), equal, Int.sub_self]
        exact iff_of_true rfl rfl
      · rw [if_pos ⟨zero, equal⟩, ih, if_neg zero,
          if_neg (equal ▸ zero), List.cons.injEq, and_iff_right equal]
    · rw [if_neg fun both => equal both.2]
      refine iff_of_false (fun same => equal ?_) fun same => ?_
      · exact BitVec.toNat_inj.mp (by omega)
      · split at same <;> split at same
        case isTrue.isTrue left right => exact equal (left.trans right.symm)
        case isFalse.isFalse => exact equal (List.cons.inj same).1
        all_goals cases same

/-- Two names that compare equal to a third compare equal. -/
theorem namecmp_eq_zero {s t u : List Byte} (first : namecmp s u = 0)
    (second : namecmp t u = 0) : namecmp s t = 0 :=
  strncmp_eq_zero.mpr ((strncmp_eq_zero.mp first).trans (strncmp_eq_zero.mp second).symm)

/-! ## The entries of one directory -/

section Entries

variable {entries : List Dirent} {dirent old : Dirent} {index : Nat}

/-- The first entry is `.` and the second is `..`. -/
structure Dotted (entries : List Dirent) : Prop where
  first : ∃ dirent, entries[0]? = some dirent ∧ dirent.Named dot
  second : ∃ dirent, entries[1]? = some dirent ∧ dirent.Named dotdot

/-- The entries after `.` and `..`. -/
def children (entries : List Dirent) : List Dirent :=
  entries.drop 2

section

variable (dotted : Dotted entries)
include dotted

theorem Dotted.cons :
    ∃ first second rest, entries = first :: second :: rest ∧
      first.Named dot ∧ second.Named dotdot := by
  obtain ⟨first, there, named⟩ := dotted.first
  obtain ⟨second, there', named'⟩ := dotted.second
  cases entries with
  | nil => cases there
  | cons first rest =>
    cases rest with
    | nil => cases there'
    | cons second rest =>
      cases there
      cases there'
      exact ⟨first, second, rest, rfl, named, named'⟩

theorem Dotted.splice_children (late : 2 ≤ index) (new : Dirent) :
    children (splice entries index [new]) = (children entries).take (index - 2) ++ [new] ++
        (children entries).drop (index - 2 + 1) := by
  obtain ⟨first, second, rest, rfl, -, -⟩ := dotted.cons
  obtain ⟨k, rfl⟩ := Nat.exists_eq_add_of_le late
  unfold children splice
  simp [Nat.add_comm 2 k]

/-- The empty entry that `dirlink` uses comes after `.` and `..`. -/
theorem Dotted.emptyIndex : emptyIndex entries = Fs.emptyIndex (children entries) + 2 := by
  obtain ⟨first, second, rest, rfl, named, named'⟩ := dotted.cons
  have used : decide (first.inum = 0) = false := decide_eq_false named.1
  have used' : decide (second.inum = 0) = false := decide_eq_false named'.1
  unfold Fs.emptyIndex children
  rw [findIdx_cons, used, findIdx_cons, used']
  rfl

theorem Dotted.splice (late : 2 ≤ index) : Dotted (splice entries index [dirent]) := by
  obtain ⟨first, second, rest, rfl, named, named'⟩ := dotted.cons
  obtain ⟨k, rfl⟩ := Nat.exists_eq_add_of_le late
  rw [Nat.add_comm]
  exact ⟨⟨first, rfl, named⟩, ⟨second, rfl, named'⟩⟩

theorem Dotted.insertEntry : Dotted (insertEntry entries dirent) :=
  dotted.splice (by rw [dotted.emptyIndex]; omega)

/-- A name other than `.` and `..` is found after them. -/
theorem Dotted.late {name : List Byte} {inum : Nat} (notDot : namecmp name dot ≠ 0)
    (notDotdot : namecmp name dotdot ≠ 0)
    (found : lookup entries name = some (inum, index)) : 2 ≤ index := by
  obtain ⟨dirent, there, named, -⟩ := lookup_eq_some found
  obtain ⟨first, firstThere, firstNamed⟩ := dotted.first
  obtain ⟨second, secondThere, secondNamed⟩ := dotted.second
  by_contra early
  have place : index = 0 ∨ index = 1 := by omega
  rcases place with rfl | rfl
  · cases firstThere.symm.trans there
    exact notDot (namecmp_eq_zero named.2 firstNamed.2)
  · cases secondThere.symm.trans there
    exact notDotdot (namecmp_eq_zero named.2 secondNamed.2)

theorem Dotted.countP_insertEntry (test : Dirent → Bool)
    (unused : ∀ other, other.inum = 0 → test other = false) :
    (children (Fs.insertEntry entries dirent)).countP test =
      (children entries).countP test + (test dirent).toNat := by
  unfold Fs.insertEntry
  rw [dotted.splice_children (by rw [dotted.emptyIndex]; omega), dotted.emptyIndex,
    Nat.add_sub_cancel]
  by_cases full : Fs.emptyIndex (children entries) < (children entries).length
  · -- an empty entry is overwritten
    have empty : decide (((children entries)[Fs.emptyIndex (children entries)]).inum = 0) = true :=
      findIdx_getElem (w := full)
    have there := getElem?_eq_getElem full
    have counted : ((children entries).take _ ++ [dirent] ++ _).countP test +
      _ = _ := countP_replace test there
    rw [unused _ (of_decide_eq_true empty)] at counted
    exact counted
  · rw [take_of_length_le (by omega), drop_of_length_le (by omega), append_nil]
    exact countP_append_one test

theorem Dotted.countP_remove (late : 2 ≤ index)
    (there : entries[index]? = some old) (test : Dirent → Bool) (unused : test .empty = false) :
    (children (Fs.splice entries index [.empty])).countP test + (test old).toNat =
      (children entries).countP test := by
  have there' : (children entries)[index - 2]? = some old := by
    unfold children
    rw [getElem?_drop]
    rwa [show 2 + (index - 2) = index by omega]
  rw [dotted.splice_children late, countP_replace test there', unused]
  rfl

end

end Entries

/-! ## Counts over the volume -/

/-- The number of children of a directory with an inode number. -/
def Node.refers (node : Node) (i : Nat) : Nat :=
  (children node.entries).countP fun dirent => decide (dirent.inum.toNat = i)

/-- The number of entries that refer to an inode as a child. -/
def Volume.referrers (vol : Volume) (ninodes i : Nat) : Nat :=
  ∑ d ∈ Finset.range ninodes, (vol d).elim 0 (Node.refers · i)

/-- The inode is an allocated directory. -/
def Volume.isDirectory (vol : Volume) (i : Nat) : Bool :=
  (vol i).any fun node => decide (node.type = tDir)

/-- The number of directories among the children of a directory. -/
def Volume.subdirectories (vol : Volume) (node : Node) : Nat :=
  (children node.entries).countP fun dirent =>
    vol.isDirectory dirent.inum.toNat

variable {node dir : Node} {n d i j index : Nat}

section Counts

variable {vol volume' : Volume}

theorem referrers_update (vol : Volume) (i : Nat) (inside : d < n) (value : Option Node) :
    Volume.referrers (update vol d value) n i + (vol d).elim 0 (Node.refers · i) =
      vol.referrers n i + value.elim 0 (Node.refers · i) :=
  sum_update (Finset.mem_range.mpr inside) (fun node : Option Node =>
    node.elim 0 (Node.refers · i)) vol value

/-- Entries of an allocated directory are counted. -/
theorem refers_le_referrers (inside : d < n) (present : vol d = some node) :
    node.refers i ≤ vol.referrers n i := by
  have without := referrers_update vol i inside none
  rw [present, elim_some, elim_none] at without
  omega

/-- An inode that is referred to is a child of an allocated directory. -/
theorem exists_refers (counted : 0 < vol.referrers n i) :
    ∃ d < n, ∃ node, vol d = some node ∧ 0 < node.refers i := by
  obtain ⟨d, inside, positive⟩ :=
    Finset.exists_ne_zero_of_sum_ne_zero (Nat.pos_iff_ne_zero.mp counted)
  cases present : vol d with
  | none =>
    rw [present] at positive
    exact absurd rfl positive
  | some node =>
    rw [present] at positive
    exact ⟨d, Finset.mem_range.mp inside, node, present, Nat.pos_of_ne_zero positive⟩

theorem refers_pos : 0 < node.refers i ↔
      ∃ dirent ∈ children node.entries, dirent.inum.toNat = i := by
  unfold Node.refers
  rw [countP_pos_iff]
  simp only [decide_eq_true_eq]

theorem subdirectories_congr
    (same : ∀ j, 0 < node.refers j → volume'.isDirectory j = vol.isDirectory j) :
    volume'.subdirectories node = vol.subdirectories node :=
  countP_congr fun dirent member => by
    rw [same _ (refers_pos.mpr ⟨dirent, member, rfl⟩)]

theorem refers_of_vacant (vacant : Vacant node.entries) (positive : 0 < i) : node.refers i = 0 := by
  refine Nat.eq_zero_of_not_pos fun child => ?_
  obtain ⟨dirent, member, rfl⟩ := refers_pos.mp child
  rw [vacant dirent member] at positive
  exact Nat.lt_irrefl 0 positive

theorem isDirectory_update {new : Node} (present : vol d = some dir) (type : new.type = dir.type) :
    Volume.isDirectory (update vol d (some new)) = vol.isDirectory := by
  funext other
  unfold Volume.isDirectory
  by_cases here : other = d
  · subst here
    rw [update_self, present, any_some, any_some, type]
  · rw [update_of_ne here]

end Counts

/-! ## Volumes with right entries -/

/-- Directories start with `.` and `..`, other inodes have no entries, children
are allocated, and the root is a directory that is nobody's child. -/
structure Tidy (vol : Volume) (n : Nat) : Prop where
  small : n ≤ 2 ^ 16
  inside : ∀ {i node}, vol i = some node → 0 < i ∧ i < n
  dotted : ∀ {d node}, vol d = some node → node.type = tDir → Dotted node.entries
  plain : ∀ {i node}, vol i = some node → node.type ≠ tDir → node.entries = []
  absent : ∀ {i}, vol i = none → 0 < i → vol.referrers n i = 0
  root : vol.isDirectory rootino = true
  top : vol.referrers n rootino = 0

/-- Link counts are the number of entries that refer to an inode, other than
`.` and the `..` of the root's own, plus one for the root. -/
structure Counted (vol : Volume) (n : Nat) : Prop
    extends Tidy vol n where
  links : ∀ {i node}, vol i = some node →
    node.nlink.toNat = vol.referrers n i + vol.subdirectories node +
      if i = rootino then 1 else 0

section Tidy

variable {vol : Volume} {name : List Byte} {type : BitVec 16}

theorem Tidy.zero (tidy : Tidy vol n) : vol 0 = none := by
  cases present : vol 0 with
  | none => rfl
  | some node => exact absurd (tidy.inside present).1 (Nat.lt_irrefl 0)

theorem Tidy.subdirectories_of_vacant
    {other : Node} (tidy : Tidy vol n) (vacant : Vacant other.entries) :
    vol.subdirectories other = 0 := by
  refine Nat.eq_zero_of_not_pos fun positive => ?_
  obtain ⟨dirent, member, flag⟩ := countP_pos_iff.mp positive
  rw [vacant dirent member] at flag
  unfold Volume.isDirectory at flag
  rw [show (0 : BitVec 16).toNat = 0 from rfl, tidy.zero] at flag
  cases flag

theorem Tidy.refers_absent (tidy : Tidy vol n) (absent : vol i = none)
    (positive : 0 < i) (present : vol d = some node) : node.refers i = 0 := by
  have bound := refers_le_referrers (i := i) (tidy.inside present).2 present
  rw [tidy.absent absent positive] at bound
  exact Nat.le_zero.mp bound

theorem linkEntry_inum (small : i < 2 ^ 16) : (linkEntry name i).inum.toNat = i :=
  Nat.mod_eq_of_lt small

variable {nlink : BitVec 16}

theorem Tidy.refers_insertEntry (tidy : Tidy vol n)
    (present : vol d = some dir) (isDirectory : dir.type = tDir)
    (inside : i < n) (positive : 0 < j) :
    Node.refers ⟨dir.type, nlink, insertEntry dir.entries (linkEntry name i)⟩ j =
      dir.refers j + if j = i then 1 else 0 := by
  unfold Node.refers
  rw [(tidy.dotted present isDirectory).countP_insertEntry _ fun other zero => by
      rw [zero]
      exact decide_eq_false positive.ne,
    linkEntry_inum (inside.trans_le tidy.small)]
  by_cases same : j = i
  · rw [if_pos same, decide_eq_true same.symm]
    rfl
  · rw [if_neg same, decide_eq_false fun equal => same equal.symm]
    rfl

theorem Tidy.subdirectories_insertEntry {volume' : Volume}
    (tidy : Tidy vol n) (present : vol d = some dir)
    (isDirectory : dir.type = tDir) (inside : i < n) (zero : volume' 0 = none) :
    volume'.subdirectories ⟨dir.type, nlink, insertEntry dir.entries (linkEntry name i)⟩ =
      volume'.subdirectories dir + (volume'.isDirectory i).toNat := by
  unfold Volume.subdirectories
  rw [(tidy.dotted present isDirectory).countP_insertEntry _ fun other empty => by
      rw [empty]
      unfold Volume.isDirectory
      rw [show (0 : BitVec 16).toNat = 0 from rfl, zero]
      rfl,
    linkEntry_inum (inside.trans_le tidy.small)]

/-! ## What the operations do to the counts -/

/-- The entries of a new directory. -/
theorem dots_eq (positive : 0 < i) (small : i < 2 ^ 16) :
    dots i d = [linkEntry dot i, linkEntry dotdot d] := by
  have used : (linkEntry dot i).inum ≠ 0 := fun zero => by
    have number : (linkEntry dot i).inum.toNat = i := linkEntry_inum small
    rw [zero] at number
    exact positive.ne number
  change splice [linkEntry dot i] ([linkEntry dot i].findIdx fun dirent =>
    decide (dirent.inum = 0)) [linkEntry dotdot d] = _
  rw [findIdx_cons, decide_eq_false used]
  rfl

theorem children_newNode (positive : 0 < i) (small : i < 2 ^ 16) :
    children (newNode type i d).entries = [] := by
  unfold newNode
  by_cases isDirectory : type = tDir
  · simp only [if_pos isDirectory]
    rw [dots_eq positive small]
    rfl
  · simp only [if_neg isDirectory]
    rfl

theorem refers_newNode (positive : 0 < i) (small : i < 2 ^ 16) :
    (newNode type i d).refers j = 0 := by
  unfold Node.refers
  rw [children_newNode positive small]
  rfl

section

variable (tidy : Tidy vol n) (present : vol d = some dir)
  (isDirectory : dir.type = tDir)
include tidy present isDirectory

theorem Volume.referrers_created (absent : vol i = none) (number : 0 < i) (inside : i < n)
    (positive : 0 < j) :
    (vol.created d i dir name type).referrers n j =
      vol.referrers n j + if j = i then 1 else 0 := by
  have apart : d ≠ i := by
    rintro rfl
    rw [absent] at present
    cases present
  have first := referrers_update vol j inside (some (newNode type i d))
  have second := referrers_update (update vol i (some (newNode type i d))) j
    (tidy.inside present).2 (some (parentNode dir name type i))
  have parent : (parentNode dir name type i).refers j =
      dir.refers j + if j = i then 1 else 0 :=
    tidy.refers_insertEntry present isDirectory inside positive
  rw [absent, elim_none, elim_some, refers_newNode number (inside.trans_le tidy.small)] at first
  rw [update_of_ne apart, present, elim_some, elim_some, parent] at second
  unfold Volume.created
  omega

theorem Volume.referrers_linked (target : vol i = some node) (apart : d ≠ i) (positive : 0 < j) :
    (vol.linked d i dir node name).referrers n j =
      vol.referrers n j + if j = i then 1 else 0 := by
  have inside := (tidy.inside target).2
  have first := referrers_update vol j inside (some { node with nlink := node.nlink + 1 })
  have second := referrers_update (update vol i (some { node with nlink := node.nlink + 1 })) j
    (tidy.inside present).2 (some { dir with
      entries := insertEntry dir.entries (linkEntry name i) })
  have parent : Node.refers { dir with
        entries := insertEntry dir.entries (linkEntry name i) } j =
      dir.refers j + if j = i then 1 else 0 :=
    tidy.refers_insertEntry present isDirectory inside positive
  have same : Node.refers { node with nlink := node.nlink + 1 } j = node.refers j := rfl
  rw [target, elim_some, elim_some, same] at first
  rw [update_of_ne apart, present, elim_some, elim_some, parent] at second
  unfold Volume.linked
  omega

theorem Volume.referrers_unlinked (target : vol i = some node) (apart : d ≠ i) {dirent : Dirent}
    (there : dir.entries[index]? = some dirent)
    (refers : dirent.inum.toNat = i) (late : 2 ≤ index) (positive : 0 < j) :
    (vol.unlinked d i index dir node).referrers n j +
        (if j = i then 1 else 0) = vol.referrers n j := by
  have first := referrers_update vol j
    (tidy.inside present).2 (some (unlinkedNode dir node.type index))
  have second := referrers_update (update vol d (some (unlinkedNode dir node.type index))) j
    (tidy.inside target).2 (some { node with nlink := node.nlink - 1 })
  have parent : (unlinkedNode dir node.type index).refers j +
      (decide (dirent.inum.toNat = j)).toNat = dir.refers j :=
    (tidy.dotted present isDirectory).countP_remove late there _ (decide_eq_false positive.ne)
  have entry : (decide (dirent.inum.toNat = j)).toNat =
      if j = i then 1 else 0 := by
    by_cases same : j = i
    · rw [if_pos same, decide_eq_true (refers.trans same.symm)]
      rfl
    · rw [if_neg same, decide_eq_false fun equal => same (equal.symm.trans refers)]
      rfl
  have same : Node.refers { node with nlink := node.nlink - 1 } j = node.refers j := rfl
  rw [present, elim_some, elim_some] at first
  rw [update_of_ne apart.symm, target, elim_some, elim_some, same] at second
  unfold Volume.unlinked
  omega

end

theorem isDirectory_created (present : vol d = some dir) (absent : vol i = none) :
    (vol.created d i dir name type).isDirectory =
      update vol.isDirectory i (decide (type = tDir)) := by
  have apart : d ≠ i := by
    rintro rfl
    rw [absent] at present
    cases present
  have there : update vol i (some (newNode type i d)) d = some dir := by
    rw [update_of_ne apart]
    exact present
  have parent : (parentNode dir name type i).type = dir.type := rfl
  unfold Volume.created
  rw [isDirectory_update there parent]
  funext other
  unfold Volume.isDirectory
  by_cases here : other = i
  · subst here
    rw [update_self, update_self]
    rfl
  · rw [update_of_ne here, update_of_ne here]

variable {first second : Node}

/-- Two inodes are changed and keep their types. -/
theorem isDirectory_update_update (present : vol d = some dir) (target : vol i = some node)
    (apart : d ≠ i) (firstType : first.type = node.type) (secondType : second.type = dir.type) :
    Volume.isDirectory (update (update vol i (some first)) d (some second)) =
      vol.isDirectory := by
  have there : update vol i (some first) d = some dir := by
    rw [update_of_ne apart]
    exact present
  rw [isDirectory_update there secondType, isDirectory_update target firstType]

/-! ## The operations keep link counts right -/

theorem toNat_succ (room : nlink + 1 ≠ 0) : (nlink + 1).toNat = nlink.toNat + 1 := by
  bv_omega

theorem toNat_pred (positive : 0 < nlink.toNat) : (nlink - 1).toNat = nlink.toNat - 1 := by
  bv_omega

/-- The inodes of a volume in which two were changed. -/
theorem update_update_eq {first second : Option Node}
    (present : update (update vol i first) d second j = some node) :
    (j = d ∧ second = some node) ∨ (j ≠ d ∧ j = i ∧ first = some node) ∨
      (j ≠ d ∧ j ≠ i ∧ vol j = some node) := by
  by_cases here : j = d
  · subst here
    rw [update_self] at present
    exact .inl ⟨rfl, present⟩
  rw [update_of_ne here] at present
  by_cases there : j = i
  · subst there
    rw [update_self] at present
    exact .inr (.inl ⟨here, rfl, present⟩)
  · rw [update_of_ne there] at present
    exact .inr (.inr ⟨here, there, present⟩)

theorem update_update_none (absent : update (update vol i (some first)) d (some second) j = none) :
    vol j = none := by
  by_cases here : j = d
  · subst here
    rw [update_self] at absent
    cases absent
  rw [update_of_ne here] at absent
  by_cases there : j = i
  · subst there
    rw [update_self] at absent
    cases absent
  · rwa [update_of_ne there] at absent

theorem Tidy.created (tidy : Tidy vol n)
    (present : vol d = some dir) (isDirectory : dir.type = tDir)
    (absent : vol i = none) (number : 0 < i) (inside : i < n) :
    Tidy (vol.created d i dir name type) n where
  small := tidy.small
  inside := by
    intro x node there
    rcases update_update_eq there with ⟨rfl, -⟩ | ⟨-, rfl, -⟩ | ⟨-, -, old⟩
    · exact tidy.inside present
    · exact ⟨number, inside⟩
    · exact tidy.inside old
  dotted := by
    intro x node there type
    rcases update_update_eq there with ⟨rfl, new⟩ | ⟨-, rfl, new⟩ | ⟨-, -, old⟩
    · cases new
      exact (tidy.dotted present isDirectory).insertEntry
    · cases new
      have used : (linkEntry dot x).inum ≠ 0 := fun zero => by
        have same : (linkEntry dot x).inum.toNat = x := linkEntry_inum (inside.trans_le tidy.small)
        rw [zero] at same
        exact number.ne same
      have used' : (linkEntry dotdot d).inum ≠ 0 := fun zero => by
        have same : (linkEntry dotdot d).inum.toNat = d :=
          linkEntry_inum ((tidy.inside present).2.trans_le tidy.small)
        rw [zero] at same
        exact (tidy.inside present).1.ne same
      unfold newNode at type ⊢
      simp only at type
      rw [if_pos type, dots_eq number (inside.trans_le tidy.small)]
      exact ⟨⟨_, rfl, used, (by decide : namecmp dot (strncpy dot dirsiz) = 0)⟩,
        ⟨_, rfl, used', (by decide : namecmp dotdot (strncpy dotdot dirsiz) = 0)⟩⟩
    · exact tidy.dotted old type
  plain := by
    intro x node there type
    rcases update_update_eq there with ⟨rfl, new⟩ | ⟨-, rfl, new⟩ | ⟨-, -, old⟩
    · cases new
      exact absurd isDirectory type
    · cases new
      exact if_neg type
    · exact tidy.plain old type
  absent := by
    intro x gone positive
    have before := update_update_none gone
    have apart : x ≠ i := by
      rintro rfl
      rw [Volume.created, update_of_ne, update_self] at gone
      · cases gone
      · rintro rfl
        rw [present] at absent
        cases absent
    rw [Volume.referrers_created tidy present isDirectory absent number inside
      positive, if_neg apart]
    exact tidy.absent before positive
  root := by
    rw [isDirectory_created present absent]
    have apart : rootino ≠ i := by
      rintro rfl
      have root := tidy.root
      rw [Volume.isDirectory, absent] at root
      cases root
    rw [update_of_ne apart]
    exact tidy.root
  top := by
    have apart : rootino ≠ i := by
      rintro rfl
      have root := tidy.root
      rw [Volume.isDirectory, absent] at root
      cases root
    rw [Volume.referrers_created tidy present isDirectory absent number inside
      (by decide), if_neg apart]
    exact tidy.top

/-- The link count of an inode and an entry for it in a directory are
changed. -/
theorem Tidy.update_update (tidy : Tidy vol n)
    (present : vol d = some dir) (target : vol i = some node)
    (apart : d ≠ i) (firstType : first.type = node.type)
    (firstEntries : first.entries = node.entries) (secondType : second.type = dir.type)
    (isDirectory : dir.type = tDir) (dotted : Dotted second.entries) (notRoot : i ≠ rootino)
    (fewer : ∀ j, 0 < j → j ≠ i → Volume.referrers (update (update vol i (some first))
        d (some second)) n j ≤ vol.referrers n j) :
    Tidy (update (update vol i (some first)) d (some second)) n where
  small := tidy.small
  inside := by
    intro x other there
    rcases update_update_eq there with ⟨rfl, -⟩ | ⟨-, rfl, -⟩ | ⟨-, -, old⟩
    · exact tidy.inside present
    · exact tidy.inside target
    · exact tidy.inside old
  dotted := by
    intro x other there type
    rcases update_update_eq there with ⟨rfl, new⟩ | ⟨-, rfl, new⟩ | ⟨-, -, old⟩
    · cases new
      exact dotted
    · cases new
      rw [firstEntries]
      exact tidy.dotted target (firstType.symm.trans type)
    · exact tidy.dotted old type
  plain := by
    intro x other there type
    rcases update_update_eq there with ⟨rfl, new⟩ | ⟨-, rfl, new⟩ | ⟨-, -, old⟩
    · cases new
      exact absurd (secondType.trans isDirectory) type
    · cases new
      rw [firstEntries]
      exact tidy.plain target (firstType ▸ type)
    · exact tidy.plain old type
  absent := by
    intro x gone positive
    have before := update_update_none gone
    have other : x ≠ i := by
      rintro rfl
      rw [target] at before
      cases before
    have bound := fewer x positive other
    rw [tidy.absent before positive] at bound
    exact Nat.le_zero.mp bound
  root := by
    rw [isDirectory_update_update present target apart firstType secondType]
    exact tidy.root
  top := by
    have bound := fewer rootino (by decide) notRoot.symm
    rw [tidy.top] at bound
    exact Nat.le_zero.mp bound

section

variable (counted : Counted vol n) (present : vol d = some dir)
  (isDirectory : dir.type = tDir)
include counted present isDirectory

/-- An inode is made. -/
theorem Counted.created (absent : vol i = none) (number : 0 < i) (inside : i < n)
    (room : type = tDir → dir.nlink + 1 ≠ 0) : Counted (vol.created d i dir name type) n where
  toTidy := counted.toTidy.created present isDirectory absent number inside
  links := by
    have tidy := counted.toTidy
    have apart : d ≠ i := by
      rintro rfl
      rw [absent] at present
      cases present
    have flags : (vol.created d i dir name type).isDirectory =
        update vol.isDirectory i (decide (type = tDir)) :=
      isDirectory_created present absent
    have kept : ∀ {x node}, vol x = some node →
        (vol.created d i dir name type).subdirectories node =
          vol.subdirectories node := by
      intro x node there
      refine subdirectories_congr fun y child => ?_
      rw [flags]
      refine update_of_ne ?_ ..
      rintro rfl
      rw [tidy.refers_absent absent number there] at child
      exact Nat.lt_irrefl 0 child
    intro x other there
    have positive : 0 < x := ((tidy.created present isDirectory absent number
      inside).inside there).1
    rw [Volume.referrers_created tidy present isDirectory absent number inside positive]
    rcases update_update_eq there with ⟨rfl, new⟩ | ⟨-, rfl, new⟩ |
      ⟨-, other, old⟩
    · cases new
      have zero : vol.created x i dir name type 0 = none := by
        unfold Volume.created
        rw [update_of_ne positive.ne, update_of_ne number.ne]
        exact tidy.zero
      have before := counted.links present
      have grown : (vol.created x i dir name type).subdirectories
          (parentNode dir name type i) = _ :=
        tidy.subdirectories_insertEntry present isDirectory inside zero
      rw [kept present, flags, update_self] at grown
      rw [grown, if_neg apart]
      unfold parentNode
      unfold linksFor
      by_cases directoryMade : type = tDir
      · rw [if_pos directoryMade, toNat_succ (room directoryMade),
          decide_eq_true directoryMade, before]
        simp only [Bool.toNat_true]
        omega
      · rw [if_neg directoryMade, decide_eq_false directoryMade, before]
        simp only [Bool.toNat_false]
        omega
    · cases new
      have none : vol.referrers n x = 0 := tidy.absent absent number
      have notRoot : x ≠ rootino := by
        rintro rfl
        have root := tidy.root
        rw [Volume.isDirectory, absent] at root
        cases root
      unfold Volume.subdirectories
      rw [children_newNode number (inside.trans_le tidy.small), none, if_pos rfl, if_neg notRoot]
      rfl
    · rw [kept old, if_neg other]
      exact counted.links old

theorem Counted.linked (target : vol i = some node) (plain : node.type ≠ tDir)
    (room : node.nlink + 1 ≠ 0) : Counted (vol.linked d i dir node name) n := by
  have tidy := counted.toTidy
  have apart : d ≠ i := by
    rintro rfl
    rw [target] at present
    cases present
    exact plain isDirectory
  have file : vol.isDirectory i = false := by
    unfold Volume.isDirectory
    rw [target]
    exact decide_eq_false plain
  have notRoot : i ≠ rootino := by
    rintro rfl
    rw [tidy.root] at file
    cases file
  have sums : ∀ {j}, 0 < j → (vol.linked d i dir node name).referrers n j =
        vol.referrers n j + if j = i then 1 else 0 :=
    Volume.referrers_linked tidy present isDirectory target apart
  have flags : (vol.linked d i dir node name).isDirectory = vol.isDirectory :=
    isDirectory_update_update present target apart rfl rfl
  have kept : ∀ other, (vol.linked d i dir node name).subdirectories other =
        vol.subdirectories other :=
    fun other => subdirectories_congr fun y _ => congrFun flags y
  refine ⟨tidy.update_update present target apart rfl rfl rfl isDirectory
    (tidy.dotted present isDirectory).insertEntry notRoot fun j positive other =>
      ?_, ?_⟩
  · exact (sums positive).trans_le (by rw [if_neg other]; exact Nat.le_refl _)
  intro x other there
  rcases update_update_eq there with ⟨rfl, new⟩ | ⟨-, rfl, new⟩ |
    ⟨-, another, old⟩
  · cases new
    have zero : vol.linked x i dir node name 0 = none := by
      unfold Volume.linked
      rw [update_of_ne (tidy.inside present).1.ne, update_of_ne (tidy.inside target).1.ne]
      exact tidy.zero
    have grown : (vol.linked x i dir node name).subdirectories
        { dir with
          entries := insertEntry dir.entries (linkEntry name i) } = _ :=
      tidy.subdirectories_insertEntry present isDirectory (tidy.inside target).2 zero
    rw [kept dir, flags, file] at grown
    have before := counted.links present
    rw [sums (tidy.inside present).1, if_neg apart, grown]
    exact before
  · cases new
    rw [sums (tidy.inside target).1, if_pos rfl, kept]
    change (node.nlink + 1).toNat = _ + vol.subdirectories node + _
    rw [toNat_succ room, counted.links target]
    omega
  · rw [sums (tidy.inside old).1, if_neg another, kept]
    exact counted.links old

/-- An entry for an inode is removed. -/
theorem Counted.unlinked {dirent : Dirent} (target : vol i = some node) (apart : d ≠ i)
    (there : dir.entries[index]? = some dirent)
    (refers : dirent.inum.toNat = i) (late : 2 ≤ index) :
    Counted (vol.unlinked d i index dir node) n := by
  have tidy := counted.toTidy
  have sums : ∀ {j}, 0 < j → (vol.unlinked d i index dir node).referrers n j +
        (if j = i then 1 else 0) = vol.referrers n j :=
    Volume.referrers_unlinked tidy present isDirectory target apart there refers late
  have referred := sums (tidy.inside target).1
  rw [if_pos rfl] at referred
  have notRoot : i ≠ rootino := by
    rintro rfl
    have top := tidy.top
    omega
  have turned : vol.unlinked d i index dir node =
      update (update vol i (some { node with nlink := node.nlink - 1 })) d
        (some (unlinkedNode dir node.type index)) :=
    update_comm apart ..
  have flags : (vol.unlinked d i index dir node).isDirectory = vol.isDirectory := by
    rw [turned]
    exact isDirectory_update_update present target apart rfl rfl
  have kept : ∀ other, (vol.unlinked d i index dir node).subdirectories other =
        vol.subdirectories other :=
    fun other => subdirectories_congr fun y _ => congrFun flags y
  refine ⟨?_, ?_⟩
  · rw [turned]
    refine tidy.update_update present target apart rfl rfl rfl isDirectory
      ((tidy.dotted present isDirectory).splice late) notRoot fun j positive other => ?_
    rw [← turned]
    exact Nat.le_of_add_right_le (sums positive).le
  intro x other there'
  rw [turned] at there'
  rcases update_update_eq there' with ⟨rfl, new⟩ | ⟨-, rfl, new⟩ |
    ⟨-, another, old⟩
  · cases new
    have before := counted.links present
    have same := sums (tidy.inside present).1
    rw [if_neg apart] at same
    have shrunk : vol.subdirectories (unlinkedNode dir node.type index) +
        (vol.isDirectory dirent.inum.toNat).toNat = vol.subdirectories dir :=
      (tidy.dotted present isDirectory).countP_remove late there _ (by
        rw [show Dirent.empty.inum.toNat = 0 from rfl, Volume.isDirectory, tidy.zero]
        rfl)
    have flag : vol.isDirectory dirent.inum.toNat = decide (node.type = tDir) := by
      rw [refers, Volume.isDirectory, target]
      rfl
    rw [kept]
    rw [flag] at shrunk
    change (unlinksFor node.type dir.nlink).toNat = _
    unfold unlinksFor
    by_cases directoryGone : node.type = tDir
    · rw [decide_eq_true directoryGone, Bool.toNat_true] at shrunk
      rw [if_pos directoryGone, toNat_pred (by omega), before]
      omega
    · rw [decide_eq_false directoryGone, Bool.toNat_false] at shrunk
      rw [if_neg directoryGone, before]
      omega
  · cases new
    have before := counted.links target
    rw [kept]
    change (node.nlink - 1).toNat = _ + vol.subdirectories node + _
    rw [toNat_pred (by omega), before]
    omega
  · have same := sums (tidy.inside old).1
    rw [if_neg another, Nat.add_zero] at same
    rw [kept, same]
    exact counted.links old

end

theorem Counted.freed (counted : Counted vol n)
    (target : vol i = some node) (unlinked : node.nlink = 0)
    (vacant : Vacant node.entries) : Counted (update vol i none) n := by
  have tidy := counted.toTidy
  have links := counted.links target
  rw [unlinked, show (0 : BitVec 16).toNat = 0 from rfl] at links
  have notRoot : i ≠ rootino := by
    rintro rfl
    rw [if_pos rfl] at links
    omega
  have sums : ∀ {j}, 0 < j → Volume.referrers (update vol i none) n j =
        vol.referrers n j := by
    intro j positive
    have change := referrers_update vol j (tidy.inside target).2 none
    rw [target, elim_some, elim_none, refers_of_vacant vacant positive] at change
    exact change
  have flags : ∀ {j}, j ≠ i → Volume.isDirectory (update vol i none) j =
        vol.isDirectory j := by
    intro j other
    unfold Volume.isDirectory
    rw [update_of_ne other]
  have old : ∀ {x other}, update vol i none x = some other → x ≠ i ∧ vol x = some other := by
    intro x other there
    by_cases here : x = i
    · rw [here, update_self] at there
      cases there
    · rw [update_of_ne here] at there
      exact ⟨here, there⟩
  refine ⟨⟨tidy.small, fun there => tidy.inside (old there).2,
    fun there => tidy.dotted (old there).2, fun there => tidy.plain (old there).2,
    ?_, ?_, ?_⟩, ?_⟩
  · intro x gone positive
    rw [sums positive]
    by_cases here : x = i
    · subst here
      omega
    · rw [update_of_ne here] at gone
      exact tidy.absent gone positive
  · rw [flags notRoot.symm]
    exact tidy.root
  · rw [sums (by decide)]
    exact tidy.top
  · intro x other there
    obtain ⟨apart, before⟩ := old there
    rw [sums (tidy.inside before).1, subdirectories_congr fun y child => ?_]
    · exact counted.links before
    · refine flags ?_
      rintro rfl
      have bound := refers_le_referrers (i := y) (tidy.inside before).2 before
      omega

end Tidy

end Xv6.Fs
