import Xv6.Fs.Tree

/-!
# Reachable inodes

Every allocated inode can be reached from the root through entries other than
`.` and `..`, and has links.  Making inodes and links keeps this so, and so
does removing an entry, provided that the inode is freed with its last link.
-/

namespace Xv6.Fs

open Function

/-- The inode can be reached from the root through directory entries. -/
inductive Reachable (vol : Volume) : Nat → Prop
  | root : Reachable vol rootino
  | entry {d : Nat} {dir : Node} {dirent : Dirent} (above : Reachable vol d)
      (present : vol d = some dir)
      (member : dirent ∈ dir.entries)
      (used : dirent.inum ≠ 0) :
      Reachable vol dirent.inum.toNat

/-- The inode can be reached from the root through entries after `.` and
`..`. -/
inductive Descends (vol : Volume) : Nat → Prop
  | root : Descends vol rootino
  | child {d i : Nat} {dir : Node} (above : Descends vol d)
      (present : vol d = some dir)
      (positive : 0 < i)
      (refers : 0 < dir.refers i) :
      Descends vol i

section Descends

variable {vol volume' : Volume} {i : Nat}

theorem Descends.reachable (descends : Descends vol i) : Reachable vol i := by
  induction descends with
  | root => exact .root
  | child above present positive refers ih =>
    obtain ⟨dirent, member, rfl⟩ := refers_pos.mp refers
    refine .entry ih present (List.mem_of_mem_drop member) ?_
    intro zero
    rw [zero] at positive
    exact Nat.lt_irrefl 0 positive

/-- Children that are kept stay reachable. -/
theorem Descends.mono (descends : Descends vol i)
    (kept : ∀ d dir, vol d = some dir → ∃ directory', volume' d = some directory' ∧
        ∀ j, 0 < j → dir.refers j ≤ directory'.refers j) : Descends volume' i := by
  induction descends with
  | root => exact .root
  | child above present positive refers ih =>
    obtain ⟨directory', present', more⟩ := kept _ _ present
    exact .child ih present' positive (refers.trans_le (more _ positive))

end Descends

/-- Every allocated inode has links and can be reached from the root. -/
structure Rooted (vol : Volume) (n : Nat) : Prop
    extends Counted vol n where
  linked : ∀ {i node}, vol i = some node → node.nlink ≠ 0
  descends : ∀ {i node}, vol i = some node → Descends vol i

section Rooted

variable {vol : Volume} {n d i index : Nat} {name : List Byte}
variable {node dir : Node} {type : BitVec 16}

theorem Rooted.created (rooted : Rooted vol n)
    (present : vol d = some dir) (isDirectory : dir.type = tDir)
    (absent : vol i = none) (number : 0 < i) (inside : i < n)
    (room : type = tDir → dir.nlink + 1 ≠ 0) : Rooted (vol.created d i dir name type) n := by
  have tidy := rooted.toTidy
  have apart : d ≠ i := by
    rintro rfl
    rw [absent] at present
    cases present
  have parent : vol.created d i dir name type d =
      some (parentNode dir name type i) :=
    update_self ..
  have grown : ∀ j, 0 < j → (parentNode dir name type i).refers j =
      dir.refers j + if j = i then 1 else 0 := fun j positive =>
    tidy.refers_insertEntry present isDirectory inside positive
  have kept : ∀ x other, vol x = some other →
      ∃ other', vol.created d i dir name type x = some other' ∧
        ∀ j, 0 < j → other.refers j ≤ other'.refers j := by
    intro x other there
    by_cases here : x = d
    · subst here
      cases present.symm.trans there
      exact ⟨_, parent, fun j positive => by rw [grown j positive]; omega⟩
    · have another : x ≠ i := by
        rintro rfl
        rw [absent] at there
        cases there
      refine ⟨other, ?_, fun _ _ => Nat.le_refl _⟩
      unfold Volume.created
      rw [update_of_ne here, update_of_ne another]
      exact there
  refine ⟨rooted.toCounted.created present isDirectory absent number inside room, ?_, ?_⟩
  · intro x other there
    rcases update_update_eq there with ⟨rfl, new⟩ | ⟨-, rfl, new⟩ | ⟨-, -, old⟩
    · cases new
      unfold parentNode linksFor
      by_cases directoryMade : type = tDir
      · simp only [if_pos directoryMade]
        exact room directoryMade
      · simp only [if_neg directoryMade]
        exact rooted.linked present
    · cases new
      exact (by decide : (1 : BitVec 16) ≠ 0)
    · exact rooted.linked old
  · intro x other there
    rcases update_update_eq there with ⟨rfl, -⟩ | ⟨-, rfl, -⟩ | ⟨-, -, old⟩
    · exact (rooted.descends present).mono kept
    · refine .child ((rooted.descends present).mono kept) parent number ?_
      rw [grown x number, if_pos rfl]
      omega
    · exact (rooted.descends old).mono kept

theorem Rooted.linked_step (rooted : Rooted vol n)
    (present : vol d = some dir) (isDirectory : dir.type = tDir)
    (target : vol i = some node) (plain : node.type ≠ tDir) (room : node.nlink + 1 ≠ 0) :
    Rooted (vol.linked d i dir node name) n := by
  have tidy := rooted.toTidy
  have kept : ∀ x other, vol x = some other →
      ∃ other', vol.linked d i dir node name x = some other' ∧
        ∀ j, 0 < j → other.refers j ≤ other'.refers j := by
    intro x other there
    unfold Volume.linked
    by_cases here : x = d
    · subst here
      cases present.symm.trans there
      refine ⟨_, update_self .., fun j positive => ?_⟩
      rw [tidy.refers_insertEntry present isDirectory (tidy.inside target).2 positive]
      omega
    · rw [update_of_ne here]
      by_cases same : x = i
      · subst same
        cases target.symm.trans there
        exact ⟨_, update_self .., fun _ _ => Nat.le_refl _⟩
      · rw [update_of_ne same]
        exact ⟨other, there, fun _ _ => Nat.le_refl _⟩
  refine ⟨rooted.toCounted.linked present isDirectory target plain room, ?_, ?_⟩
  · intro x other there
    rcases update_update_eq there with ⟨rfl, new⟩ | ⟨-, rfl, new⟩ | ⟨-, -, old⟩
    · cases new
      have before := rooted.linked present
      exact before
    · cases new
      exact room
    · exact rooted.linked old
  · intro x other there
    rcases update_update_eq there with ⟨rfl, -⟩ | ⟨-, rfl, -⟩ | ⟨-, -, old⟩
    · exact (rooted.descends present).mono kept
    · exact (rooted.descends target).mono kept
    · exact (rooted.descends old).mono kept

/-- Nothing is reached through an inode without children, so an entry for it
can go. -/
theorem Descends.unlinked {dirent : Dirent} {j : Nat}
    (descends : Descends vol j) (tidy : Tidy vol n)
    (present : vol d = some dir) (isDirectory : dir.type = tDir)
    (target : vol i = some node) (vacant : Vacant node.entries)
    (there : dir.entries[index]? = some dirent)
    (refers : dirent.inum.toNat = i) (late : 2 ≤ index) {volume' : Volume}
    (parent : volume' d = some (unlinkedNode dir node.type index))
    (others : ∀ x, x ≠ d → x ≠ i → volume' x = vol x) (other : j ≠ i) : Descends volume' j := by
  induction descends with
  | root => exact .root
  | @child x j middle above here positive child ih =>
    have through : x ≠ i := by
      rintro rfl
      cases target.symm.trans here
      rw [refers_of_vacant vacant positive] at child
      exact Nat.lt_irrefl 0 child
    by_cases same : x = d
    · subst same
      cases present.symm.trans here
      refine .child (ih through) parent positive ?_
      have removed : (unlinkedNode dir node.type index).refers j +
          (decide (dirent.inum.toNat = j)).toNat = dir.refers j :=
        (tidy.dotted present isDirectory).countP_remove late there _ (decide_eq_false positive.ne)
      rw [decide_eq_false fun equal => other (equal.symm.trans refers),
        Bool.toNat_false, Nat.add_zero] at removed
      rw [removed]
      exact child
    · exact .child (ih through) ((others x same through).trans here) positive child

theorem Rooted.referred (rooted : Rooted vol n) (present : vol i = some node) :
    i = rootino ∨ 0 < vol.referrers n i := by
  cases rooted.descends present with
  | root => exact .inl rfl
  | child above there positive refers =>
    exact .inr (refers.trans_le (refers_le_referrers (rooted.inside there).2 there))

/-- An entry is removed, and the inode is freed with its last link. -/
theorem Rooted.unlinked {dirent : Dirent} {used : Finset Nat}
    (rooted : Rooted vol n) (present : vol d = some dir)
    (isDirectory : dir.type = tDir) (target : vol i = some node)
    (apart : d ≠ i) (vacant : Vacant node.entries) (there : dir.entries[index]? = some dirent)
    (refers : dirent.inum.toNat = i) (late : 2 ≤ index) (unused : node.nlink = 1 → i ∉ used) :
    Rooted (((vol.unlinked d i index dir node).release used d).release used i) n := by
  have tidy := rooted.toTidy
  have counted := rooted.toCounted.unlinked present isDirectory target apart there refers late
  have sums := Volume.referrers_unlinked (j := d) tidy present isDirectory
    target apart there refers late (tidy.inside present).1
  rw [if_neg apart] at sums
  have parent : vol.unlinked d i index dir node d =
      some (unlinkedNode dir node.type index) := by
    unfold Volume.unlinked
    rw [update_of_ne apart, update_self]
  have self : vol.unlinked d i index dir node i =
      some { node with nlink := node.nlink - 1 } :=
    update_self ..
  have others : ∀ x, x ≠ d → x ≠ i → vol.unlinked d i index dir node x = vol x := by
    intro x notParent notSelf
    unfold Volume.unlinked
    rw [update_of_ne notSelf, update_of_ne notParent]
  have notRoot : i ≠ rootino := by
    rintro rfl
    have child : 0 < dir.refers dirent.inum.toNat := by
      refine refers_pos.mpr ⟨dirent, ?_, rfl⟩
      unfold children
      rw [List.mem_iff_getElem?]
      exact ⟨index - 2, by
        rw [List.getElem?_drop, show 2 + (index - 2) = index by omega]
        exact there⟩
    have bound := refers_le_referrers (i := dirent.inum.toNat) (tidy.inside present).2 present
    rw [refers, tidy.top, ← refers] at bound
    omega
  -- the directory has a link of its own
  have parentLinked : (unlinkedNode dir node.type index).nlink ≠ 0 := by
    intro zero
    have links := counted.links parent
    rw [zero, show (0 : BitVec 16).toNat = 0 from rfl] at links
    rcases rooted.referred present with rfl | referred
    · rw [if_pos rfl] at links
      omega
    · omega
  rw [Volume.release_of_linked parent parentLinked]
  have reached : ∀ {volume' : Volume}, volume' d = some (unlinkedNode dir node.type index) →
      (∀ x, x ≠ d → x ≠ i → volume' x = vol x) →
      ∀ {x other}, vol x = some other → x ≠ i → Descends volume' x :=
    fun parent' others' x other here notSelf =>
      (rooted.descends here).unlinked tidy present isDirectory target vacant
        there refers late parent' others' notSelf
  by_cases last : node.nlink = 1
  · -- the last link: the inode is freed
    have zero : node.nlink - 1 = 0 := by
      rw [last]
      decide
    have freed : (vol.unlinked d i index dir node).release used i =
        update (vol.unlinked d i index dir node) i none := by
      unfold Volume.release
      rw [self]
      exact if_pos ⟨zero, unused last⟩
    rw [freed]
    have parent' : update (vol.unlinked d i index dir node) i
        none d = some (unlinkedNode dir node.type index) := by
      rw [update_of_ne apart]
      exact parent
    have others' : ∀ x, x ≠ d → x ≠ i → update (vol.unlinked d i index dir node) i none x =
          vol x := by
      intro x notParent notSelf
      rw [update_of_ne notSelf]
      exact others x notParent notSelf
    have cases' : ∀ {x other}, update (vol.unlinked d i index dir node) i none x =
          some other → x ≠ i ∧ (x = d ∧ other = unlinkedNode dir node.type index ∨
            vol x = some other) := by
      intro x other here
      have notSelf : x ≠ i := by
        rintro rfl
        rw [update_self] at here
        cases here
      refine ⟨notSelf, ?_⟩
      by_cases same : x = d
      · subst same
        rw [parent'] at here
        exact .inl ⟨rfl, (Option.some.inj here).symm⟩
      · rw [others' x same notSelf] at here
        exact .inr here
    refine ⟨counted.freed self zero vacant, ?_, ?_⟩
    · intro x other here
      rcases (cases' here).2 with ⟨rfl, rfl⟩ | old
      · exact parentLinked
      · exact rooted.linked old
    · intro x other here
      obtain ⟨notSelf, ⟨rfl, rfl⟩ | old⟩ := cases' here
      · exact reached parent' others' present notSelf
      · exact reached parent' others' old notSelf
  · -- another link is left
    have stays : node.nlink - 1 ≠ 0 := fun zero => last (by bv_omega)
    rw [Volume.release_of_linked self stays]
    refine ⟨counted, ?_, ?_⟩
    · intro x other here
      rcases update_update_eq here with ⟨rfl, new⟩ | ⟨-, rfl, new⟩ |
        ⟨-, -, old⟩
      · cases new
        exact stays
      · cases new
        exact parentLinked
      · exact rooted.linked old
    · intro x other here
      by_cases same : x = i
      · subst same
        have links := counted.links self
        have none : (vol.unlinked d x index dir node).subdirectories
            { node with nlink := node.nlink - 1 } = 0 :=
          counted.toTidy.subdirectories_of_vacant vacant
        rw [none, if_neg notRoot] at links
        have left : 0 < (vol.unlinked d x index dir node).referrers n x := by
          have positive : (node.nlink - 1).toNat ≠ 0 := fun zero =>
            stays (BitVec.toNat_inj.mp zero)
          have same : (node.nlink - 1).toNat = _ := links
          omega
        obtain ⟨y, -, above, aboveThere, child⟩ := exists_refers left
        have number := (tidy.inside target).1
        have through : y ≠ x := by
          rintro rfl
          cases self.symm.trans aboveThere
          have childless : Node.refers { node with nlink := node.nlink - 1 } y =
            0 := refers_of_vacant vacant number
          exact Nat.ne_of_gt child childless
        refine .child ?_ aboveThere number child
        rcases update_update_eq aboveThere with ⟨rfl, -⟩ | ⟨-, rfl, -⟩ |
          ⟨-, -, old⟩
        · exact absurd rfl through
        · exact reached parent others present through
        · exact reached parent others old through
      · rcases update_update_eq here with ⟨rfl, new⟩ | ⟨-, rfl, new⟩ |
          ⟨-, -, old⟩
        · exact absurd rfl same
        · exact reached parent others present same
        · exact reached parent others old same

end Rooted

end Xv6.Fs
