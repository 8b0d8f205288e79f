import Xv6.Fs.FailedCalls

/-!
# Resolving paths element by element

What `namei` and `nameiparent` return, in terms of the elements of a path: its
parts between slashes that are not empty, cut to `DIRSIZ` characters.  An inode
is found by looking up the elements in turn.
-/

namespace Xv6.Fs

open List Foundation.Program

/-! ## The elements of a path -/

/-- The elements of a path. -/
def elements (path : List Byte) : List (List Byte) :=
  ((path.splitOn slash).filter fun part => !part.isEmpty).map (·.take dirsiz)

theorem elements_nil : elements [] = [] :=
  rfl

theorem elements_slash (path : List Byte) : elements (slash :: path) = elements path := by
  unfold elements List.splitOn
  have first := @splitOnP_append_cons_of_forall_mem _
    (fun byte : Byte => byte == slash) [] (fun _ member => by cases member)
    slash rfl path
  rw [nil_append] at first
  rw [first, filter_cons_of_neg (by simp)]

/-- The first element, when it is not the last part of the path. -/
theorem elements_append {part : List Byte} (some : part ≠ [])
    (within : ∀ byte ∈ part, (byte == slash) = false) (path : List Byte) :
    elements (part ++ slash :: path) = part.take dirsiz :: elements path := by
  unfold elements List.splitOn
  rw [splitOnP_append_cons_of_forall_mem within slash rfl,
    filter_cons_of_pos (by simp [some]), map_cons]

theorem elements_part {part : List Byte} (some : part ≠ [])
    (within : ∀ byte ∈ part, (byte == slash) = false) : elements part = [part.take dirsiz] := by
  unfold elements List.splitOn
  rw [splitOnP_eq_singleton within, filter_cons_of_pos (by simp [some])]
  rfl

theorem elements_dropWhile (path : List Byte) :
    elements (path.dropWhile (· = slash)) = elements path := by
  induction path with
  | nil => rfl
  | cons byte path ih =>
    by_cases same : byte = slash
    · rw [dropWhile_cons_of_pos (by simp [same]), ih, same, elements_slash]
    · rw [dropWhile_cons_of_neg (by simpa using same)]

theorem head_of_dropWhile {stops : Byte → Bool} {path rest : List Byte} {byte : Byte}
    (dropped : path.dropWhile stops = byte :: rest) : stops byte = false := by
  have stopped := head_dropWhile_not stops (show path.dropWhile stops ≠ [] by simp [dropped])
  simpa [dropped] using stopped

/-- The first element of a path that does not start with a slash. -/
theorem elements_cons {byte : Byte} (other : byte ≠ slash) (path : List Byte) :
    elements (byte :: path) = ((byte :: path).takeWhile (· ≠ slash)).take dirsiz ::
        elements (((byte :: path).dropWhile (· ≠ slash)).dropWhile (· = slash)) := by
  have some : (byte :: path).takeWhile (· ≠ slash) ≠ [] := by
    rw [takeWhile_cons_of_pos (by simpa using other)]
    exact cons_ne_nil _ _
  have within : ∀ byte' ∈ (byte :: path).takeWhile (· ≠ slash), (byte' == slash) = false := by
    intro byte' member
    have holds := all_eq_true.mp all_takeWhile byte' member
    exact beq_eq_false_iff_ne.mpr (of_decide_eq_true holds)
  have parts := @takeWhile_append_dropWhile _ (· ≠ slash) (byte :: path)
  rw [elements_dropWhile]
  cases after : (byte :: path).dropWhile (· ≠ slash) with
  | nil =>
    rw [after, append_nil] at parts
    nth_rewrite 1 [← parts]
    rw [elements_part some within, elements_nil]
  | cons first rest =>
    have stopped : first = slash := not_not.mp (of_decide_eq_false (head_of_dropWhile after))
    rw [after, stopped] at parts
    rw [stopped, elements_slash]
    nth_rewrite 1 [← parts]
    exact elements_append some within rest

/-- A path without a leading slash has elements unless it is empty. -/
theorem elements_trimmed_eq_nil (path : List Byte) : path.dropWhile (· = slash) = [] ↔
      elements (path.dropWhile (· = slash)) = [] := by
  constructor
  · intro empty
    rw [empty, elements_nil]
  · intro none
    cases trimmed : path.dropWhile (· = slash) with
    | nil => rfl
    | cons byte rest =>
      have other : byte ≠ slash := of_decide_eq_false (head_of_dropWhile trimmed)
      rw [trimmed, elements_cons other] at none
      cases none

theorem skipelem_eq (path : List Byte) : (skipelem path = none ∧ elements path = []) ∨
      ∃ name rest, skipelem path = some (name, rest) ∧ elements path = name :: elements rest ∧
        (rest = [] ↔ elements rest = []) := by
  unfold skipelem
  dsimp only
  rw [← elements_dropWhile path]
  cases trimmed : path.dropWhile (· = slash) with
  | nil => exact .inl ⟨rfl, rfl⟩
  | cons byte rest =>
    have other : byte ≠ slash := of_decide_eq_false (head_of_dropWhile trimmed)
    rw [if_neg (cons_ne_nil _ _)]
    exact .inr ⟨_, _, rfl, elements_cons other rest, elements_trimmed_eq_nil _⟩

/-! ## Looking up in turn -/

/-- Look up an element in an inode, which must be a directory. -/
def lookInto (vol : Volume) (inum : Nat) (element : List Byte) : Option Nat :=
  match vol inum with
  | none => none
  | some node =>
    if node.type = tDir then (lookup node.entries element).map Prod.fst
    else none

/-- Look up elements in turn. -/
def resolve (vol : Volume) (start : Nat) (path : List (List Byte)) : Option Nat :=
  path.foldlM (lookInto vol) start

/-- The inode is a directory. -/
def isDirectory (vol : Volume) (inum : Nat) : Bool :=
  match vol inum with
  | none => false
  | some node => node.type = tDir

/-- The directory of the last element, and that element. -/
def resolveParent (vol : Volume) (start : Nat) (path : List (List Byte)) :
    Option (Nat × List Byte) :=
  match path.getLast? with
  | none => none
  | some last =>
    (resolve vol start path.dropLast).bind fun inum =>
      if isDirectory vol inum then some (inum, last) else none

/-- Every inode that is looked into is allocated, and the cache has an entry
for every inode that is found. -/
def Passable (vol : Volume) (used : Finset Nat) (parent : Bool) : Nat → List (List Byte) → Prop
  | _, [] => True
  | inum, element :: rest =>
    vol inum ≠ none ∧
      (¬ (parent = true ∧ rest = []) → ∀ next, lookInto vol inum element = some next →
          Room (insert next (insert inum used)) ∧ Passable vol used parent next rest)

/-- What `namex` returns for the elements of a path. -/
def answer (vol : Volume) (parent : Bool) (start : Nat)
    (path : List (List Byte)) (name : List Byte) : Option (Nat × List Byte) :=
  if parent then resolveParent vol start path
  else (resolve vol start path).map fun inum => (inum, path.getLastD name)

section Resolve

variable {vol : Volume} {used : Finset Nat} {parent : Bool}
variable {inum next : Nat} {element name : List Byte} {rest : List (List Byte)}

theorem resolve_cons (vol : Volume) (inum : Nat) (element : List Byte) (rest : List (List Byte)) :
    resolve vol inum (element :: rest) =
      (lookInto vol inum element).bind (resolve vol · rest) :=
  foldlM_cons ..

/-- Nothing is found where an element is not found. -/
theorem answer_none (missing : lookInto vol inum element = none)
    (further : ¬ (parent = true ∧ rest = []) ∨ isDirectory vol inum = false) :
    answer vol parent inum (element :: rest) name = none := by
  unfold answer resolveParent
  split
  case isFalse =>
    rw [resolve_cons, missing]
    rfl
  case isTrue isParent =>
    rw [getLast?_cons]
    dsimp only
    cases rest with
    | nil =>
      rcases further with more | other
      · exact absurd ⟨isParent, rfl⟩ more
      · change (if isDirectory vol inum then _ else none) = none
        rw [other]
        rfl
    | cons second rest =>
      rw [dropLast_cons_cons, resolve_cons, missing]
      rfl

/-- The rest of the walk. -/
theorem answer_cons (found : lookInto vol inum element = some next)
    (further : ¬ (parent = true ∧ rest = [])) :
    answer vol parent inum (element :: rest) name = answer vol parent next rest element := by
  unfold answer
  split
  case isFalse =>
    rw [resolve_cons, found, Option.bind_some]
    congr 1
    funext inum
    rw [getLastD_cons]
  case isTrue isParent =>
    cases rest with
    | nil => exact absurd ⟨isParent, rfl⟩ further
    | cons second rest =>
      unfold resolveParent
      rw [getLast?_cons_cons, dropLast_cons_cons, resolve_cons, found, Option.bind_some]

/-- Walking a path is looking up its elements, unless the walk meets a free
inode or the cache is full. -/
theorem walkFrom_eq {fuel : Nat} {path : List Byte} (enough : path.length < fuel) :
    (Passable vol used parent inum (elements path) → walkFrom vol used parent fuel path inum name =
        .ok (answer vol parent inum (elements path) name)) ∧
    (¬ Passable vol used parent inum (elements path) →
      ∃ reason, walkFrom vol used parent fuel path inum name = .error reason) := by
  induction fuel generalizing path inum name with
  | zero => exact absurd enough (Nat.not_lt_zero _)
  | succ fuel ih =>
    unfold walkFrom
    rcases skipelem_eq path with ⟨none, empty⟩ |
      ⟨element, rest, first, whole, last⟩
    · rw [none, empty]
      refine ⟨fun _ => ?_, fun stuck => absurd trivial stuck⟩
      cases parent with
      | false => rfl
      | true => rfl
    · have shorter : rest.length < fuel := by
        have := length_skipelem first
        omega
      rw [first, whole]
      unfold Passable
      dsimp only
      cases present : vol inum with
      | none => exact ⟨fun pass => absurd rfl pass.1, fun _ => ⟨_, rfl⟩⟩
      | some node =>
        dsimp only
        have looks : lookInto vol inum element =
            if node.type = tDir then
              (lookup node.entries element).map Prod.fst
            else none := by
          unfold lookInto
          rw [present]
        have dir : isDirectory vol inum = decide (node.type = tDir) := by
          unfold isDirectory
          rw [present]
        by_cases kind : node.type = tDir
        case neg =>
          rw [if_neg kind] at looks
          rw [if_pos kind, looks]
          refine ⟨fun _ => ?_, fun stuck => absurd
            ⟨(by simp), fun _ next found => (by cases found)⟩ stuck⟩
          rw [answer_none looks (.inr (dir.trans (decide_eq_false kind)))]
        rw [if_pos kind] at looks
        rw [if_neg (not_not.mpr kind)]
        by_cases stop : parent = true ∧ rest = []
        · rw [if_pos stop]
          refine ⟨fun _ => ?_, fun stuck => absurd ⟨(by simp), fun more => absurd
              ⟨stop.1, last.mp stop.2⟩ more⟩ stuck⟩
          unfold answer resolveParent
          rw [if_pos stop.1, last.mp stop.2]
          change _ = Except.ok (if isDirectory vol inum then some (inum, element) else none)
          rw [dir, decide_eq_true kind, if_pos rfl]
        have more : ¬ (parent = true ∧ elements rest = []) :=
          fun both => stop ⟨both.1, last.mpr both.2⟩
        rw [if_neg stop]
        cases found : lookup node.entries element with
        | none =>
          rw [found] at looks
          dsimp only
          rw [answer_none looks (.inl more), looks]
          exact ⟨fun _ => rfl, fun stuck => absurd
            ⟨(by simp), fun _ next here => (by cases here)⟩ stuck⟩
        | some pair =>
          obtain ⟨next, index⟩ := pair
          rw [found] at looks
          have looks : lookInto vol inum element = some next := looks
          dsimp only
          rw [answer_cons looks more, looks]
          by_cases room : Room (insert next (insert inum used))
          · rw [if_pos room]
            obtain ⟨pass, stuck⟩ := @ih next element rest shorter
            refine ⟨fun way => pass (way.2 more next rfl).2,
              fun blocked => stuck fun way => blocked ?_⟩
            refine ⟨(by simp), fun _ other same => ?_⟩
            cases same
            exact ⟨room, way⟩
          · rw [if_neg room]
            exact ⟨fun way => absurd (way.2 more next rfl).1 room,
              fun _ => ⟨_, rfl⟩⟩

/-- The last element is looked up in the directory of the path. -/
theorem resolve_eq_some_iff {start : Nat} {path : List (List Byte)} (some : path ≠ []) :
    resolve vol start path = Option.some inum ↔
      ∃ dir last, resolveParent vol start path = Option.some (dir, last) ∧
        lookInto vol dir last = Option.some inum := by
  have parts : path.dropLast ++ [path.getLast some] = path := dropLast_append_getLast some
  have looked : ∀ dir, (lookInto vol dir
      (path.getLast some)).isSome → isDirectory vol dir = true := by
    intro dir found
    unfold lookInto at found
    unfold isDirectory
    cases present : vol dir with
    | none =>
      rw [present] at found
      cases found
    | some node =>
      rw [present] at found
      dsimp only at found
      split at found
      case isTrue kind => exact decide_eq_true kind
      case isFalse => cases found
  have whole : resolve vol start path =
      (resolve vol start path.dropLast).bind fun dir =>
        lookInto vol dir (path.getLast some) := by
    nth_rewrite 1 [← parts]
    unfold resolve
    rw [foldlM_append]
    congr 1
    funext dir
    rw [foldlM_cons]
    cases lookInto vol dir (path.getLast some) with
    | none => rfl
    | some next => rfl
  unfold resolveParent
  rw [whole, getLast?_eq_getLast_of_ne_nil some]
  dsimp only
  rw [Option.bind_eq_some_iff]
  constructor
  · rintro ⟨dir, reached, found⟩
    refine ⟨dir, path.getLast some, ?_, found⟩
    rw [reached, Option.bind_some, if_pos (looked dir (by rw [found]; rfl))]
  · rintro ⟨dir, last, reached, found⟩
    obtain ⟨between, here, same⟩ := Option.bind_eq_some_iff.mp reached
    split at same
    case isTrue =>
      cases same
      exact ⟨dir, here, found⟩
    case isFalse => cases same

end Resolve

/-! ## `namei` and `nameiparent` -/

/-- The inode at which a path starts. -/
def Kernel.origin (os : Kernel) (path : List Byte) : Nat :=
  if path.head? = some slash then rootino else os.inum os.cwd

/-- The walk meets no free inode and finds entries in the cache. -/
def Clear (os : Kernel) (path : List Byte) (parent : Bool) : Prop :=
  (path.head? = some slash → Room (insert rootino (os.used os.refs))) ∧
  Passable os.store.volume (os.used os.refs) parent (os.origin path) (elements path)

/-- `namei` returns the inode that looking up the elements in turn finds. -/
def NameiCorrect (os : Kernel) (path : List Byte) : Prop :=
  ∃ result next, namei path os = .ok (result, next) ∧ next.store = os.store ∧
    result.map next.inum = resolve os.store.volume (os.origin path) (elements path)

/-- `nameiparent` returns the directory of the last element, and that
element. -/
def NameiparentCorrect (os : Kernel) (path : List Byte) : Prop :=
  ∃ result next, nameiparent path os = .ok (result, next) ∧ next.store = os.store ∧
    (result.map fun found => (next.inum found.1, found.2)) =
      resolveParent os.store.volume (os.origin path) (elements path)

section Namei

variable {os : Kernel} {path : List Byte} {parent : Bool}

theorem walk_eq (os : Kernel) (path : List Byte) (parent : Bool) :
    (Clear os path parent → walk os.store.volume (os.used os.refs) (os.inum os.cwd) path parent =
        .ok (answer os.store.volume parent (os.origin path) (elements path) [])) ∧
    (¬ Clear os path parent → ∃ reason, walk os.store.volume (os.used os.refs)
        (os.inum os.cwd) path parent = .error reason) := by
  unfold Clear walk Kernel.origin
  by_cases absolute : path.head? = some slash
  · rw [if_pos absolute, if_pos absolute]
    obtain ⟨pass, stuck⟩ := @walkFrom_eq os.store.volume
      (os.used os.refs) parent rootino [] _ path (Nat.lt_succ_self _)
    by_cases room : Room (insert rootino (os.used os.refs))
    · rw [if_pos room]
      exact ⟨fun clear => pass clear.2,
        fun blocked => stuck fun way => blocked ⟨fun _ => room, way⟩⟩
    · rw [if_neg room]
      exact ⟨fun clear => absurd (clear.1 absolute) room,
        fun _ => ⟨_, rfl⟩⟩
  · rw [if_neg absolute, if_neg absolute]
    obtain ⟨pass, stuck⟩ := @walkFrom_eq os.store.volume
      (os.used os.refs) parent (os.inum os.cwd) [] _ path
      (Nat.lt_succ_self _)
    exact ⟨fun clear => pass clear.2, fun blocked => stuck fun way =>
      blocked ⟨fun slash => absurd slash absolute, way⟩⟩

section

variable (quiet : Quiet os) (current : 0 < os.refs os.cwd)
include quiet current

/-- `namex` returns what the walk finds, or stops where it does. -/
theorem namex_walk (path : List Byte) (parent : Bool) :
    wp (namex path parent) (fun result next => next.store = os.store ∧
        walk os.store.volume (os.used os.refs) (os.inum os.cwd) path parent =
          .ok (result.map fun found => (next.inum found.1, found.2)))
      (fun reason => walk os.store.volume (os.used os.refs)
        (os.inum os.cwd) path parent = .error reason) os := by
  refine wp_mono (namex_spec quiet.sound quiet.cached rfl (fun _ => current)
    (fun jp => Waits.of_free (quiet.unlocked jp))
    (fun lost => absurd quiet.retained lost)
    fun _ _ walked => walked quiet.retained) ?_ fun _ => id
  intro result next resolved
  cases result with
  | none =>
    obtain ⟨visit, walked⟩ := resolved
    exact ⟨visit.store quiet.retained, walked quiet.retained⟩
  | some found =>
    obtain ⟨visit, walked, -⟩ := resolved
    exact ⟨visit.store quiet.retained, walked quiet.retained⟩

theorem clear_of_namex {result : Option (Slot × List Byte)} {next : Kernel}
    (returned : namex path parent os = .ok (result, next)) : Clear os path parent := by
  have ran := namex_walk quiet current path parent
  rw [wp_of_ok returned] at ran
  by_contra blocked
  obtain ⟨reason, stopped⟩ := (walk_eq os path parent).2 blocked
  rw [ran.2] at stopped
  cases stopped

theorem namex_of_clear (clear : Clear os path parent) :
    ∃ result next, namex path parent os = .ok (result, next) ∧ next.store = os.store ∧
      (result.map fun found => (next.inum found.1, found.2)) =
        answer os.store.volume parent (os.origin path) (elements path) [] := by
  have ran := namex_walk quiet current path parent
  rw [(walk_eq os path parent).1 clear] at ran
  obtain ⟨result, next, returned, same, walked⟩ := ok_of_wp ran
    fun reason stopped => (by cases stopped)
  exact ⟨result, next, returned, same, (Except.ok.inj walked).symm⟩

end

/-- Looking up the elements of a path in turn is what `namei` and `nameiparent`
do, exactly as long as they meet no free inode and the cache has room: then they
panic.  A path with elements is resolved by looking up the last one in the
directory that `nameiparent` finds. -/
theorem path_resolution_iff (quiet : Quiet os) (current : 0 < os.refs os.cwd) (path : List Byte) :
    (NameiCorrect os path ↔ Clear os path false) ∧
      (NameiparentCorrect os path ↔ Clear os path true) ∧
      (elements path ≠ [] → ∀ inum,
        resolve os.store.volume (os.origin path) (elements path) = some inum ↔
          ∃ dir last, resolveParent os.store.volume
              (os.origin path) (elements path) = some (dir, last) ∧
            lookInto os.store.volume dir last = some inum) := by
  refine ⟨⟨?_, fun clear => ?_⟩, ⟨?_, fun clear => ?_⟩,
    fun some inum => resolve_eq_some_iff some⟩
  · rintro ⟨result, next, returned, -⟩
    cases inner : namex path false os with
    | error reason =>
      have failed : namei path os = .error reason := by
        unfold namei
        change (namex path false os).bind _ = _
        rw [inner]
        rfl
      rw [failed] at returned
      cases returned
    | ok pair => exact clear_of_namex quiet current inner
  · obtain ⟨result, next, returned, same, found⟩ := namex_of_clear quiet current clear
    refine ⟨result.map Prod.fst, next, (bind_of_ok returned _).trans rfl, same, ?_⟩
    have inums := congrArg (Option.map Prod.fst) found
    unfold answer at inums
    rw [if_neg Bool.false_ne_true, Option.map_map, Option.map_map] at inums
    rw [Option.map_map]
    exact inums.trans (congrFun Option.map_id _)
  · rintro ⟨result, next, returned, -⟩
    exact clear_of_namex quiet current returned
  · exact namex_of_clear quiet current clear

end Namei

/-! ## Two walks -/

/-- The path `/.`. -/
abbrev rootDot : List Byte := [slash, 0x2e]

theorem path_resolution_root : NameiCorrect (boot emptyStore fun _ => none) rootDot ∧
      NameiparentCorrect (boot emptyStore fun _ => none) rootDot := by
  have looked : lookInto (boot emptyStore fun _ => none).store.volume rootino
      dot = some rootino := by
    decide +kernel
  have present : (boot emptyStore fun _ => none).store.volume rootino ≠ none := by
    intro none
    unfold lookInto at looked
    rw [none] at looked
    cases looked
  have path : elements rootDot = [dot] := by
    decide +kernel
  have clear : ∀ parent, Clear (boot emptyStore fun _ => none) rootDot parent := by
    intro parent
    refine ⟨fun _ => by decide +kernel, ?_⟩
    rw [path]
    refine ⟨present, fun _ next found => ?_⟩
    change lookInto _ rootino dot = _ at found
    rw [looked] at found
    cases found
    exact ⟨by decide +kernel, trivial⟩
  obtain ⟨namei, nameiparent, -⟩ := path_resolution_iff quiet_emptyStore (by decide) rootDot
  exact ⟨namei.mpr (clear false), nameiparent.mpr (clear true)⟩

/-- A process makes the directories `/a` and `/a/b`, goes into the second, and
removes both. -/
def removeParent : KernelM (List Int) := do
  let first ← sysMkdir (some [slash, 0x61])
  let second ← sysMkdir (some [slash, 0x61, slash, 0x62])
  let third ← sysChdir (some [slash, 0x61, slash, 0x62])
  let fourth ← sysUnlink (some [slash, 0x61, slash, 0x62])
  let fifth ← sysUnlink (some [slash, 0x61])
  return [first, second, third, fourth, fifth]

/-- The path `../x`. -/
abbrev parentPath : List Byte := [0x2e, 0x2e, slash, 0x78]

/-- The calls succeed, and then `namei("../x")` panics because the directory
that `..` refers to is free. -/
theorem namei_removed_parent : ∃ os, removeParent (boot emptyStore fun _ => none) =
        .ok ([0, 0, 0, 0, 0], os) ∧
      resolve os.store.volume (os.origin parentPath) (elements parentPath) = none ∧
      namei parentPath os = .error (.panic "ilock: no type") ∧
      ¬ NameiCorrect os parentPath := by
  have seen : (match removeParent (boot emptyStore fun _ => none) with
      | .error _ => none
      | .ok (results, os) =>
          match namei parentPath os with
          | .ok _ => none
          | .error stop => some (results, stop,
              resolve os.store.volume (os.origin parentPath) (elements parentPath))) =
        some ([0, 0, 0, 0, 0], .panic "ilock: no type", none) := by
    decide +kernel
  split at seen
  case h_1 => cases seen
  case h_2 results os made =>
    split at seen
    case h_1 => cases seen
    case h_2 stop stopped =>
      rw [Option.some.injEq, Prod.mk.injEq, Prod.mk.injEq] at seen
      obtain ⟨rfl, rfl, resolved⟩ := seen
      refine ⟨os, made, resolved, stopped, ?_⟩
      rintro ⟨result, next, returned, -⟩
      rw [stopped] at returned
      cases returned

end Xv6.Fs
