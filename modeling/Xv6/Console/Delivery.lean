import Xv6.Console.LineDiscipline

/-!
# Committed input is delivered

The buffer follows the abstract editor through every interleaving of input and
readers: the readers get the committed characters in order, each once, and a
`^D` ends one read without data.
-/

namespace Xv6.Console

open List Function Foundation.Monitor
open Foundation (Ring)
open Foundation.Transition (run)
open Editor (waiting)

variable {Process : Type}

/-- The characters in the buffer, committed or not. -/
def Input.ring (input : Input Process) : Ring Byte 32 inputBuf :=
  ⟨input.buf, input.r, input.e⟩

/-- The buffer holds what is committed and not taken, and then the line. -/
structure Buffered (input : Input Process) (editor : Editor) : Prop where
  contents : input.ring.contents = editor.committed.drop editor.taken ++ editor.line
  write : input.w = input.r + BitVec.ofNat 32 (editor.committed.length - editor.taken)
  within : editor.taken ≤ editor.committed.length
  bound : editor.waiting ≤ inputBuf
  line : newline ∉ editor.line

variable {input : Input Process}

section Buffered

variable {editor : Editor}

theorem Buffered.count (buffered : Buffered input editor) : input.ring.count = editor.waiting := by
  rw [← Ring.length_contents, buffered.contents, length_append, length_drop]
  rfl

/-- The distance of the indices. -/
theorem Buffered.edit (buffered : Buffered input editor) :
    input.e = input.r + BitVec.ofNat 32 editor.waiting := by
  have apart := input.ring.nwrite_eq
  rwa [buffered.count] at apart

theorem ofNat_inj {first second : Nat} (small : first < 2 ^ 32) (small' : second < 2 ^ 32)
    (equal : BitVec.ofNat 32 first = BitVec.ofNat 32 second) : first = second := by
  have same := congrArg BitVec.toNat equal
  rwa [BitVec.toNat_ofNat, BitVec.toNat_ofNat, Nat.mod_eq_of_lt small,
    Nat.mod_eq_of_lt small'] at same

theorem Buffered.small (buffered : Buffered input editor) :
    editor.committed.length - editor.taken < 2 ^ 32 ∧ editor.waiting < 2 ^ 32 := by
  have bound := buffered.bound
  unfold waiting at bound ⊢
  simp only [inputBuf] at bound
  omega

/-- Nothing can be taken back exactly if the indices are the same. -/
theorem Buffered.edit_eq_write (buffered : Buffered input editor) :
    input.e = input.w ↔ editor.line = [] := by
  rw [buffered.edit, buffered.write]
  constructor
  · intro same
    have equal := ofNat_inj buffered.small.2 buffered.small.1 (add_left_cancel same)
    unfold waiting at equal
    exact length_eq_zero_iff.mp (by omega)
  · intro none
    unfold waiting
    rw [none, length_nil, Nat.add_zero]

/-- There is nothing to read exactly if the indices are the same. -/
theorem Buffered.read_eq_write (buffered : Buffered input editor) :
    input.r = input.w ↔ editor.committed.length = editor.taken := by
  have within := buffered.within
  rw [buffered.write]
  constructor
  · intro same
    have zero : BitVec.ofNat 32 0 = BitVec.ofNat 32 (editor.committed.length - editor.taken) := by
      have back : input.r + 0 = input.r +
          BitVec.ofNat 32 (editor.committed.length - editor.taken) := by
        rw [add_zero]
        exact same
      exact add_left_cancel back
    have equal := ofNat_inj (by decide) buffered.small.1 zero
    omega
  · intro none
    rw [none, Nat.sub_self]
    exact (BitVec.add_zero _).symm

variable {history : List Event}

/-- Characters are taken back up to a length of the line. -/
theorem Buffered.shorten {kept : Nat} (buffered : Buffered input editor)
    (fewer : kept ≤ editor.line.length) :
    Buffered { input with
        e := input.r + BitVec.ofNat 32 (editor.committed.length - editor.taken + kept)
        history := history }
      { editor with line := editor.line.take kept } where
  contents := by
    have counted := buffered.count
    unfold waiting at counted
    refine (@Ring.contents_take _ _ _ _ input.ring (editor.committed.length - editor.taken + kept)
      (by rw [counted]; omega)).trans ?_
    rw [buffered.contents, take_append, length_drop, Nat.add_sub_cancel_left,
      take_of_length_le (by rw [length_drop]; omega)]
  write := buffered.write
  within := buffered.within
  bound := by
    have bound := buffered.bound
    unfold waiting at bound
    change editor.committed.length - editor.taken + (editor.line.take kept).length ≤ inputBuf
    rw [length_take]
    omega
  line := fun member => buffered.line (mem_of_mem_take member)

/-- `^U` goes back to the last committed character. -/
theorem killLine_eq {buf : Fin inputBuf → Byte} {w : BitVec 32} {count : Nat}
    (small : count < 2 ^ 32)
    (plain : ∀ offset < count, buf (Ring.cell (w + BitVec.ofNat 32 offset)) ≠ newline) :
    Input.killLine buf w count (w + BitVec.ofNat 32 count) = w := by
  induction count with
  | zero => exact BitVec.add_zero w
  | succ count ih =>
    have back : w + BitVec.ofNat 32 (count + 1) - 1 = w + BitVec.ofNat 32 count := by
      rw [BitVec.ofNat_add, ← add_assoc]
      exact add_sub_cancel_right _ _
    have apart : w + BitVec.ofNat 32 (count + 1) ≠ w := by
      intro same
      have zero : w + BitVec.ofNat 32 (count + 1) = w + BitVec.ofNat 32 0 :=
        same.trans (BitVec.add_zero w).symm
      have impossible := ofNat_inj small (by decide) (add_left_cancel zero)
      omega
    unfold Input.killLine
    rw [back, if_pos ⟨apart, plain count (Nat.lt_succ_self count)⟩]
    exact ih (by omega) fun offset inside => plain offset (by omega)

/-- The characters of the line are in the cells after the write index. -/
theorem Buffered.line_cell {offset : Nat} (buffered : Buffered input editor)
    (inside : offset < editor.line.length) :
    input.buf (Ring.cell (input.w + BitVec.ofNat 32 offset)) ≠ newline := by
  have counted := buffered.count
  unfold waiting at counted
  have there := @Ring.getElem?_contents _ _ _ _ input.ring
    (editor.committed.length - editor.taken + offset) (by rw [counted]; omega)
  rw [buffered.contents, getElem?_append_right (by
    rw [length_drop]
    omega), length_drop, Nat.add_sub_cancel_left] at there
  rw [buffered.write, add_assoc, ← BitVec.ofNat_add]
  intro bad
  have member := mem_of_getElem? there
  change input.buf (Ring.cell (input.r + _)) ∈ _ at member
  rw [bad] at member
  exact buffered.line member

theorem Buffered.key_kill (buffered : Buffered input editor) :
    Buffered { input with
        e := Input.killLine input.buf input.w (input.e - input.w).toNat input.e
        history := history }
      { editor with line := [] } := by
  have small := buffered.small
  have same : input.e = input.w + BitVec.ofNat 32 editor.line.length := by
    rw [buffered.edit, buffered.write, add_assoc, ← BitVec.ofNat_add]
    rfl
  have fuel : (input.e - input.w).toNat = editor.line.length := by
    rw [same, add_sub_cancel_left, BitVec.toNat_ofNat]
    refine Nat.mod_eq_of_lt ?_
    unfold waiting at small
    omega
  have short : Buffered { input with e := _, history := history }
      { editor with line := _ } :=
    buffered.shorten (Nat.zero_le editor.line.length)
  rw [take_zero, Nat.add_zero, ← buffered.write] at short
  rw [fuel, same, killLine_eq (by unfold waiting at small; omega)
    fun offset inside => buffered.line_cell inside]
  exact short

/-- A backspace takes the last character of the line back. -/
theorem Buffered.key_back (buffered : Buffered input editor) :
    Buffered { input with
        e := if input.e ≠ input.w then input.e - 1 else input.e
        history := history }
      { editor with line := editor.line.dropLast } := by
  have short : Buffered { input with e := _, history := history }
      { editor with line := _ } :=
    buffered.shorten (Nat.sub_le editor.line.length 1)
  rw [← dropLast_eq_take] at short
  have same : (if input.e ≠ input.w then input.e - 1 else input.e) =
      input.r + BitVec.ofNat 32 (editor.committed.length - editor.taken +
        (editor.line.length - 1)) := by
    by_cases none : editor.line = []
    · rw [if_neg (not_not.mpr (buffered.edit_eq_write.mpr none)), buffered.edit]
      unfold waiting
      rw [none]
      rfl
    · have positive := length_pos_iff.mpr none
      rw [if_pos (mt buffered.edit_eq_write.mp none), buffered.edit]
      unfold waiting
      rw [show editor.committed.length - editor.taken + editor.line.length =
          editor.committed.length - editor.taken + (editor.line.length - 1) + 1
        by omega, BitVec.ofNat_add _ 1, ← add_assoc]
      exact add_sub_cancel_right _ _
  rw [same]
  exact short

theorem divides_inputBuf : inputBuf ∣ 2 ^ 32 := by decide

theorem inputBuf_small : inputBuf < 2 ^ 32 := by decide

section

variable (buffered : Buffered input editor)
include buffered

theorem Buffered.key_store {c : Byte} (room : editor.waiting < inputBuf) :
    Buffered { (input.store c).1 with history := history } (editor.add c) := by
  have counted := buffered.count
  have within := buffered.within
  have pushed : (input.ring.push c).contents =
      editor.committed.drop editor.taken ++ (editor.line ++ [c]) := by
    rw [Ring.contents_push divides_inputBuf inputBuf_small c
      (by rw [counted]; exact room), buffered.contents, append_assoc]
  have more : (input.ring.push c).count = editor.waiting + 1 := by
    rw [Ring.count_push c (by
      rw [counted]
      exact lt_of_le_of_lt room inputBuf_small), counted]
  have full : input.e + 1 = input.r + BitVec.ofNat 32 inputBuf ↔ editor.waiting + 1 = inputBuf := by
    rw [← more]
    exact (Ring.full_iff inputBuf_small :
      (input.ring.push c).Full ↔ (input.ring.push c).count = inputBuf)
  have edit : input.e + 1 = input.r + BitVec.ofNat 32 (editor.waiting + 1) := by
    have apart := (input.ring.push c).nwrite_eq
    rwa [more] at apart
  unfold Input.store Editor.add
  simp only [full]
  by_cases ends : c = newline ∨ c = ctrlD ∨ editor.waiting + 1 = inputBuf
  · rw [if_pos ends, if_pos ends]
    refine ⟨?_, ?_, ?_, ?_, not_mem_nil⟩
    · refine pushed.trans ?_
      rw [append_nil, drop_append_of_le_length within]
    · refine edit.trans ?_
      unfold waiting
      simp only [length_append, length_singleton]
      congr 2
      omega
    · simp only [length_append]
      omega
    · unfold waiting at room ⊢
      simp only [length_append, length_singleton, length_nil]
      omega
  · rw [if_neg ends, if_neg ends]
    refine ⟨pushed, buffered.write, within, ?_, ?_⟩
    · unfold waiting at room ⊢
      simp only [length_append, length_singleton]
      omega
    · intro member
      rcases mem_append.mp member with old | new
      · exact buffered.line old
      · exact ends (.inl (mem_singleton.mp new).symm)

/-- The buffer follows the editor when a character is typed. -/
theorem Buffered.typed {c : Byte} : Buffered (input.typed c).1 (editor.key c) := by
  have count : (input.e - input.r).toNat = editor.waiting := buffered.count
  have same : Buffered { input with history := input.history ++ [.key c] } editor :=
    ⟨buffered.contents, buffered.write, buffered.within, buffered.bound, buffered.line⟩
  unfold Input.typed Input.handle Editor.key
  simp only [count]
  by_cases listing : c = ctrlP
  · rw [if_pos listing, if_pos listing]
    exact same
  rw [if_neg listing, if_neg listing]
  by_cases kill : c = ctrlU
  · rw [if_pos kill, if_pos kill]
    exact buffered.key_kill
  rw [if_neg kill, if_neg kill]
  by_cases back : c = ctrlH ∨ c = delete
  · rw [if_pos back, if_pos back]
    have shorter : Buffered { input with
        e := _, history := input.history ++ [.key c] } _ := buffered.key_back
    by_cases some : input.e ≠ input.w
    · rw [if_pos some] at shorter ⊢
      exact shorter
    · rw [if_neg some] at shorter ⊢
      exact shorter
  rw [if_neg back, if_neg back]
  by_cases room : c ≠ 0 ∧ editor.waiting < inputBuf
  · rw [if_pos room, if_pos room]
    exact buffered.key_store room.2
  · rw [if_neg room, if_neg room]
    exact same

theorem Buffered.next (filled : input.r ≠ input.w) :
    editor.committed[editor.taken]? = some (input.buf (Ring.cell input.r)) ∧
      editor.taken < editor.committed.length := by
  have within := buffered.within
  have left : editor.taken < editor.committed.length := by
    have apart := mt buffered.read_eq_write.mpr filled
    omega
  have counted := buffered.count
  unfold waiting at counted
  have there := @Ring.getElem?_contents _ _ _ _ input.ring 0 (by rw [counted]; omega)
  rw [buffered.contents, getElem?_append_left (by
    rw [length_drop]
    omega), getElem?_drop, BitVec.add_zero] at there
  exact ⟨there, left⟩

theorem Buffered.take {proc : Process} (filled : input.r ≠ input.w) : Buffered
    (input.take proc) (editor.apply .take) := by
  obtain ⟨there, left⟩ := buffered.next filled
  have counted := buffered.count
  have popped := @Ring.contents_pop _ _ _ _ input.ring (by
    rw [Ring.empty_iff, counted]
    unfold waiting
    omega)
  refine ⟨?_, ?_, left, ?_, buffered.line⟩
  · have whole := buffered.contents
    rw [popped, drop_eq_getElem_cons left, cons_append] at whole
    exact (List.cons.inj whole).2
  · refine buffered.write.trans ?_
    change _ = input.r + 1 + BitVec.ofNat 32 (editor.committed.length - (editor.taken + 1))
    rw [show editor.committed.length - editor.taken =
      1 + (editor.committed.length - (editor.taken + 1)) by omega,
      BitVec.ofNat_add, ← add_assoc]
    rfl
  · have bound := buffered.bound
    unfold waiting at bound ⊢
    simp only [Editor.apply]
    omega

end

end Buffered

/-! ## The readers -/

/-- The bytes that a call in progress has stored. -/
def got : Option Place → List Byte
  | some (.read _ got) => got
  | _ => []

variable [DecidableEq Process]

/-- What a process has taken from the input, in order. -/
def Input.takenBy (input : Input Process) (proc : Process) : List Byte :=
  (input.taken.filter fun item => item.1 = proc).map Prod.snd

/-- The readers have taken the committed input in order, and each has returned
what it took. -/
structure Delivered (input : Input Process) (places : Process → Option Place) :
    Prop where
  buffered : Buffered input (replay input.history)
  order : input.taken.map Prod.snd =
    (replay input.history).committed.take (replay input.history).taken
  own : ∀ proc, input.takenBy proc =
    (input.reads proc).flatMap Read.consumed ++ got (places proc)
  data : ∀ proc, ∀ read ∈ input.reads proc,
    ctrlD ∉ read.bytes ∧ (read.eof = true → read.bytes = [])
  unfinished : ∀ proc, ctrlD ∉ got (places proc)

section Delivered

variable {places : Process → Option Place} {proc : Process} {target : Option Place}

theorem got_update (other : Process) : got (update places proc target other) =
      if other = proc then got target else got (places other) := by
  by_cases same : other = proc
  · subst same
    rw [update_self, if_pos rfl]
  · rw [update_of_ne same, if_neg same]

theorem Delivered.move (delivered : Delivered input places)
    (same : got target = got (places proc)) : Delivered input (update places proc target) := by
  have kept : ∀ other, got (update places proc target other) = got (places other) := by
    intro other
    rw [got_update]
    split
    case isTrue here => rw [same, here]
    case isFalse => rfl
  exact ⟨delivered.buffered, delivered.order,
    fun other => by rw [kept]; exact delivered.own other, delivered.data,
    fun other => by rw [kept]; exact delivered.unfinished other⟩

theorem Delivered.typed {c : Byte} (delivered : Delivered input places) :
    Delivered (input.typed c).1 places := by
  have history : (input.typed c).1.history = input.history ++ [.key c] := rfl
  have rest : (input.typed c).1.taken = input.taken ∧ (input.typed c).1.reads = input.reads := by
    unfold Input.typed Input.handle Input.store
    dsimp only
    repeat' split
    all_goals exact ⟨rfl, rfl⟩
  have committed : ((replay input.history).key c).committed.take
      ((replay input.history).key c).taken =
      (replay input.history).committed.take (replay input.history).taken := by
    have within := delivered.buffered.within
    unfold Editor.key Editor.add
    repeat' split
    all_goals first
      | rfl
      | exact take_append_of_le_length within
  refine ⟨?_, ?_, ?_, ?_, delivered.unfinished⟩
  · rw [history, replay_append]
    exact delivered.buffered.typed
  · rw [history, replay_append, rest.1]
    exact delivered.order.trans committed.symm
  · intro other
    unfold Input.takenBy
    rw [rest.1, rest.2]
    exact delivered.own other
  · rw [rest.2]
    exact delivered.data

/-- A reader takes a character and keeps it for its call. -/
theorem Delivered.take {count : Nat} {bytes : List Byte}
    (delivered : Delivered input places) (filled : input.r ≠ input.w)
    (here : places proc = some (.read count bytes)) :
    Buffered (input.take proc) (replay (input.take proc).history) ∧
    (input.take proc).taken.map Prod.snd = (replay (input.take proc).history).committed.take
        (replay (input.take proc).history).taken ∧
    ∀ other, (input.take proc).takenBy other = (input.reads other).flatMap Read.consumed ++
        if other = proc then bytes ++ [input.buf (Ring.cell input.r)]
        else got (places other) := by
  have history : (input.take proc).history = input.history ++ [.take] := rfl
  obtain ⟨there, left⟩ := delivered.buffered.next filled
  rw [history, replay_append]
  refine ⟨delivered.buffered.take filled, ?_, ?_⟩
  · change (input.taken ++ [(proc, input.buf (Ring.cell input.r))]).map
      Prod.snd = (replay input.history).committed.take ((replay input.history).taken + 1)
    rw [map_append, delivered.order, take_add_one, there]
    rfl
  · intro other
    have before := delivered.own other
    unfold Input.takenBy at before ⊢
    change ((input.taken ++ [(proc, input.buf (Ring.cell input.r))]).filter _).map Prod.snd = _
    rw [filter_append, map_append, before]
    by_cases same : other = proc
    · subst same
      rw [if_pos rfl, here, append_assoc]
      simp [got]
    · rw [if_neg same]
      simp [Ne.symm same]

/-- A call returns. -/
theorem Delivered.finish {read : Read} {next : Input Process}
    (buffered : Buffered next (replay next.history))
    (order : next.taken.map Prod.snd =
      (replay next.history).committed.take (replay next.history).taken)
    (own : ∀ other, next.takenBy other = (next.reads other).flatMap Read.consumed ++
        if other = proc then read.consumed else got (places other))
    (data : ∀ other, ∀ read ∈ next.reads other,
      ctrlD ∉ read.bytes ∧ (read.eof = true → read.bytes = []))
    (unfinished : ∀ other, ctrlD ∉ got (places other))
    (clean : ctrlD ∉ read.bytes ∧ (read.eof = true → read.bytes = [])) :
    Delivered (next.finish proc read) (update places proc none) := by
  refine ⟨⟨buffered.contents, buffered.write, buffered.within, buffered.bound,
    buffered.line⟩, order, ?_, ?_, ?_⟩
  · intro other
    refine (own other).trans ?_
    rw [got_update]
    unfold Input.finish
    by_cases same : other = proc
    · subst same
      rw [if_pos rfl, if_pos rfl]
      simp [got]
    · rw [if_neg same, if_neg same]
      simp only [update_of_ne same]
  · intro other result member
    unfold Input.finish at member
    by_cases same : other = proc
    · subst same
      simp only [update_self] at member
      rcases mem_append.mp member with old | new
      · exact data other result old
      · rw [mem_singleton.mp new]
        exact clean
    · simp only [update_of_ne same] at member
      exact data other result member
  · intro other
    rw [got_update]
    split
    case isTrue => exact not_mem_nil
    case isFalse => exact unfinished other

end Delivered

/-- What the code does, place by place. -/
inductive Does (proc : Process) (input : Input Process) :
    Place → Outcome (Input Process) Place Unit → Prop
  | done : Does proc input (.intr []) (.leave input)
  | typed (c : Byte) (characters : List Byte) : Does proc input (.intr (c :: characters))
        (.go (input.typed c).1 (if (input.typed c).2 then .intrWakeup characters
          else .intr characters))
  | wakeup (characters : List Byte) : Does proc input (.intrWakeup characters)
        (.wakeup () (.intr characters))
  | enough (target : Nat) (bytes : List Byte) (all : target ≤ bytes.length) :
      Does proc input (.read target bytes) (.leave (input.finish proc ⟨bytes, false⟩))
  | sleep (target : Nat) (bytes : List Byte) (none : input.r = input.w) :
      Does proc input (.read target bytes) (.sleep () (.read target bytes))
  | putBack (target : Nat) (bytes : List Byte) : Does proc input (.read target bytes)
        (.leave (input.finish proc ⟨bytes, false⟩))
  | eof (target : Nat) (filled : input.r ≠ input.w) (ends : input.buf (Ring.cell input.r) = ctrlD) :
      Does proc input (.read target []) (.leave ((input.take proc).finish proc ⟨[], true⟩))
  | line (target : Nat) (bytes : List Byte) (filled : input.r ≠ input.w)
      (plain : input.buf (Ring.cell input.r) ≠ ctrlD) :
      Does proc input (.read target bytes) (.leave ((input.take proc).finish proc
          ⟨bytes ++ [input.buf (Ring.cell input.r)], false⟩))
  | byte (target : Nat) (bytes : List Byte) (filled : input.r ≠ input.w)
      (plain : input.buf (Ring.cell input.r) ≠ ctrlD) :
      Does proc input (.read target bytes)
        (.go (input.take proc) (.read target (bytes ++ [input.buf (Ring.cell input.r)])))

theorem does_inside (proc : Process) (input : Input Process) (place : Place) :
    Does proc input place (Input.inside proc input place) := by
  cases place with
  | intr characters =>
    cases characters with
    | nil => exact .done
    | cons c characters =>
      have step : Does proc input (.intr (c :: characters)) _ := .typed c characters
      unfold Input.inside
      dsimp only
      split
      case isTrue wakes =>
        rw [if_pos wakes] at step
        exact step
      case isFalse wakes =>
        rw [if_neg wakes] at step
        exact step
  | intrWakeup characters => exact .wakeup characters
  | read target bytes =>
    unfold Input.inside
    dsimp only
    split
    case isTrue all => exact .enough target bytes all
    case isFalse =>
      split
      case isTrue none => exact .sleep target bytes none
      case isFalse filled =>
        split
        case isTrue ends =>
          split
          case isTrue => exact .putBack target bytes
          case isFalse fresh =>
            cases not_not.mp fresh
            exact .eof target filled ends
        case isFalse plain =>
          split
          case isTrue => exact .line target bytes filled plain
          case isFalse => exact .byte target bytes filled plain

theorem does_of_code {proc : Process} {input : Input Process} {place : Place}
    {outcome : Outcome (Input Process) Place Unit}
    (does : Input.code.inside proc input place = some outcome) : Does proc input place outcome := by
  cases does
  exact does_inside proc input place

omit [DecidableEq Process] in
theorem starts_cases {input input' : Input Process} {place : Place} (proc : Process)
    (starts : Input.starts proc input place = some input') :
    input' = input ∧ got (some place) = [] := by
  cases place with
  | intr characters =>
    cases starts
    exact ⟨rfl, rfl⟩
  | intrWakeup characters => cases starts
  | read target bytes =>
    unfold Input.starts at starts
    dsimp only at starts
    split at starts
    case isTrue fresh =>
      cases starts
      exact ⟨rfl, fresh⟩
    case isFalse => cases starts

/-- The code keeps the invariant. -/
theorem preserves_delivered : Preserves (Input.code : Code Process _ _ _)
      fun input places _ => Delivered input places where
  enter := by
    intro input places _ proc place input' delivered outside starts
    obtain ⟨rfl, fresh⟩ := starts_cases proc starts
    refine delivered.move ?_
    rw [outside, fresh]
    rfl
  take := fun delivered _ => delivered
  go := by
    intro input places proc place input' target delivered here does
    cases does_of_code does with
    | typed c characters =>
      refine delivered.typed.move ?_
      rw [here]
      split <;> rfl
    | byte target bytes filled plain =>
      obtain ⟨buffered, order, own⟩ := delivered.take filled here
      have clean := delivered.unfinished proc
      rw [here] at clean
      refine ⟨buffered, order, fun other => ?_, delivered.data, fun other => ?_⟩
      · rw [got_update]
        exact own other
      · rw [got_update]
        split
        case isTrue =>
          intro member
          rcases mem_append.mp member with old | new
          · exact clean old
          · exact plain (mem_singleton.mp new).symm
        case isFalse => exact delivered.unfinished other
  wakeup := by
    intro input places proc place chan target delivered here does
    cases does_of_code does
    refine delivered.move ?_
    rw [here]
    rfl
  sleep := by
    intro input places proc place chan target delivered here does
    cases does_of_code does
    refine delivered.move ?_
    rw [here]
  leave := by
    intro input places proc place input' delivered here does
    have clean := delivered.unfinished proc
    rw [here] at clean
    have kept : ∀ {bytes : List Byte}, got (places proc) = bytes → ∀ other, input.takenBy other =
          (input.reads other).flatMap Read.consumed ++
            if other = proc then Read.consumed ⟨bytes, false⟩
            else got (places other) := by
      rintro _ rfl other
      rw [delivered.own other]
      split
      case isTrue same => rw [same]; rfl
      case isFalse => rfl
    cases does_of_code does with
    | done =>
      refine delivered.move ?_
      rw [here]
      rfl
    | enough target bytes all =>
      exact .finish delivered.buffered delivered.order
        (kept (by rw [here]; rfl)) delivered.data delivered.unfinished
        ⟨clean, fun eof => by cases eof⟩
    | putBack target bytes =>
      exact .finish delivered.buffered delivered.order
        (kept (by rw [here]; rfl)) delivered.data delivered.unfinished
        ⟨clean, fun eof => by cases eof⟩
    | eof target filled ends =>
      obtain ⟨buffered, order, own⟩ := delivered.take filled here
      rw [ends] at own
      exact .finish buffered order own delivered.data delivered.unfinished
        ⟨not_mem_nil, fun _ => rfl⟩
    | line target bytes filled plain =>
      obtain ⟨buffered, order, own⟩ := delivered.take filled here
      refine .finish buffered order own delivered.data delivered.unfinished
        ⟨fun member => ?_, fun eof => by cases eof⟩
      rcases mem_append.mp member with old | new
      · exact clean old
      · exact plain (mem_singleton.mp new).symm

/-- `consoleintr` is about to wake the readers. -/
def Place.owes : Place → Bool
  | intrWakeup _ => true
  | _ => false

/-- A reader sleeps while there is nothing to read, and committing wakes. -/
theorem wakeful : Wakeful (Input.code : Code Process _ _ _) (fun _ input => input.r = input.w)
      (fun _ place => place.owes = true) where
  enter := by
    intro proc input place input' chan starts none
    rw [(starts_cases proc starts).1]
    exact none
  go := by
    intro proc input place input' target chan does
    cases does_of_code does with
    | typed c characters =>
      refine ⟨fun owes => absurd owes Bool.false_ne_true, fun none => ?_⟩
      cases wakes : (input.typed c).2 with
      | true => exact .inr rfl
      | false =>
        -- only a commit moves the write index
        refine .inl ?_
        have same : (input.typed c).1.r = input.r ∧ (input.typed c).1.w = input.w := by
          revert wakes
          unfold Input.typed Input.handle Input.store
          dsimp only
          repeat' split
          all_goals intro wakes
          all_goals first
            | exact ⟨rfl, rfl⟩
            | cases wakes
        rw [same.1, same.2]
        exact none
    | byte target bytes filled plain =>
      exact ⟨fun owes => absurd owes Bool.false_ne_true,
        fun none => absurd none filled⟩
  wakeup := by
    intro proc input place awake target chan _ apart
    exact absurd rfl apart
  sleep := by
    intro proc input place asleep target does
    cases does_of_code does with
    | sleep target bytes none => exact ⟨none, fun _ => Bool.false_ne_true⟩
  leave := by
    intro proc input place input' chan does
    cases does_of_code does with
    | done => exact ⟨Bool.false_ne_true, id⟩
    | enough target bytes all => exact ⟨Bool.false_ne_true, id⟩
    | putBack target bytes => exact ⟨Bool.false_ne_true, id⟩
    | eof target filled ends => exact ⟨Bool.false_ne_true, fun none => absurd none filled⟩
    | line target bytes filled plain => exact ⟨Bool.false_ne_true, fun none => absurd none filled⟩

/-- In every state of every run the indices are in ring order; what the readers
have taken is, in order, the beginning of the committed input, and the rest of
it is in the buffer; each reader has returned what it took, a `^D` only as the
end of a read without bytes; and no reader sleeps while there is something to
read. -/
theorem delivered_of_run {buf : Fin inputBuf → Byte} {count : BitVec 32}
    {actions : List (Action Process Place)} {final : State Process (Input Process) Place Unit}
    (ended : run (State.step Input.code)
      (idle Process (Input.empty buf count)) actions = some final) :
    let input := final.data
    let committed := (replay input.history).committed
    (input.w - input.r).toNat ≤ (input.e - input.r).toNat ∧
    (input.e - input.r).toNat ≤ inputBuf ∧
    input.taken.map Prod.snd = committed.take input.taken.length ∧
    Ring.contents ⟨input.buf, input.r, input.w⟩ = committed.drop input.taken.length ∧
    (∀ proc, input.takenBy proc = (input.reads proc).flatMap Read.consumed ++
        got (final.places proc)) ∧
    (∀ proc, ∀ read ∈ input.reads proc, ctrlD ∉ read.bytes ∧ (read.eof = true → read.bytes = [])) ∧
    (final.lock = none → input.r ≠ input.w →
      ∀ proc place, final.location proc ≠ .sleep () place .sleeping) := by
  intro input committed
  obtain ⟨-, delivered⟩ := preserves_delivered.run
    (⟨⟨Ring.contents_empty count buf, (BitVec.add_zero count).symm,
      Nat.le_refl 0, Nat.zero_le _, not_mem_nil⟩, rfl, fun _ => rfl,
      fun _ _ member => absurd member not_mem_nil,
      fun _ => not_mem_nil⟩ :
      Delivered (Input.empty buf count) fun _ => none) ended
  have buffered := delivered.buffered
  have edit : (input.e - input.r).toNat = (replay input.history).waiting := buffered.count
  have write : (input.w - input.r).toNat = committed.length - (replay input.history).taken := by
    have same : input.w = input.r + _ := buffered.write
    rw [same, add_sub_cancel_left, BitVec.toNat_ofNat]
    exact Nat.mod_eq_of_lt buffered.small.1
  have taken : input.taken.length = (replay input.history).taken := by
    have lengths := congrArg List.length delivered.order
    rw [length_map, length_take, min_eq_left buffered.within] at lengths
    exact lengths
  refine ⟨?_, ?_, ?_, ?_, delivered.own, delivered.data, ?_⟩
  · rw [write, edit]
    exact Nat.le_add_right ..
  · rw [edit]
    exact buffered.bound
  · rw [taken]
    exact delivered.order
  · have same : input.w = input.r + _ := buffered.write
    rw [taken, same]
    refine (@Ring.contents_take _ _ _ _ input.ring _ ?_).trans ?_
    · have counted : input.ring.count = _ := buffered.count
      rw [counted]
      exact Nat.le_add_right ..
    · have contents : input.ring.contents = _ := buffered.contents
      rw [contents, take_append_of_le_length (by rw [length_drop]), take_of_length_le
        (by rw [length_drop])]
  · intro free filled proc place asleep
    exact filled (wakeful.run ended free asleep)

/-- A reader sleeps; `a`, backspace, `b`, return and `^D` are typed; the reader
gets the line, and its second read ends at the `^D`. -/
def typedRun : List (Action Nat Place) :=
  [.enter 1 (.read 10 [])] ++ List.replicate 5 (.advance 1) ++
    [.enter 0 (.intr [0x61, ctrlH, 0x62, carriageReturn, ctrlD])] ++
    List.replicate 9 (.advance 0) ++ List.replicate 3 (.advance 1) ++
    [.enter 1 (.read 10 [])] ++ List.replicate 2 (.advance 1)

theorem delivered_typedRun : ∃ final, run (State.step Input.code)
        (idle Nat (Input.empty (fun _ => 0) 0xfffffffe)) typedRun =
        some final ∧
      (final.data.reads 1).map Read.bytes = [[0x62, newline], []] ∧
      final.data.takenBy 1 = [0x62, newline, ctrlD] := by
  have seen : ((run (State.step Input.code)
      (idle Nat (Input.empty (fun _ => 0) 0xfffffffe)) typedRun).map
      fun final => decide ((final.data.reads 1).map Read.bytes = [[0x62, newline], []] ∧
        (final.data.reads 1).flatMap Read.consumed ++
          got (final.places 1) = [0x62, newline, ctrlD])) = some true := by
    decide +kernel
  obtain ⟨final, ended, result⟩ := Option.map_eq_some_iff.mp seen
  obtain ⟨bytes, consumed⟩ := of_decide_eq_true result
  obtain ⟨-, -, -, -, own, -, -⟩ := delivered_of_run ended
  exact ⟨final, ended, bytes, (own 1).trans consumed⟩

end Xv6.Console
