import Xv6.Disk.Block
import Xv6.Foundation.Monitor
import Xv6.Foundation.Ring

/-!
# The line discipline of the console

`consoleintr` and `consoleread` of `console.c`.  The three indices of `input`
wrap around, characters can be taken back until their line is committed, and a
`^D` that ends a read with data is left for the next one.  An abstract editor
says what input is committed; the buffer holds what was committed and not yet
read, followed by the line that is being edited.
-/

namespace Xv6.Console

open Foundation.Monitor
open Foundation (Ring)
open Foundation.Transition (run)

/-- `INPUT_BUF`. -/
abbrev inputBuf : Nat := 128

instance neZero_inputBuf : NeZero inputBuf := ⟨by decide⟩

/-- The character that ends a line. -/
abbrev newline : Byte := 0x0a

/-- The character that is turned into a newline. -/
abbrev carriageReturn : Byte := 0x0d

/-- `C('D')`. -/
abbrev ctrlD : Byte := 0x04

/-- `C('H')`. -/
abbrev ctrlH : Byte := 0x08

/-- `C('P')`. -/
abbrev ctrlP : Byte := 0x10

/-- `C('U')`. -/
abbrev ctrlU : Byte := 0x15

/-- The delete key. -/
abbrev delete : Byte := 0x7f

/-! ## Committed input -/

/-- What happens to the input: a character is typed, or the next committed
character is taken by a reader. -/
inductive Event
  | key (c : Byte)
  | take

/-- The input as its readers see it. -/
structure Editor where
  /-- All characters committed so far. -/
  committed : List Byte
  /-- The characters that can still be taken back. -/
  line : List Byte
  /-- How many committed characters were taken. -/
  taken : Nat

namespace Editor

/-- The number of characters that wait in the buffer. -/
def waiting (editor : Editor) : Nat :=
  editor.committed.length - editor.taken + editor.line.length

/-- A character is added to the line, which is committed if it ends or the
buffer is full. -/
def add (editor : Editor) (c : Byte) : Editor :=
  if c = newline ∨ c = ctrlD ∨ editor.waiting + 1 = inputBuf then
    { editor with
      committed := editor.committed ++ (editor.line ++ [c])
      line := [] }
  else { editor with line := editor.line ++ [c] }

/-- A character is typed. -/
def key (editor : Editor) (c : Byte) : Editor :=
  if c = ctrlP then editor
  else if c = ctrlU then { editor with line := [] }
  else if c = ctrlH ∨ c = delete then
    { editor with line := editor.line.dropLast }
  else if c ≠ 0 ∧ editor.waiting < inputBuf then
    editor.add (if c = carriageReturn then newline else c)
  else editor

/-- What an event does. -/
def apply (editor : Editor) : Event → Editor
  | .key c => editor.key c
  | .take => { editor with taken := editor.taken + 1 }

end Editor

/-- What a sequence of events leads to. -/
def replay (events : List Event) : Editor :=
  events.foldl Editor.apply ⟨[], [], 0⟩

theorem replay_append (events : List Event) (event : Event) :
    replay (events ++ [event]) = (replay events).apply event := by
  unfold replay
  rw [List.foldl_append]
  rfl

/-! ## The code -/

/-- The result of a call of `consoleread`.  A call that takes a `^D` returns
no bytes. -/
structure Read where
  bytes : List Byte
  eof : Bool

/-- What the call has taken from the input. -/
def Read.consumed (read : Read) : List Byte :=
  if read.eof then read.bytes ++ [ctrlD] else read.bytes

/-- `input`.  `history`, `taken` and `reads` record what happened and are not
read by the code. -/
structure Input (Process : Type) where
  buf : Fin inputBuf → Byte
  r : BitVec 32
  w : BitVec 32
  e : BitVec 32
  history : List Event
  /-- The characters that were taken, with their readers. -/
  taken : List (Process × Byte)
  /-- What the calls of each process returned. -/
  reads : Process → List Read

/-- Places in the code that runs under `cons.lock`. -/
inductive Place
  /-- `consoleintr`, at the head of its loop, with the characters that `getc`
  has. -/
  | intr (characters : List Byte)
  /-- `consoleintr`, before its `wakeup`. -/
  | intrWakeup (characters : List Byte)
  /-- `consoleread` of `target` bytes, at the head of its loop, with the bytes
  it has stored. -/
  | read (target : Nat) (got : List Byte)

namespace Input

variable {Process : Type}

/-- The loop of `consoleintr` for `^U`. -/
def killLine (buf : Fin inputBuf → Byte) (w : BitVec 32) : Nat → BitVec 32 → BitVec 32
  | 0, e => e
  | fuel + 1, e =>
    if e ≠ w ∧ buf (Ring.cell (e - 1)) ≠ newline then
      killLine buf w fuel (e - 1)
    else e

/-- `consoleintr` stores a character; the result says whether it wakes the
readers. -/
def store (input : Input Process) (c : Byte) : Input Process × Bool :=
  let stored := { input with
    buf := Function.update input.buf (Ring.cell input.e) c
    e := input.e + 1 }
  if c = newline ∨ c = ctrlD ∨ stored.e = input.r + BitVec.ofNat 32 inputBuf then
    ({ stored with w := stored.e }, true)
  else (stored, false)

/-- The body of the loop of `consoleintr`. -/
def handle (input : Input Process) (c : Byte) : Input Process × Bool :=
  if c = ctrlP then (input, false)
  else if c = ctrlU then
    ({ input with
      e := killLine input.buf input.w (input.e - input.w).toNat input.e }, false)
  else if c = ctrlH ∨ c = delete then
    if input.e ≠ input.w then ({ input with e := input.e - 1 }, false)
    else (input, false)
  else if c ≠ 0 ∧ (input.e - input.r).toNat < inputBuf then
    input.store (if c = carriageReturn then newline else c)
  else (input, false)

/-- A character is typed. -/
def typed (input : Input Process) (c : Byte) : Input Process × Bool :=
  let (after, wakes) := input.handle c
  ({ after with history := input.history ++ [.key c] }, wakes)

variable [DecidableEq Process]

/-- A reader takes the next character. -/
def take (input : Input Process) (proc : Process) : Input Process :=
  { input with
    r := input.r + 1
    history := input.history ++ [.take]
    taken := input.taken ++ [(proc, input.buf (Ring.cell input.r))] }

/-- A call of `consoleread` returns. -/
def finish (input : Input Process) (proc : Process) (read : Read) : Input Process :=
  { input with
    reads := Function.update input.reads proc (input.reads proc ++ [read]) }

/-- The code that runs under `cons.lock`. -/
def inside (proc : Process) (input : Input Process) : Place → Outcome (Input Process) Place Unit
  | .intr [] => .leave input
  | .intr (c :: characters) =>
    let (after, wakes) := input.typed c
    if wakes then .go after (.intrWakeup characters)
    else .go after (.intr characters)
  | .intrWakeup characters => .wakeup () (.intr characters)
  | .read target got =>
    if target ≤ got.length then .leave (input.finish proc ⟨got, false⟩)
    else if input.r = input.w then .sleep () (.read target got)
    else
      let c := input.buf (Ring.cell input.r)
      if c = ctrlD then
        -- a `^D` after other bytes is put back
        if got ≠ [] then .leave (input.finish proc ⟨got, false⟩)
        else .leave ((input.take proc).finish proc ⟨[], true⟩)
      else if c = newline then
        .leave ((input.take proc).finish proc ⟨got ++ [c], false⟩)
      else .go (input.take proc) (.read target (got ++ [c]))

/-- Interrupts and calls of `consoleread` may come at any time. -/
def starts (_ : Process) (input : Input Process) : Place → Option (Input Process)
  | .intr _ => some input
  | .intrWakeup _ => none
  | .read _ got => if got = [] then some input else none

/-- The console. -/
def code : Code Process (Input Process) Place Unit where
  starts := starts
  inside := fun proc input place => some (inside proc input place)

omit [DecidableEq Process] in
/-- No input yet, with the indices at some count. -/
def empty (buf : Fin inputBuf → Byte) (count : BitVec 32) : Input Process where
  buf := buf
  r := count
  w := count
  e := count
  history := []
  taken := []
  reads := fun _ => []

end Input

end Xv6.Console
