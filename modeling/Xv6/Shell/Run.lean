import Xv6.Shell.Grammar

/-!
# The descriptors of the programs of a line

`runcmd` of `sh.c` opens files and makes pipes and processes until each process
calls `exec`.  What it does to the table of descriptors is compared with what a
command tree means: every program of the tree runs, and reads and writes what
the last redirection or pipe on the way to it says.
-/

namespace Xv6.Shell

open Function (update)

/-- A step from a command to one of its parts. -/
inductive Part
  | redir (file : List Char) (mode fd : Nat)
  /-- The commands of a list. -/
  | first
  | second
  /-- The sides of a pipe. -/
  | writer
  | reader
  | back
  deriving DecidableEq

/-- What a descriptor refers to. -/
inductive End
  /-- A file that was open before. -/
  | given (id : Nat)
  | file (name : List Char) (mode : Nat)
  /-- An end of the pipe that is made at a node of the tree. -/
  | pipe (node : List Part) (writable : Bool)
  deriving DecidableEq

/-- The words of a program. -/
abbrev Argv := List (List Char)

/-! ## The shell -/

/-- `ofile`. -/
abbrev Ofile := Nat → Option End

/-- `fdalloc`, with `NOFILE` entries. -/
def Ofile.fdalloc (ofile : Ofile) (f : End) : Option (Nat × Ofile) :=
  ((List.range 16).find? fun fd => ofile fd = none).map fun fd => (fd, update ofile fd (some f))

/-- `close`. -/
def Ofile.close (ofile : Ofile) (fd : Nat) : Ofile :=
  update ofile fd none

/-- `dup`. -/
def Ofile.dup (ofile : Ofile) (fd : Nat) : Ofile :=
  ((ofile fd).bind ofile.fdalloc).elim ofile Prod.snd

/-- `close` and `open` of a redirection. -/
def Ofile.redir (ofile : Ofile) (fd : Nat) (f : End) : Option Ofile :=
  ((ofile.close fd).fdalloc f).map Prod.snd

/-- `pipe`, and what the two children make of it. -/
def Ofile.pipe (ofile : Ofile) (node : List Part) : Option (Ofile × Ofile) := do
  let (p0, ofile) ← ofile.fdalloc (.pipe node false)
  let (p1, ofile) ← ofile.fdalloc (.pipe node true)
  let child := fun fd p => (((ofile.close fd).dup p).close p0).close p1
  return (child 1 p1, child 0 p0)

section Runcmd

variable (calls : List Part → Nat → Bool)

/-- `runcmd`: the arguments and descriptors with which processes call `exec`.
`calls` tells which calls of `open`, `pipe` and `fork` at a node succeed, as far
as that does not depend on descriptors. -/
def runcmd : List Part → Cmd → Ofile → List (Argv × Ofile)
  | _, .exec argv, ofile => if argv = [] then [] else [(argv, ofile)]
  | node, .redir cmd file mode fd, ofile =>
    match ofile.redir fd (.file file mode) with
    | none => []
    | some ofile => if calls node 0 then runcmd (.redir file mode fd :: node) cmd ofile else []
  | node, .list left right, ofile =>
    if calls node 0 then
      runcmd (.first :: node) left ofile ++ runcmd (.second :: node) right ofile
    else []
  | node, .pipe left right, ofile =>
    match ofile.pipe node with
    | none => []
    | some (first, second) =>
      if calls node 0 ∧ calls node 1 then runcmd (.writer :: node) left first ++
        if calls node 2 then runcmd (.reader :: node) right second else []
      else []
  | node, .back cmd, ofile => if calls node 0 then runcmd (.back :: node) cmd ofile else []

/-! ## What a tree means -/

/-- The programs of a tree, each with the way to it from the root. -/
def Cmd.programs : Cmd → List (List Part × Argv)
  | .exec argv => if argv = [] then [] else [([], argv)]
  | .redir cmd file mode fd => cmd.programs.map (Prod.map (.redir file mode fd :: ·) id)
  | .list left right =>
    left.programs.map (Prod.map (.first :: ·) id) ++ right.programs.map (Prod.map (.second :: ·) id)
  | .pipe left right =>
    left.programs.map (Prod.map (.writer :: ·) id) ++
      right.programs.map (Prod.map (.reader :: ·) id)
  | .back cmd => cmd.programs.map (Prod.map (.back :: ·) id)

/-- What a step makes of a descriptor, if it concerns it. -/
def Part.sets (node : List Part) (fd : Nat) : Part → Option End
  | redir file mode target => if target = fd then some (.file file mode) else none
  | writer => if fd = 1 then some (.pipe node true) else none
  | reader => if fd = 0 then some (.pipe node false) else none
  | first | second | back => none

/-- The calls that a step needs. -/
def Part.possible (node : List Part) : Part → Bool
  | redir .. | first | second | back => calls node 0
  | writer => calls node 0 && calls node 1
  | reader => calls node 0 && calls node 1 && calls node 2

/-- What a program has as a descriptor: what the last step on the way to it that
concerns the descriptor makes of it. -/
def descriptor (fd : Nat) : End → List Part → List Part → End
  | before, _, [] => before
  | before, node, part :: way => descriptor fd ((part.sets node fd).getD before) (part :: node) way

/-- The calls on the way to a program succeed. -/
def reached : List Part → List Part → Bool
  | _, [] => true
  | node, part :: way => part.possible calls node && reached (part :: node) way

/-- Three descriptors are open, and no other. -/
def three (error : End) (ends : End × End) : Ofile := fun fd =>
  [ends.1, ends.2, error][fd]?

/-- The programs that can be reached, with what they read and write. -/
def wired (error : End) (node : List Part) (ends : End × End)
    (programs : List (List Part × Argv)) : List (Argv × Ofile) :=
  (programs.filter fun program => reached calls node program.1).map fun program =>
    (program.2, three error (descriptor 0 ends.1 node program.1, descriptor 1 ends.2 node program.1))

end Runcmd

/-! ## Both agree -/

/-- Only the first two descriptors are redirected. -/
def Cmd.Plain : Cmd → Prop
  | .exec _ => True
  | .redir cmd _ _ fd => fd ≤ 1 ∧ cmd.Plain
  | .pipe left right | .list left right => left.Plain ∧ right.Plain
  | .back cmd => cmd.Plain

theorem plain_around (redirs : List Redirection) {cmd : Cmd} (plain : cmd.Plain) :
    (Redirection.around redirs cmd).Plain := by
  induction redirs generalizing cmd with
  | nil => exact plain
  | cons redir redirs ih =>
    refine ih ?_
    obtain ⟨operator, file⟩ := redir
    cases operator <;> exact ⟨by decide, plain⟩

theorem plain_backs (n : Nat) {cmd : Cmd} (plain : cmd.Plain) : (Cmd.back^[n] cmd).Plain := by
  induction n generalizing cmd with
  | zero => exact plain
  | succ n ih => exact ih plain

theorem Derives.plain {nonterminal : Nonterminal} {left : List Token} {cmd : Cmd}
    (derives : Derives nonterminal left cmd) : cmd.Plain := by
  induction derives with
  | block redirs _ plain => exact plain_around redirs plain
  | simple redirs args few => exact plain_around _ trivial
  | last _ plain => exact plain
  | pipe _ _ left right => exact ⟨left, right⟩
  | ends n _ plain => exact plain_backs n plain
  | list n _ _ left right => exact ⟨plain_backs n left, right⟩

section Three

variable {error : End} {ends : End × End} {node : List Part} {calls : List Part → Nat → Bool}

theorem redir_three {fd : Nat} (low : fd ≤ 1) (f : End) :
    (three error ends).redir fd f = some (three error (if fd = 0 then (f, ends.2) else (ends.1, f))) := by
  have low : fd = 0 ∨ fd = 1 := by omega
  rcases low with rfl | rfl
  all_goals
    refine congrArg some (funext fun fd => ?_)
    match fd with
    | 0 | 1 | 2 | fd + 3 => rfl

theorem pipe_three : (three error ends).pipe node =
    some (three error (ends.1, .pipe node true), three error (.pipe node false, ends.2)) := by
  refine congrArg some (Prod.ext (funext fun fd => ?_) (funext fun fd => ?_))
  all_goals
    match fd with
    | 0 | 1 | 2 | 3 | 4 | fd + 5 => rfl

/-- The programs of a part. -/
theorem wired_part (part : Part) (programs : List (List Part × Argv)) :
    wired calls error node ends (programs.map (Prod.map (part :: ·) id)) =
      if part.possible calls node then wired calls error (part :: node)
        ((part.sets node 0).getD ends.1, (part.sets node 1).getD ends.2) programs
      else [] := by
  unfold wired
  rw [List.filter_map, List.map_map]
  cases possible : part.possible calls node with
  | false => simp [Function.comp_def, reached, possible]
  | true =>
    rw [if_pos rfl]
    simp only [Function.comp_def, reached, Prod.map_fst, possible, Bool.true_and]
    rfl

theorem wired_append (first second : List (List Part × Argv)) :
    wired calls error node ends (first ++ second) =
      wired calls error node ends first ++ wired calls error node ends second := by
  unfold wired
  rw [List.filter_append, List.map_append]

theorem runcmd_three {cmd : Cmd} (plain : cmd.Plain) :
    runcmd calls node cmd (three error ends) = wired calls error node ends cmd.programs := by
  induction cmd generalizing node ends with
  | exec argv =>
    unfold runcmd Cmd.programs
    split <;> rfl
  | redir cmd file mode fd ih =>
    rw [runcmd, Cmd.programs, wired_part, redir_three plain.1]
    dsimp only
    rw [ih plain.2]
    have low : fd = 0 ∨ fd = 1 := by have := plain.1; omega
    rcases low with rfl | rfl <;> rfl
  | list left right ihLeft ihRight =>
    rw [runcmd, Cmd.programs, wired_append, wired_part, wired_part, ihLeft plain.1, ihRight plain.2]
    unfold Part.possible
    split <;> rfl
  | pipe left right ihLeft ihRight =>
    rw [runcmd, Cmd.programs, wired_append, wired_part, wired_part, pipe_three]
    dsimp only
    rw [ihLeft plain.1, ihRight plain.2]
    cases first : calls node 0 <;> cases second : calls node 1 <;> cases third : calls node 2 <;>
      simp [Part.possible, Part.sets, first, second, third]
  | back cmd ih =>
    rw [runcmd, Cmd.programs, wired_part, ih plain]
    rfl

end Three

/-- For every line, whichever calls fail, `runcmd` starts exactly the programs of
the tree to which the calls on the way succeed, in their order.  Each has three
descriptors: what it reads and writes according to the tree, and what was the
third.  No end of a pipe is left open besides. -/
theorem runcmd_wires {line : List Char} {tree : Cmd} (derives : Derives .line (tokens line) tree)
    (calls : List Part → Nat → Bool) (error : End) (ends : End × End) :
    runcmd calls [] tree (three error ends) =
      (tree.programs.filter fun program => reached calls [] program.1).map fun program =>
        (program.2, three error (descriptor 0 ends.1 [] program.1, descriptor 1 ends.2 [] program.1)) :=
  runcmd_three derives.plain

theorem runcmd_wires_pipe : runcmd (fun _ _ => true) []
      (.pipe (.exec [['a']]) (.exec [['b']])) (three (.given 2) (.given 0, .given 1)) =
    [([['a']], three (.given 2) (.given 0, .pipe [] true)),
      ([['b']], three (.given 2) (.pipe [] false, .given 1))] := by
  have derives : Derives .line (tokens ['a', '|', 'b'])
      (.pipe (.exec [['a']]) (.exec [['b']])) := by
    have split : tokens ['a', '|', 'b'] = [.word ['a'], .symbol .bar, .word ['b']] := by
      decide +kernel
    rw [split]
    exact .ends 0 (.pipe (.simple [] [⟨['a'], []⟩] (by decide))
      (.last (.simple [] [⟨['b'], []⟩] (by decide))))
  exact runcmd_wires derives _ _ _

end Xv6.Shell
