import Xv6.Shell.Parser

/-!
# The shell parser accepts its grammar

The grammar of command lines, with the tree of each sentence:

    line  ::= pipe '&'* [';' line]
    pipe  ::= exec ['|' pipe]
    exec  ::= '(' line ')' redir* | redir* (word redir*)*
    redir ::= ('<' | '>' | '>>') word

`parsecmd` returns the tree of a line that is a sentence, and panics for every
other line.
-/

namespace Xv6.Shell

open List Foundation.Program

/-- The operators of redirections. -/
inductive Operator where
  | less
  | greater
  | append

/-- The token of an operator. -/
def Operator.symbol : Operator → Symbol
  | .less => .less
  | .greater => .greater
  | .append => .append

/-- A redirection of a sentence. -/
structure Redirection where
  operator : Operator
  file : List Char

/-- The tokens of redirections. -/
def Redirection.sentence (redirs : List Redirection) : List Token :=
  redirs.flatMap fun redir => [.symbol redir.operator.symbol, .word redir.file]

/-- The tree of a redirected command. -/
def Redirection.wrap (cmd : Cmd) (redir : Redirection) : Cmd :=
  match redir.operator with
  | .less => .redir cmd redir.file 0x000 0
  | .greater => .redir cmd redir.file 0x201 1
  | .append => .redir cmd redir.file 0x201 1

/-- A later redirection is around an earlier one. -/
def Redirection.around (redirs : List Redirection) (cmd : Cmd) : Cmd :=
  redirs.foldl Redirection.wrap cmd

/-- A word of a command, and the redirections after it. -/
structure Argument where
  word : List Char
  redirs : List Redirection

/-- The tokens of words with redirections. -/
def Argument.sentence (args : List Argument) : List Token :=
  args.flatMap fun arg => .word arg.word :: Redirection.sentence arg.redirs

/-- The nonterminals of the grammar. -/
inductive Nonterminal where
  | line
  | pipe
  | exec

/-- The grammar with its trees. -/
inductive Derives : Nonterminal → List Token → Cmd → Prop where
  | block {inner cmd} (redirs : List Redirection) (line : Derives .line inner cmd) : Derives .exec
        (.symbol .lpar :: inner ++ .symbol .rpar :: Redirection.sentence redirs)
        (Redirection.around redirs cmd)
  | simple (redirs : List Redirection) (args : List Argument) (few : args.length ≤ maxargs - 1) :
      Derives .exec (Redirection.sentence redirs ++ Argument.sentence args)
        (Redirection.around (redirs ++ args.flatMap Argument.redirs)
          (.exec (args.map Argument.word)))
  | last {front cmd} (exec : Derives .exec front cmd) : Derives .pipe front cmd
  | pipe {front cmd back right} (exec : Derives .exec front cmd) (pipe : Derives .pipe back right) :
      Derives .pipe (front ++ .symbol .bar :: back) (.pipe cmd right)
  | ends {front cmd} (n : Nat) (pipe : Derives .pipe front cmd) :
      Derives .line (front ++ List.replicate n (.symbol .amp)) (Cmd.back^[n] cmd)
  | list {front cmd back right} (n : Nat) (pipe : Derives .pipe front cmd)
      (line : Derives .line back right) :
      Derives .line (front ++ (List.replicate n (.symbol .amp) ++ .symbol .semi :: back))
        (.list (Cmd.back^[n] cmd) right)

/-! ## Redirections and words -/

section Lists

variable (redir : Redirection) (redirs : List Redirection) (arg : Argument)
  (args : List Argument) (cmd : Cmd)

@[simp] theorem sentence_nil : Redirection.sentence [] = [] :=
  rfl

@[simp] theorem sentence_cons : Redirection.sentence (redir :: redirs) =
      .symbol redir.operator.symbol :: .word redir.file :: Redirection.sentence redirs :=
  rfl

@[simp] theorem around_cons : Redirection.around (redir :: redirs) cmd =
      Redirection.around redirs (redir.wrap cmd) :=
  rfl

theorem around_append (later : List Redirection) : Redirection.around (redirs ++ later) cmd =
      Redirection.around later (Redirection.around redirs cmd) :=
  foldl_append

@[simp] theorem arguments_nil : Argument.sentence [] = [] :=
  rfl

@[simp] theorem arguments_cons : Argument.sentence (arg :: args) = .word arg.word ::
        (Redirection.sentence arg.redirs ++ Argument.sentence args) :=
  rfl

/-- The word goes to the command under the redirections. -/
theorem addArg_around (word : List Char) : (Redirection.around redirs cmd).addArg word =
      Redirection.around redirs (cmd.addArg word) := by
  induction redirs generalizing cmd with
  | nil => rfl
  | cons redir redirs ih =>
    have inner : (redir.wrap cmd).addArg word = redir.wrap (cmd.addArg word) := by
      cases redir with
      | mk operator file => cases operator <;> rfl
    rw [around_cons, around_cons, ih, inner]

/-- `parseredirs` puts the redirection of the token around the command. -/
theorem redirect_eq : redirect (Token.symbol redir.operator.symbol).kind cmd redir.file =
      redir.wrap cmd := by
  cases redir with
  | mk operator file => cases operator <;> rfl

/-- The tokens that `parseredirs` sees start redirections. -/
theorem operator_of_starts {name : Symbol}
    (redirects : (Token.symbol name).starts ['<', '>'] = true) :
    ∃ operator : Operator, operator.symbol = name := by
  cases name with
  | less => exact ⟨.less, rfl⟩
  | greater => exact ⟨.greater, rfl⟩
  | append => exact ⟨.append, rfl⟩
  | bar | amp | semi | lpar | rpar => exact absurd redirects (by decide)

theorem starts_operator (operator : Operator) :
    (Token.symbol operator.symbol).starts ['<', '>'] = true := by
  cases operator <;> rfl

theorem kind_ne_word (name : Symbol) : (Token.symbol name).kind ≠ 'a' := by
  cases name <;> decide

theorem kind_ne_nul (name : Symbol) : (Token.symbol name).kind ≠ nul := by
  cases name <;> decide

theorem symbol_of_starts {toks : List Char} {left : List Token} (first : starts toks left = true) :
    ∃ name rest, left = .symbol name :: rest ∧ (Token.symbol name).starts toks = true := by
  cases left with
  | nil => cases first
  | cons token rest =>
    cases token with
    | word text => cases first
    | symbol name => exact ⟨name, rest, rfl, first⟩

/-- A character that is the text of a symbol starts no other symbol. -/
theorem cons_of_starts {c : Char} {target : Symbol} {left : List Token}
    (isSingle : single c = some target) (first : starts [c] left = true) :
    ∃ rest, left = .symbol target :: rest := by
  obtain ⟨name, rest, rfl, leads⟩ := symbol_of_starts first
  obtain rfl : name.text.headD nul = c := mem_singleton.mp (of_decide_eq_true leads)
  refine ⟨rest, congrArg (fun name => Token.symbol name :: rest) ?_⟩
  cases name with
  | greater | append => cases isSingle
  | less | bar | amp | semi | lpar | rpar => exact Option.some.inj isSingle

end Lists

/-! ## What is parsed derives its tree -/

/-- Parsing does not stop for lack of fuel. -/
def Fuelled (stop : Stop) : Prop :=
  stop ≠ .fuel

theorem fuelled_panic (message : String) : Fuelled (.panic message) :=
  fun same => (by cases same)

/-- A tree was parsed from the first of the tokens. -/
def Parsed (nonterminal : Nonterminal) (left : List Token) (tree : Cmd) (s : List Char) : Prop :=
  ∃ front rest, left = front ++ rest ∧ Reads s rest ∧ Derives nonterminal front tree

variable {s : List Char}

section Sound

variable {left : List Token} {fuel : Nat} {cmd : Cmd}

theorem parseredirs_sound (reads : Reads s left) (enough : left.length < fuel) :
    wp (parseredirs fuel cmd) (fun tree s' => ∃ redirs rest,
        left = Redirection.sentence redirs ++ rest ∧ Reads s' rest ∧
          tree = Redirection.around redirs cmd)
      Fuelled s := by
  induction fuel generalizing s left cmd with
  | zero => omega
  | succ fuel ih =>
    unfold parseredirs
    rw [wp_bind]
    refine reads.peek (by decide) fun s₁ reads => ?_
    by_cases redirects : starts ['<', '>'] left = true
    · obtain ⟨name, left, rfl, isOperator⟩ := symbol_of_starts redirects
      obtain ⟨operator, rfl⟩ := operator_of_starts isOperator
      rw [if_pos redirects, wp_bind]
      refine reads.gettoken fun s₂ reads => ?_
      dsimp only
      rw [wp_bind]
      match left with
      | [] =>
        refine reads.gettoken_nil fun s₃ reads => ?_
        exact fuelled_panic _
      | .symbol name :: left =>
        refine reads.gettoken fun s₃ reads => ?_
        dsimp only
        rw [if_pos (kind_ne_word name)]
        exact fuelled_panic _
      | .word file :: left =>
        refine reads.gettoken fun s₃ reads => ?_
        dsimp only
        rw [if_neg (fun other => other rfl)]
        simp only [length_cons] at enough
        have wrapped := redirect_eq ⟨operator, file⟩ cmd
        refine wp_mono (ih reads (by omega)) ?_ fun _ => id
        rintro tree s' ⟨redirs, rest, rfl, reads, rfl⟩
        refine ⟨⟨operator, file⟩ :: redirs, rest, rfl, reads, ?_⟩
        rw [around_cons, ← wrapped]
        rfl
    · rw [if_neg redirects]
      exact ⟨[], left, rfl, reads, rfl⟩

/-- The words of a command, when it has some already. -/
theorem parseargs_sound {redirs : List Redirection} {argv : List (List Char)}
    (reads : Reads s left) (enough : left.length < fuel) (few : argv.length ≤ maxargs - 1) :
    wp (parseargs fuel argv.length (Redirection.around redirs (.exec argv)))
      (fun tree s' => ∃ args rest, left = Argument.sentence args ++ rest ∧ Reads s' rest ∧
          argv.length + args.length ≤ maxargs - 1 ∧
          tree = Redirection.around (redirs ++ args.flatMap Argument.redirs)
            (.exec (argv ++ args.map Argument.word)))
      Fuelled s := by
  induction fuel generalizing s left redirs argv with
  | zero => omega
  | succ fuel ih =>
    have done : ∀ s', Reads s' left → ∃ args rest,
        left = Argument.sentence args ++ rest ∧ Reads s' rest ∧
          argv.length + args.length ≤ maxargs - 1 ∧
          Redirection.around redirs (.exec argv) =
            Redirection.around (redirs ++ args.flatMap Argument.redirs)
              (.exec (argv ++ args.map Argument.word)) :=
      fun s' reads => ⟨[], left, rfl, reads, few, by simp⟩
    unfold parseargs
    rw [wp_bind]
    refine reads.peek (by decide) fun s₁ reads => ?_
    by_cases follows : starts ['|', ')', '&', ';'] left = true
    · rw [if_pos follows]
      exact done s₁ reads
    rw [if_neg follows, wp_bind]
    match left with
    | [] =>
      refine reads.gettoken_nil fun s₂ reads => ?_
      exact done s₂ reads
    | .symbol name :: left =>
      refine reads.gettoken fun s₂ reads => ?_
      dsimp only
      rw [if_neg (kind_ne_nul name), if_pos (kind_ne_word name)]
      exact fuelled_panic _
    | .word word :: left =>
      refine reads.gettoken fun s₂ reads => ?_
      dsimp only
      have isWord : (Token.word word).kind ≠ nul := (by decide : 'a' ≠ nul)
      rw [if_neg isWord, if_neg (fun other => other rfl)]
      by_cases many : maxargs ≤ argv.length + 1
      · rw [if_pos many]
        exact fuelled_panic _
      rw [if_neg many, addArg_around]
      simp only [length_cons] at enough
      refine wp_bind_of (parseredirs_sound reads (by omega)) ?_
      rintro ret s₃ ⟨more, left, rfl, reads, rfl⟩
      rw [length_append] at enough
      have next := @ih s₃ left (redirs ++ more) (argv ++ [word]) reads
        (by omega) (by simp only [length_append, length_singleton]; omega)
      rw [around_append, length_append] at next
      refine wp_mono next ?_ fun _ => id
      rintro tree s' ⟨args, rest, rfl, reads, fewer, rfl⟩
      refine ⟨⟨word, more⟩ :: args, rest, ?_, reads, ?_, ?_⟩
      · simp
      · simp only [length_cons, length_nil] at fewer ⊢
        omega
      · simp

theorem parseback_sound (reads : Reads s left) (enough : left.length < fuel) :
    wp (parseback fuel cmd) (fun tree s' => ∃ n rest,
        left = List.replicate n (.symbol .amp) ++ rest ∧ Reads s' rest ∧ tree = Cmd.back^[n] cmd)
      Fuelled s := by
  induction fuel generalizing s left cmd with
  | zero => omega
  | succ fuel ih =>
    unfold parseback
    rw [wp_bind]
    refine reads.peek (by decide) fun s₁ reads => ?_
    by_cases ampersand : starts ['&'] left = true
    · obtain ⟨left, rfl⟩ := cons_of_starts rfl ampersand
      rw [if_pos ampersand, wp_bind, wp_discard]
      refine reads.gettoken fun s₂ reads => ?_
      simp only [length_cons] at enough
      refine wp_mono (ih reads (by omega)) ?_ fun _ => id
      rintro tree s' ⟨n, rest, rfl, reads, rfl⟩
      exact ⟨n + 1, rest, rfl, reads, rfl⟩
    · rw [if_neg ampersand]
      exact ⟨0, left, rfl, reads, rfl⟩

/-- What each of the functions parses. -/
structure Sound (fuel : Nat) : Prop where
  line : ∀ s left, Reads s left → 4 * left.length + 4 ≤ fuel →
    wp (parseline fuel) (Parsed .line left) Fuelled s
  pipe : ∀ s left, Reads s left → 4 * left.length + 3 ≤ fuel →
    wp (parsepipe fuel) (Parsed .pipe left) Fuelled s
  exec : ∀ s left, Reads s left → 4 * left.length + 2 ≤ fuel →
    wp (parseexec fuel) (Parsed .exec left) Fuelled s
  block : ∀ s left, Reads s left → 4 * left.length + 1 ≤ fuel →
    wp (parseblock fuel) (Parsed .exec left) Fuelled s

section

variable (sound : Sound fuel) (reads : Reads s left)
include sound reads

theorem Sound.line_succ (enough : 4 * left.length + 4 ≤ fuel + 1) :
    wp (parseline (fuel + 1)) (Parsed .line left) Fuelled s := by
  rw [parseline]
  refine wp_bind_of (sound.pipe s left reads (by omega)) ?_
  rintro cmd s₁ ⟨front, left, rfl, reads, pipe⟩
  rw [length_append] at enough
  refine wp_bind_of (parseback_sound reads (by omega)) ?_
  rintro tree s₂ ⟨n, left, rfl, reads, rfl⟩
  rw [length_append] at enough
  rw [wp_bind]
  refine reads.peek (by decide) fun s₃ reads => ?_
  by_cases semicolon : starts [';'] left = true
  · obtain ⟨left, rfl⟩ := cons_of_starts rfl semicolon
    rw [if_pos semicolon, wp_bind, wp_discard]
    refine reads.gettoken fun s₄ reads => ?_
    rw [length_cons] at enough
    refine wp_bind_of (sound.line s₄ left reads (by omega)) ?_
    rintro right s₅ ⟨back, rest, rfl, reads, line⟩
    exact ⟨_, rest, by simp, reads, .list n pipe line⟩
  · rw [if_neg semicolon]
    exact ⟨_, left, by simp, reads, .ends n pipe⟩

theorem Sound.pipe_succ (enough : 4 * left.length + 3 ≤ fuel + 1) :
    wp (parsepipe (fuel + 1)) (Parsed .pipe left) Fuelled s := by
  rw [parsepipe]
  refine wp_bind_of (sound.exec s left reads (by omega)) ?_
  rintro cmd s₁ ⟨front, left, rfl, reads, exec⟩
  rw [length_append] at enough
  rw [wp_bind]
  refine reads.peek (by decide) fun s₂ reads => ?_
  by_cases bar : starts ['|'] left = true
  · obtain ⟨left, rfl⟩ := cons_of_starts rfl bar
    rw [if_pos bar, wp_bind, wp_discard]
    refine reads.gettoken fun s₃ reads => ?_
    rw [length_cons] at enough
    refine wp_bind_of (sound.pipe s₃ left reads (by omega)) ?_
    rintro right s₄ ⟨back, rest, rfl, reads, pipe⟩
    exact ⟨_, rest, by simp, reads, .pipe exec pipe⟩
  · rw [if_neg bar]
    exact ⟨front, left, rfl, reads, .last exec⟩

theorem Sound.block_succ (enough : 4 * left.length + 1 ≤ fuel + 1) :
    wp (parseblock (fuel + 1)) (Parsed .exec left) Fuelled s := by
  rw [parseblock, wp_bind]
  refine reads.peek (by decide) fun s₁ reads => ?_
  by_cases opens : starts ['('] left = true
  · obtain ⟨left, rfl⟩ := cons_of_starts rfl opens
    rw [if_pos opens, wp_bind, wp_discard]
    refine reads.gettoken fun s₂ reads => ?_
    rw [length_cons] at enough
    refine wp_bind_of (sound.line s₂ left reads (by omega)) ?_
    rintro cmd s₃ ⟨inner, left, rfl, reads, line⟩
    rw [length_append] at enough
    rw [wp_bind]
    refine reads.peek (by decide) fun s₄ reads => ?_
    by_cases closes : starts [')'] left = true
    · obtain ⟨left, rfl⟩ := cons_of_starts rfl closes
      rw [if_pos closes, wp_bind, wp_discard]
      refine reads.gettoken fun s₅ reads => ?_
      rw [length_cons] at enough
      refine wp_mono (parseredirs_sound reads (by omega)) ?_ fun _ => id
      rintro tree s' ⟨redirs, rest, rfl, reads, rfl⟩
      exact ⟨_, rest, by simp, reads, .block redirs line⟩
    · rw [if_neg closes]
      exact fuelled_panic _
  · rw [if_neg opens]
    exact fuelled_panic _

theorem Sound.exec_succ (enough : 4 * left.length + 2 ≤ fuel + 1) :
    wp (parseexec (fuel + 1)) (Parsed .exec left) Fuelled s := by
  rw [parseexec, wp_bind]
  refine reads.peek (by decide) fun s₁ reads => ?_
  by_cases opens : starts ['('] left = true
  · rw [if_pos opens]
    exact sound.block s₁ left reads (by omega)
  · rw [if_neg opens]
    refine wp_bind_of (parseredirs_sound reads (by omega)) ?_
    rintro ret s₂ ⟨redirs, left, rfl, reads, rfl⟩
    rw [length_append] at enough
    refine wp_mono (@parseargs_sound _ _ _ redirs [] reads (by omega) (by decide)) ?_
      fun _ => id
    rintro tree s' ⟨args, rest, rfl, reads, few, rfl⟩
    rw [length_nil, Nat.zero_add] at few
    exact ⟨_, rest, by simp, reads, .simple redirs args few⟩

end

theorem sound (fuel : Nat) : Sound fuel := by
  induction fuel with
  | zero =>
    exact ⟨fun _ _ _ _ => by omega, fun _ _ _ _ => by omega,
      fun _ _ _ _ => by omega, fun _ _ _ _ => by omega⟩
  | succ fuel ih =>
    exact ⟨fun _ _ => ih.line_succ, fun _ _ => ih.pipe_succ,
      fun _ _ => ih.exec_succ, fun _ _ => ih.block_succ⟩

end Sound

/-! ## What derives a tree is parsed -/

/-- The symbols that may stand after a nonterminal. -/
def Nonterminal.follows : Nonterminal → List Char
  | .line => [')']
  | .pipe => ['&', ';', ')']
  | .exec => ['|', '&', ';', ')']

/-- The tokens may stand after a nonterminal. -/
def Follow (nonterminal : Nonterminal) (rest : List Token) : Prop :=
  rest = [] ∨ starts nonterminal.follows rest = true

/-- The function for a nonterminal. -/
def Nonterminal.parse : Nonterminal → Nat → ParseM Cmd
  | .line => parseline
  | .pipe => parsepipe
  | .exec => parseexec

/-- How many calls come before a token is read. -/
def Nonterminal.calls : Nonterminal → Nat
  | .line => 4
  | .pipe => 3
  | .exec => 2

section Complete

variable {rest : List Token} {fuel : Nat} {cmd : Cmd} {nonterminal : Nonterminal}

theorem Follow.not_starts (follow : Follow nonterminal rest) {toks : List Char}
    (apart : (toks.all fun c => c ∉ nonterminal.follows) = true) : ¬ starts toks rest = true := by
  rcases follow with rfl | follow
  · exact Bool.false_ne_true
  · intro also
    obtain ⟨name, rest, rfl, first⟩ := symbol_of_starts follow
    simp only [starts, Token.starts, decide_eq_true_eq] at also first
    have outside := all_eq_true.mp apart _ also
    exact of_decide_eq_true outside first

theorem Follow.mono {other : Nonterminal} (follow : Follow nonterminal rest)
    (more : nonterminal.follows ⊆ other.follows) : Follow other rest := by
  rcases follow with rfl | follow
  · exact .inl rfl
  · obtain ⟨name, rest, rfl, first⟩ := symbol_of_starts follow
    refine .inr ?_
    simp only [starts, Token.starts, decide_eq_true_eq] at first ⊢
    exact more first

/-- A word stands before what follows a command. -/
theorem Follow.not_starts_arguments
    (follow : Follow .exec rest) (args : List Argument) {toks : List Char}
    (apart : (toks.all fun c => c ∉ Nonterminal.exec.follows) = true) :
    ¬ starts toks (Argument.sentence args ++ rest) = true := by
  cases args with
  | nil => exact follow.not_starts apart
  | cons arg args => exact Bool.false_ne_true

theorem starts_lpar : starts ['('] (.symbol .lpar :: rest) = true := rfl

theorem starts_rpar : starts [')'] (.symbol .rpar :: rest) = true :=
  rfl

theorem starts_bar : starts ['|'] (.symbol .bar :: rest) = true :=
  rfl

theorem starts_amp : starts ['&'] (.symbol .amp :: rest) = true :=
  rfl

theorem starts_semi : starts [';'] (.symbol .semi :: rest) = true :=
  rfl

theorem parseredirs_complete {redirs : List Redirection}
    (reads : Reads s (Redirection.sentence redirs ++ rest)) (ends : ¬ starts ['<', '>'] rest = true)
    (enough : (Redirection.sentence redirs ++ rest).length < fuel) :
    wp (parseredirs fuel cmd) (fun tree s' => tree = Redirection.around redirs cmd ∧ Reads s' rest)
      Never s := by
  induction redirs generalizing s fuel cmd with
  | nil =>
    cases fuel with
    | zero => omega
    | succ fuel =>
      rw [parseredirs, wp_bind]
      refine reads.peek (by decide) fun s₁ reads => ?_
      rw [sentence_nil, nil_append, if_neg ends]
      exact ⟨rfl, reads⟩
  | cons redir redirs ih =>
    cases fuel with
    | zero => omega
    | succ fuel =>
      rw [sentence_cons, cons_append, cons_append] at reads enough
      rw [parseredirs, wp_bind]
      refine reads.peek (by decide) fun s₁ reads => ?_
      rw [starts, if_pos (starts_operator redir.operator), wp_bind]
      refine reads.gettoken fun s₂ reads => ?_
      dsimp only
      rw [wp_bind]
      refine reads.gettoken fun s₃ reads => ?_
      dsimp only
      rw [if_neg (fun other => other rfl)]
      rw [length_cons, length_cons] at enough
      have wrapped := redirect_eq redir cmd
      rw [around_cons, ← wrapped]
      exact ih reads (by omega)

theorem parseargs_complete {args : List Argument} {redirs : List Redirection}
    {argv : List (List Char)} (reads : Reads s (Argument.sentence args ++ rest))
    (follow : Follow .exec rest) (few : argv.length + args.length ≤ maxargs - 1)
    (enough : (Argument.sentence args ++ rest).length < fuel) :
    wp (parseargs fuel argv.length (Redirection.around redirs (.exec argv)))
      (fun tree s' =>
        tree = Redirection.around (redirs ++ args.flatMap Argument.redirs)
          (.exec (argv ++ args.map Argument.word)) ∧ Reads s' rest)
      Never s := by
  induction args generalizing s fuel redirs argv with
  | nil =>
    cases fuel with
    | zero => omega
    | succ fuel =>
      rw [parseargs, wp_bind]
      refine reads.peek (by decide) fun s₁ reads => ?_
      rcases follow with rfl | follow
      · rw [if_neg (fun first => by cases first), wp_bind]
        refine reads.gettoken_nil fun s₂ reads => ?_
        exact ⟨by simp, reads⟩
      · have first : starts ['|', ')', '&', ';'] rest = true := by
          obtain ⟨name, rest, rfl, first⟩ := symbol_of_starts follow
          simp only [starts, Token.starts, Nonterminal.follows,
            mem_cons, decide_eq_true_eq] at first ⊢
          grind
        rw [arguments_nil, nil_append, if_pos first]
        exact ⟨by simp, reads⟩
  | cons arg args ih =>
    cases fuel with
    | zero => omega
    | succ fuel =>
      rw [arguments_cons, cons_append, append_assoc] at reads enough
      rw [parseargs, wp_bind]
      refine reads.peek (by decide) fun s₁ reads => ?_
      rw [if_neg (fun first => by cases first), wp_bind]
      refine reads.gettoken fun s₂ reads => ?_
      dsimp only
      have isWord : (Token.word arg.word).kind ≠ nul := (by decide : 'a' ≠ nul)
      rw [length_cons] at few
      rw [if_neg isWord, if_neg (fun other => other rfl), if_neg (by omega), addArg_around]
      rw [length_cons] at enough
      refine wp_bind_of (parseredirs_complete reads
        (follow.not_starts_arguments args (by decide)) (by omega)) ?_
      rintro ret s₃ ⟨rfl, reads⟩
      rw [length_append] at enough
      have next := @ih s₃ fuel (redirs ++ arg.redirs) (argv ++ [arg.word]) reads
        (by simp only [length_append, length_singleton]; omega)
        (by omega)
      rw [around_append, length_append] at next
      refine wp_mono next ?_ fun _ => id
      rintro tree s' ⟨rfl, reads⟩
      exact ⟨by simp, reads⟩

theorem parseback_complete {n : Nat} (reads : Reads s (List.replicate n (.symbol .amp) ++ rest))
    (ends : ¬ starts ['&'] rest = true)
    (enough : (List.replicate n (Token.symbol .amp) ++ rest).length < fuel) :
    wp (parseback fuel cmd) (fun tree s' => tree = Cmd.back^[n] cmd ∧ Reads s' rest) Never s := by
  induction n generalizing s fuel cmd with
  | zero =>
    cases fuel with
    | zero => omega
    | succ fuel =>
      rw [parseback, wp_bind]
      refine reads.peek (by decide) fun s₁ reads => ?_
      rw [replicate_zero, nil_append, if_neg ends]
      exact ⟨rfl, reads⟩
  | succ n ih =>
    cases fuel with
    | zero => omega
    | succ fuel =>
      rw [replicate_succ, cons_append] at reads enough
      rw [parseback, wp_bind]
      refine reads.peek (by decide) fun s₁ reads => ?_
      rw [if_pos starts_amp, wp_bind, wp_discard]
      refine reads.gettoken fun s₂ reads => ?_
      rw [length_cons] at enough
      exact ih reads (by omega)

theorem follow_replicate {n : Nat} (follow : Follow .pipe rest) :
    Follow .pipe (List.replicate n (.symbol .amp) ++ rest) := by
  cases n with
  | zero => exact follow
  | succ n => exact .inr rfl

/-- A sentence is parsed to its tree, before what may follow it. -/
theorem Derives.complete
    {front : List Token} {tree : Cmd} (derives : Derives nonterminal front tree)
    (reads : Reads s (front ++ rest)) (follow : Follow nonterminal rest)
    (enough : 4 * (front ++ rest).length + nonterminal.calls ≤ fuel) :
    wp (nonterminal.parse fuel) (fun parsed s' => parsed = tree ∧ Reads s' rest) Never s := by
  induction derives generalizing s rest fuel with
  | @block inner cmd redirs line ih =>
    obtain ⟨fuel, rfl⟩ := Nat.exists_eq_add_of_le' (Nat.le_of_add_left_le enough)
    simp only [Nonterminal.calls, cons_append, append_assoc, length_cons] at reads enough
    change wp (parseexec (fuel + 2)) _ _ _
    rw [parseexec, wp_bind]
    refine reads.peek (by decide) fun s₁ reads => ?_
    rw [if_pos starts_lpar, parseblock, wp_bind]
    refine reads.peek (by decide) fun s₂ reads => ?_
    rw [if_pos starts_lpar, wp_bind, wp_discard]
    refine reads.gettoken fun s₃ reads => ?_
    refine wp_bind_of (ih reads (.inr rfl) ?_) ?_
    · simp only [Nonterminal.calls]
      omega
    rintro cmd s₄ ⟨rfl, reads⟩
    rw [wp_bind]
    refine reads.peek (by decide) fun s₅ reads => ?_
    rw [if_pos starts_rpar, wp_bind, wp_discard]
    refine reads.gettoken fun s₆ reads => ?_
    refine parseredirs_complete reads (follow.not_starts (by decide)) ?_
    rw [length_append, length_cons] at enough
    omega
  | simple redirs args few =>
    obtain ⟨fuel, rfl⟩ := Nat.exists_eq_add_of_le' (Nat.le_of_add_left_le enough)
    simp only [Nonterminal.calls, append_assoc] at reads enough
    change wp (parseexec (fuel + 2)) _ _ _
    rw [parseexec, wp_bind]
    refine reads.peek (by decide) fun s₁ reads => ?_
    have closed : ¬ starts ['('] (Redirection.sentence redirs ++
          (Argument.sentence args ++ rest)) = true := by
      cases redirs with
      | nil => exact follow.not_starts_arguments args (by decide)
      | cons redir redirs =>
        obtain ⟨operator, file⟩ := redir
        cases operator <;> exact Bool.false_ne_true
    rw [if_neg closed]
    refine wp_bind_of (parseredirs_complete reads
      (follow.not_starts_arguments args (by decide)) (by omega)) ?_
    rintro ret s₂ ⟨rfl, reads⟩
    rw [length_append] at enough
    refine wp_mono (@parseargs_complete _ _ _ args redirs [] reads follow
      (by simpa using few) (by omega)) ?_ fun _ => id
    rintro tree s' ⟨rfl, reads⟩
    exact ⟨by simp, reads⟩
  | last exec ih =>
    obtain ⟨fuel, rfl⟩ := Nat.exists_eq_add_of_le' (Nat.le_of_add_left_le enough)
    simp only [Nonterminal.calls] at enough
    change wp (parsepipe (fuel + 3)) _ _ _
    rw [parsepipe]
    refine wp_bind_of (@ih _ _ (fuel + 2) reads (follow.mono (by decide)) ?_) ?_
    · simp only [Nonterminal.calls]
      omega
    rintro cmd s₁ ⟨rfl, reads⟩
    rw [wp_bind]
    refine reads.peek (by decide) fun s₂ reads => ?_
    rw [if_neg (follow.not_starts (by decide))]
    exact ⟨rfl, reads⟩
  | @pipe front cmd back right exec pipe ihExec ihPipe =>
    obtain ⟨fuel, rfl⟩ := Nat.exists_eq_add_of_le' (Nat.le_of_add_left_le enough)
    simp only [Nonterminal.calls, cons_append, append_assoc] at reads enough
    change wp (parsepipe (fuel + 3)) _ _ _
    rw [parsepipe]
    refine wp_bind_of (@ihExec _ _ (fuel + 2) reads (.inr rfl) ?_) ?_
    · simp only [Nonterminal.calls]
      omega
    rintro cmd s₁ ⟨rfl, reads⟩
    rw [wp_bind]
    refine reads.peek (by decide) fun s₂ reads => ?_
    rw [if_pos starts_bar, wp_bind, wp_discard]
    refine reads.gettoken fun s₃ reads => ?_
    refine wp_bind_of (@ihPipe _ _ (fuel + 2) reads follow ?_) ?_
    · rw [length_append, length_cons] at enough
      simp only [Nonterminal.calls]
      omega
    rintro right s₄ ⟨rfl, reads⟩
    exact ⟨rfl, reads⟩
  | @ends front cmd n pipe ih =>
    obtain ⟨fuel, rfl⟩ := Nat.exists_eq_add_of_le' (Nat.le_of_add_left_le enough)
    simp only [Nonterminal.calls, append_assoc] at reads enough
    change wp (parseline (fuel + 4)) _ _ _
    rw [parseline]
    refine wp_bind_of (@ih _ _ (fuel + 3) reads (follow_replicate (follow.mono (by decide))) ?_) ?_
    · simp only [Nonterminal.calls]
      omega
    rintro cmd s₁ ⟨rfl, reads⟩
    rw [length_append] at enough
    refine wp_bind_of (parseback_complete reads (follow.not_starts (by decide)) (by omega)) ?_
    rintro tree s₂ ⟨rfl, reads⟩
    rw [wp_bind]
    refine reads.peek (by decide) fun s₃ reads => ?_
    rw [if_neg (follow.not_starts (by decide))]
    exact ⟨rfl, reads⟩
  | @list front cmd back right n pipe line ihPipe ihLine =>
    obtain ⟨fuel, rfl⟩ := Nat.exists_eq_add_of_le' (Nat.le_of_add_left_le enough)
    simp only [Nonterminal.calls, cons_append, append_assoc] at reads enough
    change wp (parseline (fuel + 4)) _ _ _
    rw [parseline]
    refine wp_bind_of (@ihPipe _ _ (fuel + 3) reads (follow_replicate (.inr rfl)) ?_) ?_
    · simp only [Nonterminal.calls]
      omega
    rintro cmd s₁ ⟨rfl, reads⟩
    rw [length_append] at enough
    refine wp_bind_of (parseback_complete reads (fun first => by cases first) (by omega)) ?_
    rintro tree s₂ ⟨rfl, reads⟩
    rw [wp_bind]
    refine reads.peek (by decide) fun s₃ reads => ?_
    rw [if_pos starts_semi, wp_bind, wp_discard]
    refine reads.gettoken fun s₄ reads => ?_
    refine wp_bind_of (@ihLine _ _ (fuel + 3) reads follow ?_) ?_
    · rw [length_append, length_cons] at enough
      simp only [Nonterminal.calls]
      omega
    rintro right s₅ ⟨rfl, reads⟩
    exact ⟨rfl, reads⟩

end Complete

/-! ## Command lines -/

section Lines

variable {line : List Char} {fuel : Nat} {tree : Cmd}

/-- Nothing is left at the end of the line, and only there. -/
theorem Reads.skip_eq_nil {left : List Token} (reads : Reads s left) :
    Shell.skip s = [] ↔ left = [] := by
  have skipped := reads.skip
  cases rest : Shell.skip s with
  | nil =>
    rw [rest] at skipped
    exact iff_of_true rfl skipped.tokens_eq.symm
  | cons c s' =>
    rw [rest] at skipped
    have nonzero : c ≠ nul :=
      fun zero => skipped.plain (zero ▸ mem_cons_self)
    obtain ⟨token, later, -, eq, -⟩ := scan_cons (s := s') (head_skip rest) nonzero
    rw [skipped.tokens_eq] at eq
    exact iff_of_false (cons_ne_nil c s') (eq ▸ cons_ne_nil token (tokens later))

theorem length_consWord_le (c : Char) (touches : Bool) (later : List Token) :
    (consWord c touches later).length ≤ later.length + 1 := by
  unfold consWord
  split
  · split <;> simp
  · simp

theorem length_tokens_le (line : List Char) : (tokens line).length ≤ line.length := by
  fun_induction tokens line with
  | case1 => exact Nat.le_refl 0
  | case2 c s blank ih =>
    rw [length_cons]
    omega
  | case3 => simp
  | case4 =>
    simp only [length_cons]
    omega
  | case5 =>
    simp only [length_cons] at *
    omega
  | case6 =>
    simp only [length_cons]
    omega
  | case7 c s visible other letter ih =>
    have joined := length_consWord_le c (s.head?.any wordChar) (tokens s)
    rw [length_cons]
    omega

theorem peek_nothing : peek [] s = .ok (false, skip s) := by
  have returned : wp (peek []) (fun first s' => first = false ∧ s' = skip s) Never s := by
    unfold peek
    rw [wp_bind, wp_get, wp_bind, wp_set, wp_bind, wp_get]
    split
    · exact ⟨rfl, rfl⟩
    · exact ⟨by simp, rfl⟩
  obtain ⟨first, s', peeked, rfl, rfl⟩ := ok_of_wp returned fun _ => id
  exact peeked

theorem parsecmd_of_ok (parsed : parseline fuel line = .ok (tree, s)) : parsecmd fuel line =
      if skip s ≠ [] then .error (.panic "syntax") else .ok tree := by
  have returned : wp (do
      let cmd ← parseline fuel
      discard (peek [])
      return cmd) (fun cmd s' => cmd = tree ∧ s' = skip s) Never line := by
    rw [wp_bind, wp_of_ok parsed, wp_bind, wp_discard, wp_of_ok peek_nothing]
    exact ⟨rfl, rfl⟩
  obtain ⟨cmd, s', peeked, rfl, rfl⟩ := ok_of_wp returned fun _ => id
  unfold parsecmd
  rw [peeked]
  change (if skip s ≠ [] then throw (Stop.panic "syntax") else pure cmd) = _
  split <;> rfl

theorem parsecmd_of_error {stop : Stop} (stopped : parseline fuel line = .error stop) :
    parsecmd fuel line = .error stop := by
  have failed : (do
      let cmd ← parseline fuel
      discard (peek [])
      return cmd : ParseM Cmd) line = .error stop := by
    change (parseline fuel line).bind _ = _
    rw [stopped]
    rfl
  unfold parsecmd
  rw [failed]
  rfl

/-- `parsecmd` returns the one tree that the grammar gives the line, or there is
none and it panics. -/
theorem parsecmd_accepts_sentences (plain : nul ∉ line) (enough : 4 * line.length + 4 ≤ fuel) :
    (∃ tree, parsecmd fuel line = .ok tree ∧
        ∀ other, Derives .line (tokens line) other ↔ other = tree) ∨
      ∃ message, parsecmd fuel line = .error (.panic message) ∧
        ∀ other, ¬ Derives .line (tokens line) other := by
  have reads : Reads line (tokens line) := ⟨plain, rfl⟩
  have short := length_tokens_le line
  have accepted : ∀ other, Derives .line (tokens line) other → parsecmd fuel line = .ok other := by
    intro other derives
    rw [← append_nil (tokens line)] at reads
    have complete : wp (parseline fuel)
        (fun parsed s' => parsed = other ∧ Reads s' []) Never line :=
      derives.complete reads (.inl rfl) (by
        simp only [Nonterminal.calls, append_nil]
        omega)
    obtain ⟨tree, s, parsed, rfl, ended⟩ := ok_of_wp complete fun _ => id
    rw [parsecmd_of_ok parsed, if_neg]
    exact fun some => some (ended.skip_eq_nil.mpr rfl)
  have sound := (sound fuel).line line (tokens line) reads (by omega)
  unfold wp at sound
  cases parsed : parseline fuel line with
  | error stop =>
    rw [parsed] at sound
    have stopped := parsecmd_of_error parsed
    cases stop with
    | fuel => exact absurd rfl sound
    | panic message =>
      refine .inr ⟨message, stopped, fun other derives => ?_⟩
      rw [accepted other derives] at stopped
      cases stopped
  | ok pair =>
    obtain ⟨tree, s⟩ := pair
    rw [parsed] at sound
    obtain ⟨front, rest, split, ended, derives⟩ := sound
    have returned := parsecmd_of_ok parsed
    by_cases done : rest = []
    · rw [if_neg (fun some => some (ended.skip_eq_nil.mpr done))] at returned
      refine .inl ⟨tree, returned, fun other => ⟨fun derives => ?_, ?_⟩⟩
      · rw [accepted other derives] at returned
        exact Except.ok.inj returned
      · rintro rfl
        rw [split, done, append_nil]
        exact derives
    · rw [if_pos (fun none => done (ended.skip_eq_nil.mp none))] at returned
      refine .inr ⟨_, returned, fun other derives => ?_⟩
      rw [accepted other derives] at returned
      cases returned

theorem parsecmd_accepts_sentences_pipeline :
    ∃ tree, parsecmd 100 "a <f b | (c;) &".toList = .ok tree ∧
      ∀ other, Derives .line (tokens "a <f b | (c;) &".toList) other ↔
        other = tree := by
  rcases @parsecmd_accepts_sentences "a <f b | (c;) &".toList 100
    (by decide +kernel) (by decide +kernel) with accepted | refused
  · exact accepted
  · obtain ⟨message, panics, -⟩ := refused
    have parsed : (parsecmd 100 "a <f b | (c;) &".toList).isOk = true := by
      decide +kernel
    rw [panics] at parsed
    cases parsed

end Lines

end Xv6.Shell
