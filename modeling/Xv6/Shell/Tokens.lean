import Xv6.Foundation.Program
import Mathlib.Data.List.DropRight
import Mathlib.Tactic.FinCases

/-!
# Tokens of the shell

`gettoken` and `peek` of `sh.c`.  A line is a list of characters, and the cursor
of the parser is what is left of it.  After the line stands a NUL.
-/

namespace Xv6.Shell

open List Foundation.Program

/-- The character after the line. -/
abbrev nul : Char := Char.ofNat 0

/-- `whitespace`. -/
def whitespace : List Char :=
  [' ', '\t', '\r', '\n', Char.ofNat 11]

/-- `symbols`. -/
def symbols : List Char :=
  ['<', '|', '>', '&', ';', '(', ')']

/-- How parsing stops other than with a tree. -/
inductive Stop where
  | panic (message : String)
  | fuel
  deriving DecidableEq

/-- Code that moves the cursor. -/
abbrev ParseM := StateT (List Char) (Except Stop)

/-- The loop over white space. -/
def skip (s : List Char) : List Char :=
  s.dropWhile fun c => c ∈ whitespace

/-- A character of a word. -/
def wordChar (c : Char) : Bool :=
  c ∉ whitespace ∧ c ∉ symbols

/-- The `switch` of `gettoken`: what it returns, the text from `q` to `eq`, and
the cursor. -/
def scan : List Char → Char × List Char × List Char
  | [] => (nul, [], [])
  | c :: s =>
    if c = nul then (nul, [], c :: s)
    else if c ∈ ['|', '(', ')', ';', '&', '<'] then (c, [c], s)
    else if c = '>' then
      match s with
      | [] => ('>', ['>'], [])
      | d :: rest =>
        if d = '>' then ('+', ['>', '>'], rest)
        else ('>', ['>'], d :: rest)
    else ('a', (c :: s).takeWhile wordChar, (c :: s).dropWhile wordChar)

/-- `gettoken`: its result and the text of the token. -/
def gettoken : ParseM (Char × List Char) := do
  let (ret, text, s) := scan (skip (← get))
  set (skip s)
  return (ret, text)

/-- `peek`. -/
def peek (toks : List Char) : ParseM Bool := do
  set (skip (← get))
  match skip (← get) with
  | [] => return false
  | c :: _ => return c ≠ nul ∧ c ∈ toks

/-! ## What the tokens of a line are -/

/-- The tokens that are not words. -/
inductive Symbol where
  | less
  | greater
  | append
  | bar
  | amp
  | semi
  | lpar
  | rpar
  deriving DecidableEq

/-- Tokens. -/
inductive Token where
  | word (text : List Char)
  | symbol (name : Symbol)
  deriving DecidableEq

/-- The text of a symbol. -/
def Symbol.text : Symbol → List Char
  | .less => ['<']
  | .greater => ['>']
  | .append => ['>', '>']
  | .bar => ['|']
  | .amp => ['&']
  | .semi => [';']
  | .lpar => ['(']
  | .rpar => [')']

/-- What `gettoken` returns for a token. -/
def Token.kind : Token → Char
  | .word _ => 'a'
  | .symbol .append => '+'
  | .symbol name => name.text.headD nul

/-- The text of a token. -/
def Token.text : Token → List Char
  | .word text => text
  | .symbol name => name.text

/-- The token starts with one of the symbols. -/
def Token.starts (toks : List Char) : Token → Bool
  | .word _ => false
  | .symbol name => name.text.headD nul ∈ toks

/-- The symbols of one character, but for `>`. -/
def single (c : Char) : Option Symbol :=
  [Symbol.less, .bar, .amp, .semi, .lpar, .rpar].find? fun name =>
    name.text = [c]

/-- A character before tokens: part of a first word that it touches, or a word
of its own. -/
def consWord (c : Char) (touches : Bool) : List Token → List Token
  | .word text :: tokens =>
    if touches then .word (c :: text) :: tokens
    else .word [c] :: .word text :: tokens
  | tokens => .word [c] :: tokens

/-- The tokens of a line. -/
def tokens : List Char → List Token
  | [] => []
  | c :: s =>
    if c ∈ whitespace then tokens s
    else if c = '>' then
      match s with
      | [] => [.symbol .greater]
      | d :: rest =>
        if d = '>' then .symbol .append :: tokens rest
        else .symbol .greater :: tokens (d :: rest)
    else
      match single c with
      | some name => .symbol name :: tokens s
      | none => consWord c (s.head?.any wordChar) (tokens s)

example : tokens "ls -l>>f (a;b)&".toList =
    [.word "ls".toList, .word "-l".toList, .symbol .append, .word "f".toList,
      .symbol .lpar, .word "a".toList, .symbol .semi, .word "b".toList,
      .symbol .rpar, .symbol .amp] := by
  decide +kernel

/-! ## `gettoken` and `peek` read the tokens -/

theorem tokens_skip (s : List Char) : tokens (skip s) = tokens s := by
  induction s with
  | nil => rfl
  | cons c s ih =>
    by_cases blank : c ∈ whitespace
    · rw [skip, dropWhile_cons_of_pos (by simpa using blank), ← skip, ih]
      conv_rhs => unfold tokens
      rw [if_pos blank]
    · rw [skip, dropWhile_cons_of_neg (by simpa using blank)]

theorem skip_suffix (s : List Char) : skip s <:+ s :=
  dropWhile_suffix _

variable {s : List Char} {c : Char}

theorem head_skip {rest : List Char} (skipped : skip s = c :: rest) : c ∉ whitespace := by
  have stopped := head?_dropWhile_not (fun c => decide (c ∈ whitespace)) s
  rw [← skip, skipped] at stopped
  simpa using stopped

theorem wordChar_iff : wordChar c = true ↔ c ∉ whitespace ∧ c ∉ symbols := by
  simp [wordChar]

theorem single_eq_none (letter : c ∉ symbols) : single c = none := by
  simp only [symbols, mem_cons, not_or] at letter
  simp only [single, Symbol.text, find?_eq_none]
  intro name member
  fin_cases member <;> simp <;> grind

/-- A character of a word comes before the tokens of the rest. -/
theorem tokens_letter (letter : wordChar c = true) :
    tokens (c :: s) = consWord c (s.head?.any wordChar) (tokens s) := by
  obtain ⟨visible, plain⟩ := wordChar_iff.mp letter
  have other : c ≠ '>' := by
    rintro rfl
    exact plain (by decide)
  rw [tokens.eq_def]
  dsimp only
  rw [if_neg visible, if_neg other, single_eq_none plain]

theorem tokens_word {text rest : List Char} (letters : ∀ d ∈ c :: text, wordChar d = true)
    (ends : rest.head?.any wordChar = false) :
    tokens (c :: text ++ rest) = .word (c :: text) :: tokens rest := by
  induction text generalizing c with
  | nil =>
    rw [cons_append, tokens_letter (letters c mem_cons_self), nil_append, ends]
    cases tokens rest with
    | nil => rfl
    | cons token tokens => cases token <;> rfl
  | cons d text ih =>
    have here := ih fun e member => letters e (mem_cons_of_mem _ member)
    have next : wordChar d = true := letters d (by simp)
    rw [cons_append, tokens_letter (letters c mem_cons_self), here,
      cons_append, head?_cons, Option.any_some, next]
    rfl

/-- What `gettoken` finds at a character that is not white space. -/
theorem scan_cons (visible : c ∉ whitespace) (nonzero : c ≠ nul) :
    ∃ token rest, scan (c :: s) = (token.kind, token.text, rest) ∧
      tokens (c :: s) = token :: tokens rest ∧ rest <:+ c :: s ∧
      ∀ toks ⊆ symbols, (c ∈ toks ↔ token.starts toks = true) := by
  by_cases isSingle : c ∈ ['|', '(', ')', ';', '&', '<']
  · obtain ⟨name, found, kind, text⟩ : ∃ name, single c = some name ∧
        (Token.symbol name).kind = c ∧ name.text = [c] := by
      fin_cases isSingle <;> exact ⟨_, rfl, rfl, rfl⟩
    have other : c ≠ '>' := by
      rintro rfl
      exact absurd isSingle (by decide)
    refine ⟨.symbol name, s, ?_, ?_, suffix_cons c s, fun toks _ => ?_⟩
    · rw [scan.eq_def]
      dsimp only
      rw [if_neg nonzero, if_pos isSingle, kind, Token.text, text]
    · rw [tokens.eq_def]
      dsimp only
      rw [if_neg visible, if_neg other, found]
    · simp [Token.starts, text]
  · by_cases greater : c = '>'
    · subst greater
      cases s with
      | nil =>
        exact ⟨.symbol .greater, [], rfl, rfl, nil_suffix,
          fun toks _ => by simp [Token.starts, Symbol.text]⟩
      | cons d rest =>
        by_cases double : d = '>'
        · subst double
          exact ⟨.symbol .append, rest, rfl, rfl, (suffix_cons _ _).trans (suffix_cons _ _),
            fun toks _ => by simp [Token.starts, Symbol.text]⟩
        · refine ⟨.symbol .greater, d :: rest, ?_, ?_, suffix_cons _ _,
            fun toks _ => by simp [Token.starts, Symbol.text]⟩
          · rw [scan, if_neg nonzero, if_neg isSingle, if_pos rfl]
            rw [if_neg double]
            rfl
          · rw [tokens.eq_def]
            dsimp only
            rw [if_neg visible, if_pos rfl, if_neg double]
    · have plain : c ∉ symbols := by
        simp only [symbols, mem_cons] at *
        grind
      have letter : wordChar c = true := wordChar_iff.mpr ⟨visible, plain⟩
      refine ⟨.word ((c :: s).takeWhile wordChar),
        (c :: s).dropWhile wordChar, ?_, ?_, dropWhile_suffix _,
        fun toks within => ?_⟩
      · rw [scan.eq_def]
        dsimp only
        rw [if_neg nonzero, if_neg isSingle, if_neg greater]
        rfl
      · have ends := head?_dropWhile_not wordChar s
        rw [takeWhile_cons_of_pos letter, dropWhile_cons_of_pos letter,
          ← tokens_word, cons_append, takeWhile_append_dropWhile]
        · intro d member
          rcases mem_cons.mp member with rfl | member
          · exact letter
          · exact mem_takeWhile_imp member
        · cases head : (s.dropWhile wordChar).head? with
          | none => rfl
          | some d =>
            rw [head] at ends
            simpa using ends
      · exact iff_of_false (fun member => plain (within member)) Bool.false_ne_true

/-- The tokens that are still to be read at a cursor. -/
structure Reads (s : List Char) (left : List Token) : Prop where
  plain : nul ∉ s
  tokens_eq : tokens s = left

/-- The first of some tokens starts with one of the symbols. -/
def starts (toks : List Char) : List Token → Bool
  | [] => false
  | token :: _ => token.starts toks

section Rules

variable {s : List Char} {left : List Token} {stops : Stop → Prop}

theorem Reads.skip (reads : Reads s left) : Reads (skip s) left where
  plain := fun member => reads.plain ((skip_suffix s).mem member)
  tokens_eq := by rw [tokens_skip, reads.tokens_eq]

theorem Reads.peek (reads : Reads s left) {toks : List Char} (within : toks ⊆ symbols)
    {post : Bool → List Char → Prop} (after : ∀ s', Reads s' left → post (starts toks left) s') :
      wp (peek toks) post stops s := by
  have skipped := reads.skip
  have twice : Shell.skip (Shell.skip s) = Shell.skip s := dropWhile_idempotent _ s
  unfold Shell.peek
  simp only [wp_bind, wp_get, wp_set, twice]
  cases rest : Shell.skip s with
  | nil =>
    rw [rest] at skipped
    obtain rfl : [] = left := skipped.tokens_eq
    exact after [] skipped
  | cons c s' =>
    rw [rest] at skipped
    have nonzero : c ≠ nul :=
      fun zero => skipped.plain (zero ▸ mem_cons_self)
    obtain ⟨token, later, -, eq, -, iff⟩ := scan_cons (s := s') (head_skip rest) nonzero
    have first : decide (c ≠ nul ∧ c ∈ toks) = starts toks left := by
      rw [← skipped.tokens_eq, eq, starts, Bool.eq_iff_iff, ← iff toks within]
      simp [nonzero]
    rw [wp_pure, first]
    exact after _ skipped

variable {post : Char × List Char → List Char → Prop}

theorem wp_gettoken
    (after : post ((scan (skip s)).1, (scan (skip s)).2.1) (skip (scan (skip s)).2.2)) :
    wp gettoken post stops s :=
  after

theorem Reads.gettoken_nil (reads : Reads s [])
    (after : ∀ s', Reads s' [] → post (nul, []) s') : wp gettoken post stops s := by
  have skipped := reads.skip
  apply wp_gettoken
  cases rest : Shell.skip s with
  | nil => exact after [] (rest ▸ skipped)
  | cons c s' =>
    rw [rest] at skipped
    have nonzero : c ≠ nul :=
      fun zero => skipped.plain (zero ▸ mem_cons_self)
    obtain ⟨token, later, -, eq, -⟩ := scan_cons (s := s') (head_skip rest) nonzero
    rw [skipped.tokens_eq] at eq
    cases eq

theorem Reads.gettoken {token : Token} (reads : Reads s (token :: left))
    (after : ∀ s', Reads s' left → post (token.kind, token.text) s') :
    wp gettoken post stops s := by
  have skipped := reads.skip
  apply wp_gettoken
  cases rest : Shell.skip s with
  | nil =>
    rw [rest] at skipped
    cases skipped.tokens_eq
  | cons c s' =>
    rw [rest] at skipped
    have nonzero : c ≠ nul :=
      fun zero => skipped.plain (zero ▸ mem_cons_self)
    obtain ⟨found, later, scanned, eq, suffix, -⟩ := scan_cons (s := s') (head_skip rest) nonzero
    rw [skipped.tokens_eq] at eq
    cases eq
    rw [scanned]
    have unread : Reads later (tokens later) :=
      ⟨fun member => skipped.plain (suffix.mem member), rfl⟩
    exact after _ unread.skip

end Rules

end Xv6.Shell
