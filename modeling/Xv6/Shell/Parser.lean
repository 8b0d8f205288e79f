import Xv6.Shell.Tokens

/-!
# The parser of the shell

The functions of `sh.c` that make a command tree of a line.  They recurse with
fuel; `Stop.fuel` is the result of too little of it.
-/

namespace Xv6.Shell

/-- `MAXARGS`. -/
abbrev maxargs : Nat := 20

/-- Command trees. -/
inductive Cmd where
  | exec (argv : List (List Char))
  | redir (cmd : Cmd) (file : List Char) (mode fd : Nat)
  | pipe (left right : Cmd)
  | list (left right : Cmd)
  | back (cmd : Cmd)
  deriving DecidableEq

/-- Another word for the `execcmd` under redirections. -/
def Cmd.addArg (arg : List Char) : Cmd → Cmd
  | .exec argv => .exec (argv ++ [arg])
  | .redir cmd file mode fd => .redir (cmd.addArg arg) file mode fd
  | cmd => cmd

/-- The `switch` of `parseredirs`. -/
def redirect (tok : Char) (cmd : Cmd) (file : List Char) : Cmd :=
  if tok = '<' then .redir cmd file 0x000 0
  else if tok = '>' then .redir cmd file 0x201 1
  else if tok = '+' then .redir cmd file 0x201 1
  else cmd

/-- `parseredirs`. -/
def parseredirs : Nat → Cmd → ParseM Cmd
  | 0, _ => throw .fuel
  | fuel + 1, cmd => do
    if ← peek ['<', '>'] then
      let (tok, _) ← gettoken
      let (word, file) ← gettoken
      if word ≠ 'a' then throw (.panic "missing file for redirection")
      else parseredirs fuel (redirect tok cmd file)
    else return cmd

/-- The loop of `parseexec`. -/
def parseargs : Nat → Nat → Cmd → ParseM Cmd
  | 0, _, _ => throw .fuel
  | fuel + 1, argc, ret => do
    if ← peek ['|', ')', '&', ';'] then return ret
    else
      let (tok, arg) ← gettoken
      if tok = nul then return ret
      else if tok ≠ 'a' then throw (.panic "syntax")
      else if maxargs ≤ argc + 1 then throw (.panic "too many args")
      else
        let ret ← parseredirs fuel (ret.addArg arg)
        parseargs fuel (argc + 1) ret

/-- The loop of `parseline`. -/
def parseback : Nat → Cmd → ParseM Cmd
  | 0, _ => throw .fuel
  | fuel + 1, cmd => do
    if ← peek ['&'] then
      discard gettoken
      parseback fuel (.back cmd)
    else return cmd

mutual

/-- `parseline`. -/
def parseline : Nat → ParseM Cmd
  | 0 => throw .fuel
  | fuel + 1 => do
    let cmd ← parsepipe fuel
    let cmd ← parseback fuel cmd
    if ← peek [';'] then
      discard gettoken
      let right ← parseline fuel
      return .list cmd right
    else return cmd

/-- `parsepipe`. -/
def parsepipe : Nat → ParseM Cmd
  | 0 => throw .fuel
  | fuel + 1 => do
    let cmd ← parseexec fuel
    if ← peek ['|'] then
      discard gettoken
      let right ← parsepipe fuel
      return .pipe cmd right
    else return cmd

/-- `parseblock`. -/
def parseblock : Nat → ParseM Cmd
  | 0 => throw .fuel
  | fuel + 1 => do
    if ← peek ['('] then
      discard gettoken
      let cmd ← parseline fuel
      if ← peek [')'] then
        discard gettoken
        parseredirs fuel cmd
      else throw (.panic "syntax - missing )")
    else throw (.panic "parseblock")

/-- `parseexec`. -/
def parseexec : Nat → ParseM Cmd
  | 0 => throw .fuel
  | fuel + 1 => do
    if ← peek ['('] then parseblock fuel
    else
      let ret ← parseredirs fuel (.exec [])
      parseargs fuel 0 ret

end

/-- `parsecmd`. -/
def parsecmd (fuel : Nat) (line : List Char) : Except Stop Cmd := do
  let (cmd, s) ← (do
    let cmd ← parseline fuel
    discard (peek [])
    return cmd : ParseM Cmd) line
  if s ≠ [] then throw (.panic "syntax")
  else return cmd

example : parsecmd 100 "a <f b | (c;) &".toList =
    .ok (.back (.pipe (.redir (.exec ["a".toList, "b".toList]) "f".toList 0 0)
      (.list (.exec ["c".toList]) (.exec [])))) := by
  decide +kernel

end Xv6.Shell
