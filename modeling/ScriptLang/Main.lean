import ScriptLang.Command

/-!
# The command line

`run FILE`, `tokens FILE` and `check FILE`, with the options `--max-lexeme-length
N`, `--max-call-depth N` and `--format text|json` anywhere among them.
-/

namespace ScriptLang

/-- What the arguments ask for. -/
structure Invocation where
  command : Option Command := none
  file : Option String := none
  options : Options := {}

/-- How the program is used. -/
def usage : String :=
  "usage: run|tokens|check FILE [--max-lexeme-length N] [--max-call-depth N] [--format text|json]"

/-- A command by its name. -/
def Command.ofText? : String → Option Command
  | "run" => some .run
  | "tokens" => some .tokens
  | "check" => some .check
  | _ => none

/-- Reads the arguments from left to right; `none` when they make no sense. -/
def Invocation.read? (i : Invocation) : List String → Option Invocation
  | [] => some i
  | "--max-lexeme-length" :: n :: rest =>
    n.toNat?.bind fun n =>
      Invocation.read? { i with options := { i.options with maxLexemeLength := n } }
        rest
  | "--max-call-depth" :: n :: rest =>
    n.toNat?.bind fun n =>
      Invocation.read? { i with options := { i.options with limits := ⟨n⟩ } } rest
  | "--format" :: "text" :: rest =>
    Invocation.read? { i with options := { i.options with format := .text } } rest
  | "--format" :: "json" :: rest =>
    Invocation.read? { i with options := { i.options with format := .json } } rest
  | word :: rest =>
    match i.command, i.file with
    | none, _ =>
      (Command.ofText? word).bind fun command =>
        Invocation.read? { i with command := some command } rest
    | some _, none => Invocation.read? { i with file := some word } rest
    | some _, some _ => none

/-- The number of steps that the command line allows: more than any run can take. -/
def unbounded : Nat := 0x4000000000000000

/-- The script in a file, or why it cannot be read. -/
def readScript (file : String) : IO (Except ReadError String) := do
  try
    return scriptOfBytes (← IO.FS.readBinFile file)
  catch e =>
    match e with
    | .noFileOrDirectory .. => return .error .missing
    | e => return .error (.other (toString e))

end ScriptLang

open ScriptLang in
/-- Carries out the command that the arguments name. -/
def main (arguments : List String) : IO UInt32 := do
  match Invocation.read? {} arguments with
  | some { command := some command, file := some file, options } =>
    let result := command.execute unbounded options file (← readScript file)
    IO.print result.output
    IO.eprint result.errors
    return result.exitCode.toUInt32
  | _ =>
    IO.eprintln usage
    return 2
