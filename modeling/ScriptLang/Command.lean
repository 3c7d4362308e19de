import ScriptLang.Character.Quoted
import ScriptLang.Host.Library
import ScriptLang.Json
import ScriptLang.Parse.Stream

/-!
# The commands

Three commands work on a script: `run` runs it, `tokens` prints its tokens, and
`check` parses it without running it.  Each writes to the standard output and
reports on the standard error, and ends with 0 when no error was reported and with 1
otherwise.  A file that cannot be read ends a command with 2.
-/

namespace ScriptLang

/-- The commands. -/
inductive Command
  | run | tokens | check
deriving DecidableEq, Repr

/-- How reports are written. -/
inductive Format
  | text | json
deriving DecidableEq, Repr

/-- What can be set for a command. -/
structure Options where
  format : Format := .text
  maxLexemeLength : Nat := Limits.defaultLexemeLength
  limits : Limits := {}
deriving DecidableEq, Repr

/-- Why a file cannot be read. -/
inductive ReadError
  | missing
  | notText
  /-- Any other reason, in the words of the system. -/
  | other (reason : String)
deriving DecidableEq, Repr

/-- The wording of a read error. -/
def ReadError.reason : ReadError → String
  | .missing => "No such file or directory (os error 2)"
  | .notText => "stream did not contain valid UTF-8"
  | .other reason => reason

/-- The script in a file, given its bytes. -/
def scriptOfBytes (bytes : ByteArray) : Except ReadError String :=
  match String.fromUTF8? bytes with
  | some source => .ok source
  | none => .error .notText

/-- What a command leaves behind. -/
structure CommandResult where
  exitCode : Nat
  output : String
  errors : String
deriving DecidableEq, Repr

namespace Command

/-- The result of a command that has a report to write. -/
def finish (format : Format) (output : String) (r : Report) : CommandResult :=
  { exitCode := if r.success then 0 else 1
    output
    errors :=
      match format with
      | .text => r.text
      | .json => r.jsonText ++ "\n" }

/-- Runs a script with the standard functions of the host. -/
def runScript (fuel : Nat) (options : Options)
    (file source : String) : CommandResult :=
  let i := (Registry.standard.install (Interpreter.new options.limits)).2
  let progress := i.runScript fuel (Parser.ofText options.maxLexemeLength source)
  finish options.format progress.interpreter.machine.console.written
    (Report.ofRun file progress)

/-- The number of outcomes that are no cleanly parsed statement. -/
def skippedCount (outcomes : List ParseOutcome) : Nat :=
  outcomes.countP fun o => o.statement.isNone || !o.success

/-- Parses a script. -/
def checkScript (options : Options) (file source : String) : CommandResult :=
  let (outcomes, parser) :=
    TokenSource.outcomes (Parser.ofText options.maxLexemeLength source)
  finish options.format ""
    (Report.ofParse file parser { skipped := skippedCount outcomes })

/-- The content of a token as the command prints it. -/
def contentText : Lexeme → String
  | .unknown text | .identifier text | .string text
  | .lineComment text | .blockComment text =>
    " " ++ Character.quote text
  | .integer value => " " ++ toString value.toNat
  | .float value => " " ++ Number.plain value
  | .endOfText | .keyword _ | .symbol _ => ""

/-- A token as the command prints it. -/
def tokenLine (t : Token) : String :=
  t.span.start.text ++ " " ++ t.kind.text ++ contentText t.lexeme ++ "\n"

/-- The diagnostics of one token. -/
def tokenDiagnostics (n : Notes) : List Diagnostic :=
  n.error.toList.map Diagnostic.ofLexicalError ++
    n.warnings.map Diagnostic.ofLexicalWarning

/-- Prints the tokens of a script. -/
def printTokens (options : Options) (file source : String) : CommandResult :=
  let tokens := (Lexer.ofText options.maxLexemeLength source).tokens
  finish options.format (String.join (tokens.map fun l => tokenLine l.token))
    (Report.of file (tokens.flatMap fun l => tokenDiagnostics l.notes) {})

/-- Carries out a command on a file. -/
def execute (fuel : Nat) (command : Command) (options : Options) (file : String) :
    Except ReadError String → CommandResult
  | .error e =>
      ⟨2, "", "Error: failed to read " ++ file ++ ": " ++ e.reason ++ "\n"⟩
  | .ok source =>
    match command with
    | .run => runScript fuel options file source
    | .tokens => printTokens options file source
    | .check => checkScript options file source

end Command

end ScriptLang
