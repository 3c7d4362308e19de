import ScriptLang.Interpreter

/-!
# Reports

Whatever was noticed about a script, in whichever phase, becomes a `Diagnostic` with
a code that stays the same when the wording changes.  A `Report` collects them for
one file, in the order of their places, with the counts of the run.  It succeeded if
no diagnostic is an error.

A report is written as text, one line for each diagnostic, or as JSON.
-/

namespace ScriptLang

/-- The code of a lexical error. -/
def LexicalError.code : LexicalError → String
  | .unknownToken _ => "L0001"
  | .unexpectedEndOfText => "L0002"
  | .invalidRadixMark _ => "L0003"
  | .missingRadixDigits => "L0004"
  | .numberTooLarge => "L0005"
  | .missingExponent => "L0006"
  | .lexemeTooLong _ => "L0007"

/-- The code of a lexical warning. -/
def LexicalWarning.code : LexicalWarning → String
  | .unknownEscape _ => "L1001"
  | .missingCharCode => "L1002"

/-- The code of a parse error. -/
def ParseError.code : ParseError → String
  | .unexpectedToken .. => "S0001"
  | .expectedExpression _ => "S0002"
  | .expectedType _ => "S0003"
  | .constWithoutValue _ => "S0004"
  | .duplicateParameter _ => "S0005"
  | .duplicateDefault => "S0006"
  | .invalidTarget => "S0007"

/-- The code of a parse warning. -/
def ParseWarning.code : ParseWarning → String
  | .nullValue _ => "S1001"
  | .ignoredResult => "S1002"

/-- The code of a fault. -/
def Fault.code : Fault → String
  | .undefinedVariable _ => "R0001"
  | .alreadyDefined _ => "R0002"
  | .assignmentToConst _ => "R0003"
  | .breakOutsideLoop => "R0004"
  | .returnOutsideFunction => "R0005"
  | .nullArgument _ => "R0006"
  | .argumentCount .. => "R0007"
  | .zeroDivision => "R0008"
  | .notCallable _ => "R0009"
  | .unsupportedOperands .. => "R0010"
  | .unsupportedOperand .. => "R0011"
  | .expectedBoolean _ => "R0012"
  | .invalidCast .. => "R0013"
  | .invalidAccess _ => "R0014"
  | .unknownNamespace _ => "R0015"
  | .unknownMember .. => "R0016"
  | .invalidRangeBound _ => "R0017"
  | .invalidRangeStep => "R0018"
  | .invalidTarget => "R0019"
  | .callDepth _ => "R0020"
  | .host .. => "R0021"
  | .internal _ => "R9999"

/-- Whether a diagnostic stands in the way. -/
inductive Severity
  | error | warning
deriving DecidableEq, Repr

/-- How a severity is written. -/
def Severity.text : Severity → String
  | .error => "error"
  | .warning => "warning"

/-- The phase in which something was noticed. -/
inductive Phase
  | lexical | parsing | running
deriving DecidableEq, Repr

/-- How a phase is written. -/
def Phase.text : Phase → String
  | .lexical => "lexical"
  | .parsing => "syntax"
  | .running => "runtime"

/-- Something noticed about a script. -/
structure Diagnostic where
  code : String
  severity : Severity
  phase : Phase
  message : String
  position : Position
deriving DecidableEq, Repr

namespace Diagnostic

/-- The diagnostic of a lexical error. -/
def ofLexicalError (e : Located LexicalError) : Diagnostic :=
  ⟨e.what.code, .error, .lexical, e.what.message, e.position⟩

/-- The diagnostic of a lexical warning. -/
def ofLexicalWarning (w : Located LexicalWarning) : Diagnostic :=
  ⟨w.what.code, .warning, .lexical, w.what.message, w.position⟩

/-- The diagnostic of a parse error. -/
def ofParseError (e : Located ParseError) : Diagnostic :=
  ⟨e.what.code, .error, .parsing, e.what.message, e.position⟩

/-- The diagnostic of a parse warning. -/
def ofParseWarning (w : Located ParseWarning) : Diagnostic :=
  ⟨w.what.code, .warning, .parsing, w.what.message, w.position⟩

/-- The diagnostic of a fault. -/
def ofFault (f : Located Fault) : Diagnostic :=
  ⟨f.what.code, .error, .running, f.what.message, f.position⟩

/-- The diagnostics of a parse: lexical errors, lexical warnings, parse errors,
parse warnings. -/
def ofParse {σ : Type} [TokenSource σ] (s : σ) : List Diagnostic :=
  let found := TokenSource.findings s
  found.lexicalErrors.map ofLexicalError ++
    found.lexicalWarnings.map ofLexicalWarning ++
    found.errors.toList.map ofParseError ++ found.warnings.toList.map ofParseWarning

/-- A diagnostic as one line of text. -/
def text (file : String) (d : Diagnostic) : String :=
  file ++ ":" ++ d.position.text ++ ": " ++ d.severity.text ++ ": " ++ d.message

end Diagnostic

/-- What is reported about one file. -/
structure Report where
  file : String
  /-- Whether no error has been reported. -/
  success : Bool := true
  diagnostics : List Diagnostic := []
  stats : Stats
deriving DecidableEq, Repr

namespace Report

/-- Reports one thing more. -/
def push (r : Report) (d : Diagnostic) : Report :=
  { r with
    success := if d.severity = .error then false else r.success
    diagnostics := r.diagnostics ++ [d] }

/-- Brings the diagnostics into the order of their places; at one place they keep
the order in which they were reported. -/
def sort (r : Report) : Report :=
  { r with
    diagnostics :=
      r.diagnostics.mergeSort fun a b => a.position.offset ≤ b.position.offset }

/-- The report with the given diagnostics, one after the other, in the order of
their places. -/
def of (file : String) (diagnostics : List Diagnostic) (stats : Stats) : Report :=
  (diagnostics.foldl push { file, stats }).sort

/-- The report on a script that was parsed and not run. -/
def ofParse {σ : Type} [TokenSource σ] (file : String) (s : σ)
    (stats : Stats) : Report :=
  of file (Diagnostic.ofParse s) stats

/-- The report on a run. -/
def ofRun {σ : Type} [TokenSource σ] (file : String)
    (p : Interpreter.Progress σ) : Report :=
  of file (Diagnostic.ofParse p.parser ++
    p.interpreter.faults.toList.map Diagnostic.ofFault) p.stats

/-- Diagnostics that are pushed one after the other stand in this order. -/
theorem diagnostics_foldl_push (r : Report) (diagnostics : List Diagnostic) :
    (diagnostics.foldl push r).diagnostics = r.diagnostics ++ diagnostics := by
  induction diagnostics generalizing r with
  | nil => exact (List.append_nil _).symm
  | cons d diagnostics ih =>
      rw [List.foldl_cons, ih]
      exact List.append_assoc r.diagnostics [d] diagnostics

/-- The flag says whether none of what was pushed is an error. -/
theorem success_foldl_push (r : Report) (diagnostics : List Diagnostic) :
    (diagnostics.foldl push r).success =
      (r.success && diagnostics.all fun d => d.severity ≠ .error) := by
  induction diagnostics generalizing r with
  | nil => exact (Bool.and_true _).symm
  | cons d diagnostics ih =>
      rw [List.foldl_cons, ih, List.all_cons, push]
      by_cases herror : d.severity = .error <;> simp [herror]

/-- Sorting a report loses no diagnostic and adds none. -/
theorem diagnostics_of_perm (file : String) (diagnostics : List Diagnostic)
    (stats : Stats) :
    (of file diagnostics stats).diagnostics.Perm diagnostics := by
  have hperm :=
    List.mergeSort_perm (diagnostics.foldl push { file, stats }).diagnostics
    fun a b => a.position.offset ≤ b.position.offset
  rw [diagnostics_foldl_push] at hperm
  rw [of, sort, diagnostics_foldl_push]
  exact hperm

/-- A report is a success if no diagnostic in it is an error. -/
theorem success_of (file : String) (diagnostics : List Diagnostic) (stats : Stats) :
    (of file diagnostics stats).success =
      (of file diagnostics stats).diagnostics.all fun d => d.severity ≠ .error := by
  rw [(diagnostics_of_perm file diagnostics stats).all_eq]
  exact success_foldl_push { file, stats } diagnostics

/-- The report as lines of text. -/
def text (r : Report) : String :=
  String.join (r.diagnostics.map fun d => d.text r.file ++ "\n")

end Report

end ScriptLang
