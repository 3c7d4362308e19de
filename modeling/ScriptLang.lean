import ScriptLang.Main
import ScriptLang.Value.Inspect
import ScriptLang.Source.Scanner
import ScriptLang.Token.Reader
import ScriptLang.Parse.Stream
import ScriptLang.Proofs.Eval.Discipline
import ScriptLang.Proofs.Eval.Scoping
import ScriptLang.Proofs.Eval.Allocation
import ScriptLang.Proofs.Eval.Closures
import ScriptLang.Proofs.Eval.Restoration
import ScriptLang.Proofs.Eval.Signals
import ScriptLang.Proofs.Tree.Evaluable
import ScriptLang.Proofs.Tree.Moved
import ScriptLang.Proofs.Parse.Soundness
import ScriptLang.Proofs.Parse.Malformed
import ScriptLang.Proofs.Parse.Completeness
import ScriptLang.Proofs.Parse.Pairing
import ScriptLang.Proofs.Parse.Tracking
import ScriptLang.Proofs.Parse.Shapes
import ScriptLang.Proofs.Eval.Defects
import ScriptLang.Proofs.Source.Shift
import ScriptLang.Proofs.Token.Locality
import ScriptLang.Proofs.Parse.Concatenation
import ScriptLang.Proofs.Eval.Pieces
import ScriptLang.Proofs.Scope.Family
import ScriptLang.Proofs.Scope.Release
import ScriptLang.Proofs.Scope.Evolution
import ScriptLang.Proofs.Eval.Constants
import ScriptLang.Proofs.Eval.Privacy
import ScriptLang.Proofs.Parse.Recovery
import ScriptLang.Proofs.Tree.Nesting
import ScriptLang.Proofs.Token.Coverage
import ScriptLang.Proofs.Parse.Progress
import ScriptLang.Proofs.Eval.Accounting
import ScriptLang.Proofs.Eval.Diagnostics
import ScriptLang.Proofs.Scope.Snapshots
import ScriptLang.Proofs.Scope.Naming
import ScriptLang.Proofs.Eval.CallLimit
import ScriptLang.Proofs.Source.Order
import ScriptLang.Proofs.Source.LineBreaks
import ScriptLang.Proofs.Token.Widths
import ScriptLang.Proofs.Parse.Buffer
import ScriptLang.Proofs.Parse.Relocation
import ScriptLang.Proofs.Parse.Layout
import ScriptLang.Proofs.Eval.Layout
import ScriptLang.Proofs.Eval.LineBreaks
import ScriptLang.Proofs.Scope.Layers
import ScriptLang.Proofs.Token.Boundaries
import ScriptLang.Proofs.Token.Limits
import ScriptLang.Proofs.Token.Lines
import ScriptLang.Proofs.Value.Power
import ScriptLang.Proofs.Token.Words
import ScriptLang.Proofs.Tree.Outline
import ScriptLang.Proofs.Parse.Rows
import ScriptLang.Proofs.Parse.Spans
import ScriptLang.Proofs.Parse.Following
import ScriptLang.Proofs.Parse.Endings
import ScriptLang.Proofs.Parse.Resting
import ScriptLang.Proofs.Parse.Patterns
import ScriptLang.Proofs.Parse.Branches
import ScriptLang.Proofs.Token.Admission
import ScriptLang.Proofs.Token.Escapes
import ScriptLang.Proofs.Token.DigitCount
import ScriptLang.Proofs.Token.Reading
import ScriptLang.Proofs.Token.DigitRuns
import ScriptLang.Proofs.Token.Quotation
import ScriptLang.Proofs.Eval.Limits
import ScriptLang.Proofs.Eval.Integers
import ScriptLang.Proofs.Eval.Counting
import ScriptLang.Proofs.Token.Symbols
import ScriptLang.Proofs.Token.Closers
import ScriptLang.Proofs.Number.Order
import ScriptLang.Proofs.Value.Order
import ScriptLang.Proofs.Eval.Matching
import ScriptLang.Proofs.Source.Places
import ScriptLang.Proofs.Eval.Compound
