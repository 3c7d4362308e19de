import ScriptLang.Parse.State
import ScriptLang.Tree.Basic

/-!
# The grammar

Every rule of the grammar is a parser that is given, as `Rules`, the parsers of what
may be nested in it.  A rule uses these only behind a token of its own, so each
layer of nesting takes at least one token, and `Rules.upTo n` is enough for texts of
fewer than `n` tokens.

The binary operators form a ladder.  From loosest to tightest:

1. assignment, to the right;
2. `??`, then `?>`, then `||`, then `&&`, to the left;
3. `is` and `is not`, with a type on the right;
4. comparisons, then `..`, then `+ -`, then `* / %`, to the left;
5. the signs `+ - !`;
6. `^`, to the right, whose right operand may carry a sign;
7. calls and members.

`leftAssoc` is one rung of the ladder on top of the tighter ones.
-/

namespace ScriptLang

/-- The parsers of what may be nested in an expression. -/
structure Rules (σ : Type) where
  expression : ParseOn σ Expr
  /-- An operand with its signs. -/
  signed : ParseOn σ Expr
  /-- The operands of comparisons. -/
  comparand : ParseOn σ Expr
  pattern : ParseOn σ Expr
  statement : ParseOn σ Stmt

namespace Grammar

open Parse

variable {σ : Type} [TokenSource σ]

/-! ## Kinds of tokens -/

/-- The type that a token names. -/
def typeName? : TokenKind → Option TypeName
  | .keyword .int => some .int
  | .keyword .float => some .float
  | .keyword .string => some .string
  | .keyword .bool => some .bool
  | .keyword .function => some .function
  | .keyword .null => some .null
  | _ => none

/-- Assignments. -/
def assignment? : TokenKind → Option Operator
  | .symbol .assign => some .assign
  | .symbol .plusAssign => some .addAssign
  | .symbol .minusAssign => some .subtractAssign
  | .symbol .starAssign => some .multiplyAssign
  | .symbol .slashAssign => some .divideAssign
  | .symbol .percentAssign => some .remainderAssign
  | _ => none

/-- The rung of `??`. -/
def coalescing? : TokenKind → Option Operator
  | .symbol .questionQuestion => some .nullCoalescing
  | _ => none

/-- The rung of `?>`. -/
def piping? : TokenKind → Option Operator
  | .symbol .questionGreater => some .nullsafePipe
  | _ => none

/-- The rung of `||`. -/
def disjunction? : TokenKind → Option Operator
  | .symbol .orOr => some .or
  | _ => none

/-- The rung of `&&`. -/
def conjunction? : TokenKind → Option Operator
  | .symbol .andAnd => some .and
  | _ => none

/-- Comparisons. -/
def comparison? : TokenKind → Option Operator
  | .symbol .less => some .less
  | .symbol .lessEqual => some .lessEqual
  | .symbol .greater => some .greater
  | .symbol .greaterEqual => some .greaterEqual
  | .symbol .equalEqual => some .equal
  | .symbol .notEqual => some .notEqual
  | _ => none

/-- The rung of `..`. -/
def concatenation? : TokenKind → Option Operator
  | .symbol .dotDot => some .concatenate
  | _ => none

/-- The rung of `+ -`. -/
def additive? : TokenKind → Option Operator
  | .symbol .plus => some .add
  | .symbol .minus => some .subtract
  | _ => none

/-- The rung of `* / %`. -/
def multiplicative? : TokenKind → Option Operator
  | .symbol .star => some .multiply
  | .symbol .slash => some .divide
  | .symbol .percent => some .remainder
  | _ => none

/-- The signs before an operand. -/
def sign? : TokenKind → Option Operator
  | .symbol .plus => some .plus
  | .symbol .minus => some .negate
  | .symbol .bang => some .not
  | _ => none

/-- Whether a token can begin an expression. -/
def startsExpression : TokenKind → Bool
  | .integer | .float | .string | .identifier => true
  | .keyword word =>
    word.isTypeName ||
      word ∈ [Keyword.true, .false, .null, .if_, .for_, .while_, .functi, .match_]
  | .symbol sign => sign ∈ [Symbol.leftParen, .leftBrace, .plus, .minus, .bang]
  | _ => false

/-- Whether a parenthesis in a pattern that is followed by this token groups
patterns. -/
def startsPatternGroup (kind : TokenKind) : Bool :=
  kind = .keyword .is || kind = .symbol .leftParen || (comparison? kind).isSome

/-- The value that a token writes. -/
def literal? : Lexeme → Option Literal
  | .integer value => some (.integer value)
  | .float value => some (.float value)
  | .string text => some (.string text)
  | .keyword .true => some (.bool true)
  | .keyword .false => some (.bool false)
  | .keyword .null => some .null
  | _ => none

/-! ## Blocks and bodies -/

/-- Statements up to one without a semicolon, a closing brace or the end of the
text.  A statement that fails is left out; a token that begins none is skipped. -/
def statements (r : Rules σ) : ParseOn σ (List Stmt) :=
  repeating (fun before => do
    match ← peekKind with
    | .symbol .rightBrace | .endOfText => return .done before
    | _ =>
      let takenBefore ← taken
      match ← attempt r.statement with
      | some statement =>
        if statement.terminated then return .again (before ++ [statement])
        else return .done (before ++ [statement])
      | none =>
        if (← taken) = takenBefore then
          let _ ← bump
        return .again before) []

/-- A block in braces. -/
def block (r : Rules σ) : ParseOn σ Expr := do
  let start := (← bump).span.start
  let inner ← statements r
  expect (.symbol .rightBrace)
  return ⟨.block inner, ← spanFrom start⟩

/-- The body of a conditional, loop, function or branch.  A body in braces ends with
its brace, so that what follows applies to the whole construct. -/
def body (r : Rules σ) : ParseOn σ Expr := do
  let kind ← peekKind
  if kind = .symbol .leftBrace then block r
  else if startsExpression kind then r.expression
  else noExpression

/-- An expression in parentheses; missing parentheses are reported one by one. -/
def parenthesised (r : Rules σ) : ParseOn σ Expr := do
  expect (.symbol .leftParen)
  let inner ← r.expression
  expect (.symbol .rightParen)
  return inner

/-! ## Conditionals, loops and functions -/

/-- A condition in parentheses and its body. -/
def alternative (r : Rules σ) : ParseOn σ Alternative := do
  let condition ← parenthesised r
  let body ← body r
  return ⟨condition, body⟩

/-- `if`, any number of `elif`, and an optional `else`. -/
def conditional (r : Rules σ) : ParseOn σ Expr := do
  let start := (← bump).span.start
  let first ← alternative r
  let branches ← repeating (fun before => do
    if ← eat (.keyword .elif) then return .again (before ++ [← alternative r])
    else return .done before) [first]
  let otherwise ←
    if ← eat (.keyword .else_) then some <$> body r
    else pure none
  return ⟨.conditional branches otherwise, ← spanFrom start⟩

/-- The counter of a loop: a name with a comma behind it. -/
def counter : ParseOn σ (Option String) := do
  match (← peek).lexeme with
  | .identifier name =>
    if (← peekSecondKind) = .symbol .comma then
      let _ ← bump
      let _ ← bump
      return some name
    else return none
  | _ => return none

/-- `for`, with an optional counter and one, two or three bounds. -/
def forLoop (r : Rules σ) : ParseOn σ Expr := do
  let start := (← bump).span.start
  expect (.symbol .leftParen)
  let counter ← counter
  let first ← r.expression
  let (from?, stop, step?) ←
    if ← eat (.symbol .colon) then do
      let stop ← r.expression
      let step? ←
        if ← eat (.symbol .colon) then some <$> r.expression else pure none
      pure (some first, stop, step?)
    else pure (none, first, none)
  expect (.symbol .rightParen)
  let body ← body r
  return ⟨.forLoop counter from? stop step? body, ← spanFrom start⟩

/-- `while`. -/
def whileLoop (r : Rules σ) : ParseOn σ Expr := do
  let start := (← bump).span.start
  let condition ← parenthesised r
  let body ← body r
  return ⟨.whileLoop condition body, ← spanFrom start⟩

/-- A parameter: `const` before the name and an exclamation mark after it are
optional. -/
def parameter : ParseOn σ Parameter := do
  let start ← here
  let const ← eat (.keyword .const)
  let kind ← peekKind
  if kind = .symbol .comma ∨ kind = .symbol .rightParen then noExpression
  else
    let name ← identifier
    let nonNull ← eat (.symbol .bang)
    return ⟨name, const, nonNull, ← spanFrom start⟩

/-- Parameters up to the closing parenthesis. -/
def parameters : ParseOn σ (List Parameter) := do
  if ← eat (.symbol .rightParen) then return []
  else
    let all ← repeating (fun before => do
      let next ← parameter
      if before.any fun p => p.name = next.name then
        raise (.duplicateParameter next.name) next.span.start
      if ← eat (.symbol .comma) then return .again (before ++ [next])
      else return .done (before ++ [next])) []
    expect (.symbol .rightParen)
    return all

/-- A function. -/
def functionDef (r : Rules σ) : ParseOn σ Expr := do
  let start := (← bump).span.start
  expect (.symbol .leftParen)
  let parameters ← parameters
  let body ← body r
  return ⟨.function ⟨parameters, body⟩, ← spanFrom start⟩

/-! ## Matching -/

/-- What a branch comes to, and the semicolon. -/
def consequence (r : Rules σ) (start : Position) (pattern : Option Expr) :
    ParseOn σ Branch := do
  let consequent ← body r
  expect (.symbol .semicolon)
  return ⟨pattern, consequent, ← spanFrom start⟩

/-- A branch behind its pattern. -/
def branchBehind (r : Rules σ) (start : Position) (pattern : Option Expr) :
    ParseOn σ Branch := do
  expect (.symbol .colon)
  consequence r start pattern

/-- One branch of a `match`, and whether it is the default one. -/
def branch (r : Rules σ) (hasDefault : Bool) : ParseOn σ Branch := do
  let start ← here
  let pattern ←
    if ← eat (.keyword .default) then
      if hasDefault then raise .duplicateDefault start
      pure none
    else some <$> r.pattern
  branchBehind r start pattern

/-- One turn of the loop over branches. -/
def branchTurn (r : Rules σ) (before : List Branch) :
    ParseOn σ (Turn (List Branch)) := do
  match ← peekKind with
  | .symbol .rightBrace | .endOfText => return .done before
  | _ =>
      return .again (before ++ [← branch r (before.any fun b => b.pattern.isNone)])

/-- `match`, with its branches in braces. -/
def matching (r : Rules σ) : ParseOn σ Expr := do
  let start := (← bump).span.start
  let argument ← parenthesised r
  expect (.symbol .leftBrace)
  let branches ← repeating (branchTurn r) []
  expect (.symbol .rightBrace)
  return ⟨.matching argument branches, ← spanFrom start⟩

/-! ## Operands -/

/-- A type, where only a type can stand. -/
def typeOperand : ParseOn σ Expr := do
  let token ← peek
  match typeName? token.kind with
  | some target =>
    let _ ← bump
    return ⟨.type target, token.span⟩
  | none =>
    raise (.expectedType token.kind) token.span.start
    fail

/-- A type by itself, or with the operand of a cast. -/
def typeOrCast (r : Rules σ) (target : TypeName) : ParseOn σ Expr := do
  let token ← bump
  if ← eat (.symbol .leftParen) then
    let operand ← r.expression
    expect (.symbol .rightParen)
    return ⟨.cast target operand, ← spanFrom token.span.start⟩
  else return ⟨.type target, token.span⟩

/-- An expression in parentheses, kept as such. -/
def grouping (inner : ParseOn σ Expr) : ParseOn σ Expr := do
  let start := (← bump).span.start
  let inner ← inner
  expect (.symbol .rightParen)
  return ⟨.grouping inner, ← spanFrom start⟩

/-- The arguments of a call behind the opening parenthesis. -/
def arguments (r : Rules σ) : ParseOn σ (List Expr) := do
  if ← eat (.symbol .rightParen) then return []
  else
    let all ← repeating (fun before => do
      let next ← r.expression
      if ← eat (.symbol .comma) then return .again (before ++ [next])
      else return .done (before ++ [next])) []
    expect (.symbol .rightParen)
    return all

/-- An expression without operators. -/
def primary (r : Rules σ) : ParseOn σ Expr := do
  let token ← peek
  match literal? token.lexeme with
  | some value =>
    let _ ← bump
    return ⟨.literal value, token.span⟩
  | none =>
    match token.lexeme with
    | .identifier name =>
      let _ ← bump
      return ⟨.name name, token.span⟩
    | .symbol .leftParen => grouping r.expression
    | .symbol .leftBrace => block r
    | .keyword .if_ => conditional r
    | .keyword .for_ => forLoop r
    | .keyword .while_ => whileLoop r
    | .keyword .functi => functionDef r
    | .keyword .match_ => matching r
    | _ =>
      match typeName? token.kind with
      | some target => typeOrCast r target
      | none => noExpression

/-- An operand with its calls and members. -/
def chain (r : Rules σ) : ParseOn σ Expr := do
  repeating (fun e => do
    match ← peekKind with
    | .symbol .dot =>
      let _ ← bump
      let start ← here
      let name ← identifier
      return .again (Expr.binary e .access ⟨.name name, ← spanFrom start⟩)
    | .symbol .leftParen =>
      let opening ← bump
      let arguments ← arguments r
      let behind ← spanFrom opening.span.start
      return .again ⟨.call e arguments, e.span.join (Span.point behind.stop)⟩
    | _ => return .done e) (← primary r)

/-- A power; the exponent may carry its own sign. -/
def power (r : Rules σ) : ParseOn σ Expr := do
  let base ← chain r
  if ← eat (.symbol .caret) then return Expr.binary base .exponent (← r.signed)
  else return base

/-- An operand with its signs. -/
def signed (r : Rules σ) : ParseOn σ Expr := do
  let token ← peek
  match sign? token.kind with
  | some operator =>
    let _ ← bump
    return Expr.unary operator token.span (← r.signed)
  | none => power r

/-! ## The ladder -/

/-- One rung: operands of the tighter rungs, joined from the left by the operators
of this one. -/
def leftAssoc (operator? : TokenKind → Option Operator) (operand : ParseOn σ Expr) :
    ParseOn σ Expr := do
  repeating (fun left => do
    match operator? (← peekKind) with
    | some operator =>
      let _ ← bump
      return .again (Expr.binary left operator (← operand))
    | none => return .done left) (← operand)

/-- The operands of comparisons. -/
def comparand (r : Rules σ) : ParseOn σ Expr :=
  leftAssoc concatenation?
    (leftAssoc additive? (leftAssoc multiplicative? (signed r)))

/-- Comparisons with any number of type tests behind them. -/
def typeTest (r : Rules σ) : ParseOn σ Expr := do
  repeating (fun left => do
    if ← eat (.keyword .is) then
      let operator := if ← eat (.keyword .not) then Operator.isNot else .is
      return .again (Expr.binary left operator (← typeOperand))
    else return .done left) (← leftAssoc comparison? (comparand r))

/-- An expression. -/
def expression (r : Rules σ) : ParseOn σ Expr := do
  let left ← leftAssoc coalescing? (leftAssoc piping? (leftAssoc disjunction?
    (leftAssoc conjunction? (typeTest r))))
  let token ← peek
  match assignment? token.kind with
  | none => return left
  | some operator =>
    let _ ← bump
    match left.node with
    | .name _ => pure ()
    | _ => raise .invalidTarget token.span.start
    return Expr.binary left operator (← r.expression)

/-! ## Patterns -/

/-- A pattern without `and` and `or`: a comparison with the matched value, a type
test of it, a group of patterns, or any expression. -/
def patternAtom (r : Rules σ) : ParseOn σ Expr := do
  let token ← peek
  match (comparison? token.kind).bind Operator.ofComparison? with
  | some operator =>
    let _ ← bump
    return Expr.unary operator token.span (← r.comparand)
  | none =>
    if token.kind = .keyword .is then
      let _ ← bump
      let operator :=
        if ← eat (.keyword .not) then Operator.matchIsNot else .matchIs
      return Expr.unary operator token.span (← typeOperand)
    else if token.kind = .symbol .leftParen then
      if startsPatternGroup (← peekSecondKind) then grouping r.pattern
      else expression r
    else expression r

/-- `and` between patterns. -/
def patternAnd? : TokenKind → Option Operator
  | .keyword .and => some .matchAnd
  | _ => none

/-- `or` between patterns. -/
def patternOr? : TokenKind → Option Operator
  | .keyword .or => some .matchOr
  | _ => none

/-- A pattern. -/
def pattern (r : Rules σ) : ParseOn σ Expr :=
  leftAssoc patternOr? (leftAssoc patternAnd? (patternAtom r))

/-! ## Statements -/

/-- `pull`, with names joined by points. -/
def pull : ParseOn σ Action := do
  let _ ← bump
  let first ← identifier
  let path ← repeating (fun before => do
    if ← eat (.symbol .dot) then return .again (before ++ [← identifier])
    else return .done before) [first]
  return .pull path

/-- One name of a declaration; a constant needs a value. -/
def binding (r : Rules σ) : ParseOn σ Binding := do
  let start ← here
  let const ← eat (.keyword .const)
  let name ← identifier
  let value ← if ← eat (.symbol .assign) then some <$> expression r else pure none
  match value with
  | none => if const then raise (.constWithoutValue name) start
  | some ⟨.literal .null, _⟩ => if !const then warn (.nullValue name) start
  | some _ => pure ()
  return ⟨name, const, value, ← spanFrom start⟩

/-- `init`, with names separated by commas. -/
def declare (r : Rules σ) : ParseOn σ Action := do
  let _ ← bump
  let bindings ← repeating (fun before => do
    let next ← binding r
    if ← eat (.symbol .comma) then return .again (before ++ [next])
    else return .done (before ++ [next])) []
  return .declare bindings

/-- A statement without its semicolon. -/
def action (r : Rules σ) : ParseOn σ Action := do
  match ← peekKind with
  | .keyword .pull => pull
  | .keyword .init => declare r
  | .keyword .break_ =>
    let _ ← bump
    return .break_
  | .keyword .breakIf =>
    let _ ← bump
    return .breakIf (← parenthesised r)
  | .keyword .return_ =>
    let _ ← bump
    if startsExpression (← peekKind) then return .return_ (some (← r.expression))
    else return .return_ none
  | _ => return .evaluate (← expression r)

/-- A statement.  A semicolon behind an expression that does nothing earns a
warning. -/
def statement (r : Rules σ) : ParseOn σ Stmt := do
  let start ← here
  let action ← action r
  let terminated ← eat (.symbol .semicolon)
  match action with
  | .evaluate e => if terminated && e.node.isInert then warn .ignoredResult start
  | _ => pure ()
  return ⟨action, terminated, ← spanFrom start⟩

end Grammar

namespace Rules

variable {σ : Type} [TokenSource σ]

/-- The rules that allow one more layer of nesting. -/
def deepen (r : Rules σ) : Rules σ where
  expression := Grammar.expression r
  signed := Grammar.signed r
  comparand := Grammar.comparand r
  pattern := Grammar.pattern r
  statement := Grammar.statement r

/-- The rules for at most `n` layers of nesting. -/
def upTo : Nat → Rules σ
  | 0 => ⟨Parse.fail, Parse.fail, Parse.fail, Parse.fail, Parse.fail⟩
  | n + 1 =>
    deepen
      { expression := fun s => (upTo n).expression s
        signed := fun s => (upTo n).signed s
        comparand := fun s => (upTo n).comparand s
        pattern := fun s => (upTo n).pattern s
        statement := fun s => (upTo n).statement s }

/-- One level more of the rules is one turn of the knot. -/
theorem upTo_succ (n : Nat) : (upTo (n + 1) : Rules σ) = (upTo n).deepen := rfl

end Rules

/-- What one step through a script yields: a statement, if there is one, and whether
nothing was wrong with it. -/
structure ParseOutcome where
  statement : Option Stmt
  success : Bool

section

variable {σ : Type} [TokenSource σ]

/-- Parses one expression. -/
def Parse.expression : ParseOn σ Expr := fun s =>
  (Rules.upTo (TokenSource.remaining s + 1)).expression s

/-- Parses one statement. -/
def Parse.statement : ParseOn σ Stmt := fun s =>
  (Rules.upTo (TokenSource.remaining s + 1)).statement s

namespace TokenSource

/-- Parses the next statement.  A token that begins none is skipped, so every step
takes a token until the end of the text. -/
def advance (s : σ) : ParseOutcome × σ :=
  let (token, before) := peek s
  if token.kind = .endOfText then (⟨none, true⟩, before)
  else
    let (statement, after) := Parse.statement before
    let after :=
      if statement.isNone && taken after == taken before then (bump after).2
      else after
    (⟨statement, statement.isSome &&
      (findings after).errorCount == (findings before).errorCount⟩, after)

/-- Parses the next statement, and keeps it only if nothing was wrong with it. -/
def tryAdvance (s : σ) : Option Stmt × σ :=
  let (outcome, s) := advance s
  (if outcome.success then outcome.statement else none, s)

/-- The next outcome, or none at the end of the text. -/
def next? (s : σ) : Option ParseOutcome × σ :=
  let (token, looked) := peek s
  if token.kind = .endOfText then (none, looked)
  else
    let (outcome, after) := advance looked
    (some outcome, after)

/-- At most `fuel` outcomes. -/
def outcomesUpTo : Nat → σ → List ParseOutcome × σ
  | 0, s => ([], s)
  | fuel + 1, s =>
    match next? s with
    | (none, s) => ([], s)
    | (some outcome, s) =>
      let (rest, s) := outcomesUpTo fuel s
      (outcome :: rest, s)

/-- All outcomes up to the end of the text. -/
def outcomes (s : σ) : List ParseOutcome × σ := outcomesUpTo (remaining s + 1) s

variable {s t : σ} {o : ParseOutcome}

/-- At the end of the text there is no outcome. -/
theorem next?_of_eq (h : (peek s).1.kind = .endOfText) :
    next? s = (none, (peek s).2) := if_pos h

/-- Before the end of the text there is one outcome more. -/
theorem next?_of_ne (h : (peek s).1.kind ≠ .endOfText) :
    next? s = (some (advance (peek s).2).1, (advance (peek s).2).2) := if_neg h

/-- A parse with no outcome left is done. -/
theorem outcomesUpTo_of_none (h : next? s = (none, t)) (fuel : Nat) :
    outcomesUpTo (fuel + 1) s = ([], t) := by
  rw [outcomesUpTo, h]

/-- A parse gives its next outcome and goes on behind it. -/
theorem outcomesUpTo_of_some (h : next? s = (some o, t)) (fuel : Nat) :
    outcomesUpTo (fuel + 1) s =
      (o :: (outcomesUpTo fuel t).1, (outcomesUpTo fuel t).2) := by
  rw [outcomesUpTo, h]

end TokenSource

end

namespace ParseState

/-- Whether only the end of the text is left. -/
def atEnd (s : ParseState) : Bool := s.token.kind = .endOfText

/-- The next statement of a text whose tokens are at hand. -/
abbrev advance (s : ParseState) : ParseOutcome × ParseState := TokenSource.advance s

/-- The next statement, if nothing was wrong with it. -/
abbrev tryAdvance (s : ParseState) : Option Stmt × ParseState :=
  TokenSource.tryAdvance s

/-- The next outcome, or none at the end of the text. -/
abbrev next? (s : ParseState) : Option ParseOutcome × ParseState :=
  TokenSource.next? s

/-- At most `fuel` outcomes. -/
abbrev outcomesUpTo (fuel : Nat) (s : ParseState) :
    List ParseOutcome × ParseState :=
  TokenSource.outcomesUpTo fuel s

/-- All outcomes up to the end of the text. -/
abbrev outcomes (s : ParseState) : List ParseOutcome × ParseState :=
  TokenSource.outcomes s

/-- A step, by what it does to the tokens at hand. -/
theorem advance_eq (s : ParseState) :
    s.advance =
      let before := s.look 1
      if before.atEnd then (⟨none, true⟩, before)
      else
        let (statement, after) := Parse.statement before
        let after :=
          if statement.isNone && after.taken == before.taken then after.take
          else after
        (⟨statement, statement.isSome && after.errorCount == before.errorCount⟩,
          after) := by
  by_cases hend : s.token.kind = .endOfText
  · have hatEnd : (s.look 1).atEnd = true := decide_eq_true hend
    exact (if_pos hend).trans (if_pos hatEnd).symm
  · have hatEnd : ¬ (s.look 1).atEnd = true := mt of_decide_eq_true hend
    exact (if_neg hend).trans (if_neg hatEnd).symm

theorem next?_eq (s : ParseState) :
    s.next? =
      let looked := s.look 1
      if looked.atEnd then (none, looked)
          else (some looked.advance.1, looked.advance.2) := by
  by_cases hend : s.token.kind = .endOfText
  · have hatEnd : (s.look 1).atEnd = true := decide_eq_true hend
    exact (if_pos hend).trans (if_pos hatEnd).symm
  · have hatEnd : ¬ (s.look 1).atEnd = true := mt of_decide_eq_true hend
    exact (if_neg hend).trans (if_neg hatEnd).symm

end ParseState

end ScriptLang
