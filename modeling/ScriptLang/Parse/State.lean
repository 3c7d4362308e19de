import ScriptLang.Parse.Error
import ScriptLang.Token.Lexer

/-!
# Parsing as a walk over tokens

A parser is run on a `TokenSource`: it looks at the next token and at the kind of
the one behind it, takes tokens, and reports what is wrong.  A `ParseOn σ` either
yields a value or fails.  Both ways it hands on the state, in which tokens may have
been taken and errors reported: an error does not stop a parser that can go on.

A `ParseState` has all tokens of a text at hand, without the comments.  Each token
comes with the notes of the lexer on it and on the comments right before it, as an
`Entry`.  A parser that has looked at some of the tokens knows of the notes on these
only, so `ParseState.seen` counts the entries looked at so far: the lexical notes of
a parse are those of the entries seen (`ParseState.notes`).
-/

namespace ScriptLang

/-- What has been reported on a text while it was parsed. -/
structure Findings where
  lexicalErrors : List (Located LexicalError)
  lexicalWarnings : List (Located LexicalWarning)
  errors : Array (Located ParseError)
  warnings : Array (Located ParseWarning)

/-- The number of errors of both phases. -/
def Findings.errorCount (f : Findings) : Nat :=
  f.errors.size + f.lexicalErrors.length

/-- What a parser is run on: tokens to look at and to take, and a log of what was
wrong with them. -/
class TokenSource (σ : Type) where
  /-- The next token, which stays. -/
  peek : σ → Token × σ
  /-- The kind of the token behind the next one; both of them stay. -/
  peekSecondKind : σ → TokenKind × σ
  /-- Takes the next token. -/
  bump : σ → Token × σ
  /-- Reports an error. -/
  raise : ParseError → Position → σ → σ
  /-- Reports a warning. -/
  warn : ParseWarning → Position → σ → σ
  /-- The number of tokens taken so far. -/
  taken : σ → Nat
  /-- The place right after the last token taken. -/
  previousEnd : σ → Position
  /-- What has been reported so far. -/
  findings : σ → Findings
  /-- As many as there are tokens left, or more. -/
  remaining : σ → Nat

/-! ## Tokens at hand -/

/-- A token with the notes on it and on the comments right before it. -/
structure Entry where
  token : Token
  notes : List Notes
deriving DecidableEq, Repr

namespace Entry

/-- The tokens that are no comments, given the notes on the comments before the
first of them. -/
def gather (pending : List Notes) : List Lexed → List Entry
  | [] => []
  | l :: rest =>
    if l.token.kind.isComment then gather (pending ++ [l.notes]) rest
    else ⟨l.token, pending ++ [l.notes]⟩ :: gather [] rest

/-- The tokens of a text that are no comments. -/
def ofText (limit : Nat) (source : String) : List Entry :=
  gather [] (Lexed.ofText limit source)

end Entry

/-- How far a parse has come, and what it has reported. -/
structure ParseState where
  /-- All entries of the text. -/
  entries : List Entry
  /-- The entries that no parser has taken yet. -/
  rest : List Entry
  /-- The number of entries that parsers have looked at. -/
  seen : Nat
  /-- The number of entries that parsers have taken. -/
  taken : Nat
  /-- The place right after the last token taken. -/
  previousEnd : Position
  errors : Array (Located ParseError)
  warnings : Array (Located ParseWarning)

namespace ParseState

/-- The state before the first token. -/
def ofEntries (entries : List Entry) : ParseState :=
  ⟨entries, entries, 0, 0, Position.start, #[], #[]⟩

/-- The state before the first token of a text. -/
def ofText (limit : Nat) (source : String) : ParseState :=
  ofEntries (Entry.ofText limit source)

/-- The notes of the lexer on everything that has been looked at. -/
def notes (s : ParseState) : List Notes :=
  (s.entries.take s.seen).flatMap Entry.notes

/-- The lexical errors found so far. -/
def lexicalErrors (s : ParseState) : List (Located LexicalError) :=
  s.notes.filterMap Notes.error

/-- The lexical warnings found so far. -/
def lexicalWarnings (s : ParseState) : List (Located LexicalWarning) :=
  s.notes.flatMap Notes.warnings

/-- What has been reported so far. -/
def findings (s : ParseState) : Findings :=
  ⟨s.lexicalErrors, s.lexicalWarnings, s.errors, s.warnings⟩

/-- The number of errors of both phases so far. -/
def errorCount (s : ParseState) : Nat := s.errors.size + s.lexicalErrors.length

/-- Looks at the next `n` tokens. -/
def look (n : Nat) (s : ParseState) : ParseState :=
  { s with seen := max s.seen (s.taken + n) }

/-- The next token; after the last one there is only the end of the text. -/
def token (s : ParseState) : Token :=
  match s.rest with
  | [] => ⟨.endOfText, Span.point s.previousEnd⟩
  | e :: _ => e.token

/-- The kind of the token after the next one. -/
def secondKind (s : ParseState) : TokenKind :=
  match s.rest with
  | _ :: e :: _ => e.token.kind
  | _ => .endOfText

/-- The state after the next token. -/
def take (s : ParseState) : ParseState :=
  { s with
    rest := s.rest.tail
    seen := max s.seen (s.taken + 1)
    taken := s.taken + 1
    previousEnd := s.token.span.stop }

instance : TokenSource ParseState where
  peek s := (s.token, s.look 1)
  peekSecondKind s := (s.secondKind, s.look 2)
  bump s := (s.token, s.take)
  raise cause position s := { s with errors := s.errors.push ⟨cause, position⟩ }
  warn cause position s := { s with warnings := s.warnings.push ⟨cause, position⟩ }
  taken := taken
  previousEnd := previousEnd
  findings := findings
  remaining s := s.rest.length

@[simp] theorem errors_raise (cause : ParseError) (position : Position)
    (s : ParseState) :
    (TokenSource.raise cause position s).errors = s.errors.push ⟨cause, position⟩ :=
  rfl

end ParseState

/-! ## Parsers -/

/-- A parser on a source of tokens: a value or none, and the state after it. -/
def ParseOn (σ α : Type) : Type := σ → Option α × σ

/-- A parser on tokens at hand. -/
abbrev Parse : Type → Type := ParseOn ParseState

namespace Parse

variable {σ α β : Type}

/-- Yields a value and takes nothing. -/
def yield (a : α) : ParseOn σ α := fun s => (some a, s)

/-- Runs one parser and hands its value to the next; a failure is final. -/
def andThen (p : ParseOn σ α) (next : α → ParseOn σ β) : ParseOn σ β := fun s =>
  match p s with
  | (some a, s) => next a s
  | (none, s) => (none, s)

instance : Monad (ParseOn σ) where
  pure := yield
  bind := andThen

/-- Yields nothing and takes nothing. -/
def fail : ParseOn σ α := fun s => (none, s)

/-- The value of a parser, if it has one; this parser itself never fails. -/
def attempt (p : ParseOn σ α) : ParseOn σ (Option α) := fun s =>
  let (value, s) := p s
  (some value, s)

variable [TokenSource σ]

/-- The next token, which stays. -/
def peek : ParseOn σ Token := fun s =>
  let (token, s) := TokenSource.peek s
  (some token, s)

/-- The kind of the next token. -/
def peekKind : ParseOn σ TokenKind := fun s =>
  let (token, s) := TokenSource.peek s
  (some token.kind, s)

/-- The kind of the token after the next one. -/
def peekSecondKind : ParseOn σ TokenKind := fun s =>
  let (kind, s) := TokenSource.peekSecondKind s
  (some kind, s)

/-- Takes the next token. -/
def bump : ParseOn σ Token := fun s =>
  let (token, s) := TokenSource.bump s
  (some token, s)

/-- Reports an error and goes on. -/
def raise (cause : ParseError) (position : Position) : ParseOn σ Unit := fun s =>
  (some (), TokenSource.raise cause position s)

/-- Reports a warning and goes on. -/
def warn (cause : ParseWarning) (position : Position) : ParseOn σ Unit := fun s =>
  (some (), TokenSource.warn cause position s)

/-- The number of tokens taken so far. -/
def taken : ParseOn σ Nat := fun s => (some (TokenSource.taken s), s)

/-- The span from a place to the end of the last token taken. -/
def spanFrom (start : Position) : ParseOn σ Span := fun s =>
  (some ⟨start, (TokenSource.previousEnd s).later start⟩, s)

/-- The place of the next token. -/
def here : ParseOn σ Position := do return (← peek).span.start

/-- Takes the next token if it has the given kind. -/
def eat (kind : TokenKind) : ParseOn σ Bool := do
  if (← peekKind) = kind then
    let _ ← bump
    return true
  else return false

/-- Reports that the next token is not of the kind that it should be. -/
def missed (kind : TokenKind) : ParseOn σ Unit := do
  let token ← peek
  raise (.unexpectedToken token.kind kind) token.span.start

/-- Takes the next token if it has the given kind, and reports it otherwise; goes on
either way. -/
def expect (kind : TokenKind) : ParseOn σ Unit := do
  if ← eat kind then return () else missed kind

/-- Takes a name, or reports that there is none and fails. -/
def identifier : ParseOn σ String := do
  match (← peek).lexeme with
  | .identifier name =>
    let _ ← bump
    return name
  | _ =>
    expect .identifier
    fail

/-- Reports that the next token begins no expression, and fails. -/
def noExpression : ParseOn σ α := do
  let token ← peek
  raise (.expectedExpression token.kind) token.span.start
  fail

/-- Whether a repeated parser goes on. -/
inductive Turn (α : Type)
  | again (value : α)
  | done (value : α)

/-- Repeats a step on an accumulated value, at most `fuel` times. -/
def iterate (step : α → ParseOn σ (Turn α)) : Nat → α → ParseOn σ α
  | 0, a => yield a
  | fuel + 1, a => fun s =>
    match step a s with
    | (some (.again a), s) => iterate step fuel a s
    | (some (.done a), s) => (some a, s)
    | (none, s) => (none, s)

/-- Repeats a step until it is done.  A step that asks for another one takes a
token, so there are no more steps than tokens. -/
def repeating (step : α → ParseOn σ (Turn α)) (a : α) : ParseOn σ α := fun s =>
  iterate step (TokenSource.remaining s + 1) a s

end Parse

end ScriptLang
