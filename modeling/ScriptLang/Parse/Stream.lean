import ScriptLang.Parse.Grammar
import ScriptLang.Token.Reader

/-!
# Parsing while reading

A `TokenStream` reads a token only when a parser wants one.  What a parser looks at
ahead of time waits in a buffer.  Comments are passed over, and what the lexer has
to say about a token or a comment goes to a log as soon as it is read: a parser that
has not looked so far knows nothing of it.

A `Parser` is a stream of tokens with a log of its own.
-/

namespace ScriptLang

/-- What was reported in one phase, in the order in which it came up. -/
structure Log (ε ω : Type) where
  errors : Array (Located ε) := #[]
  warnings : Array (Located ω) := #[]

/-- Hands what was raised for the last token to a log.  The lexer keeps none of
it. -/
def Lexer.reportTo (log : Log LexicalError LexicalWarning) (l : Lexer) :
    Log LexicalError LexicalWarning × Lexer :=
  ({ errors := l.error.elim log.errors log.errors.push
     warnings := log.warnings ++ l.warnings },
    { l with error := none, warnings := #[] })

/-- A lexer with the tokens that have been looked at and not taken. -/
structure TokenStream where
  lexer : Lexer
  buffer : List Token := []
  lexical : Log LexicalError LexicalWarning := {}
  /-- The number of tokens taken so far. -/
  consumed : Nat := 0
  /-- The place right after the last token taken. -/
  previousEnd : Position := Position.start

namespace TokenStream

/-- Reads one token or comment, and reports on it. -/
def read (t : TokenStream) : Token × TokenStream :=
  let read := t.lexer.advance
  let (lexical, lexer) := read.2.reportTo t.lexical
  (read.1, { t with lexer, lexical })

/-- A comment that is passed over takes at least one character. -/
theorem remaining_read_lt {t : TokenStream} (h : t.read.1.kind.isComment = true) :
    t.read.2.lexer.remaining < t.lexer.remaining := by
  refine Lexer.remaining_advance_lt t.lexer fun hend => ?_
  have hkind : t.read.1.kind = .endOfText := congrArg Lexeme.kind hend
  rw [hkind] at h
  cases h

/-- Reads up to the next token that is no comment. -/
def pull (t : TokenStream) : Token × TokenStream :=
  let read := t.read
  if _h : read.1.kind.isComment then pull read.2 else read
termination_by t.lexer.remaining
decreasing_by exact remaining_read_lt _h

/-- A token that is pulled is handed out, and not put into the buffer. -/
theorem buffer_pull (t : TokenStream) : t.pull.2.buffer = t.buffer := by
  fun_induction pull t with
  | case1 t read _ ih => exact ih
  | case2 => rfl

/-- Reads until there is a token with the given number of tokens before it in the
buffer. -/
def fill (n : Nat) (t : TokenStream) : TokenStream :=
  if n < t.buffer.length then t
  else
    let pulled := t.pull
    fill n { pulled.2 with buffer := pulled.2.buffer ++ [pulled.1] }
termination_by n + 1 - t.buffer.length
decreasing_by
  rw [List.length_append, buffer_pull, List.length_singleton]
  omega

/-- To look at a token is to have it in the buffer. -/
theorem lt_length_fill (n : Nat) (t : TokenStream) :
    n < (t.fill n).buffer.length := by
  fun_induction fill n t with
  | case1 t h => exact h
  | case2 _ _ _ ih => exact ih

/-- The token with the given number of tokens before it, all of which stay. -/
def peekNth (n : Nat) (t : TokenStream) : Token × TokenStream :=
  let filled := t.fill n
  (filled.buffer.get ⟨n, t.lt_length_fill n⟩, filled)

/-- Takes the next token. -/
def bump (t : TokenStream) : Token × TokenStream :=
  let (token, t) :=
    match t.buffer with
    | token :: buffer => (token, { t with buffer })
    | [] => t.pull
  (token, { t with consumed := t.consumed + 1, previousEnd := token.span.stop })

end TokenStream

/-- A parser in front of a statement. -/
structure Parser where
  tokens : TokenStream
  syntactic : Log ParseError ParseWarning := {}

namespace Parser

/-- The parser in front of the first statement of a text. -/
def ofText (limit : Nat) (source : String) : Parser :=
  { tokens := { lexer := Lexer.ofText limit source } }

instance : TokenSource Parser where
  peek p :=
    let (token, tokens) := p.tokens.peekNth 0
    (token, { p with tokens })
  peekSecondKind p :=
    let (token, tokens) := p.tokens.peekNth 1
    (token.kind, { p with tokens })
  bump p :=
    let (token, tokens) := p.tokens.bump
    (token, { p with tokens })
  raise cause position p :=
    { p with
      syntactic :=
        { p.syntactic with errors := p.syntactic.errors.push ⟨cause, position⟩ } }
  warn cause position p :=
    { p with
      syntactic :=
        { p.syntactic with
          warnings := p.syntactic.warnings.push ⟨cause, position⟩ } }
  taken p := p.tokens.consumed
  previousEnd p := p.tokens.previousEnd
  findings p :=
    { lexicalErrors := p.tokens.lexical.errors.toList
      lexicalWarnings := p.tokens.lexical.warnings.toList
      errors := p.syntactic.errors
      warnings := p.syntactic.warnings }
  -- A token takes a character of the text, apart from the end of it.
  remaining p := p.tokens.buffer.length + p.tokens.lexer.scanner.source.length + 3

variable (p : Parser)

/-- To look at the next token is to fill the buffer up to it. -/
theorem peek_eq :
    TokenSource.peek p =
      ((p.tokens.peekNth 0).1, { p with tokens := p.tokens.fill 0 }) := rfl

/-- To look at the token after it is to fill the buffer up to that one. -/
theorem peekSecondKind_eq :
    TokenSource.peekSecondKind p =
      ((p.tokens.peekNth 1).1.kind, { p with tokens := p.tokens.fill 1 }) := rfl

/-- To take a token is to take it off the stream. -/
theorem bump_eq :
    TokenSource.bump p = (p.tokens.bump.1, { p with tokens := p.tokens.bump.2 }) :=
  rfl

end Parser

end ScriptLang
