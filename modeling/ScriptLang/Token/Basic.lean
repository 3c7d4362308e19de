import ScriptLang.Source.Position
import ScriptLang.Token.Kind

/-!
# Tokens and what is wrong with them

A `Lexeme` is a token's kind together with its content, so a name always has a text
and a keyword never has one.  A malformed lexeme still becomes a token; what is
wrong with it stands in its `Notes`, which hold at most one error and any number of
warnings.
-/

namespace ScriptLang

/-- A kind of token with the content that this kind carries. -/
inductive Lexeme
  | endOfText
  | unknown (text : String)
  | identifier (name : String)
  | integer (value : UInt64)
  | float (value : Float)
  | string (text : String)
  | lineComment (text : String)
  | blockComment (text : String)
  | keyword (word : Keyword)
  | symbol (sign : Symbol)
deriving DecidableEq, Repr

/-- The kind of a lexeme. -/
def Lexeme.kind : Lexeme → TokenKind
  | .endOfText => .endOfText
  | .unknown _ => .unknown
  | .identifier _ => .identifier
  | .integer _ => .integer
  | .float _ => .float
  | .string _ => .string
  | .lineComment _ => .lineComment
  | .blockComment _ => .blockComment
  | .keyword word => .keyword word
  | .symbol sign => .symbol sign

/-- A lexeme and where it stands. -/
structure Token where
  lexeme : Lexeme
  span : Span
deriving DecidableEq, Repr

/-- The kind of a token. -/
def Token.kind (t : Token) : TokenKind := t.lexeme.kind

/-- Why a lexeme is malformed. -/
inductive LexicalError
  | unknownToken (text : String)
  | unexpectedEndOfText
  | invalidRadixMark (mark : Char)
  | missingRadixDigits
  | numberTooLarge
  | missingExponent
  | lexemeTooLong (limit : Nat)
deriving DecidableEq, Repr

/-- The wording of a lexical error. -/
def LexicalError.message : LexicalError → String
  | .unknownToken text => "Unknown token `" ++ text ++ "`"
  | .unexpectedEndOfText => "Unexpected end of text"
  | .invalidRadixMark mark => "Invalid non-decimal prefix `" ++ mark.toString ++ "`"
  | .missingRadixDigits => "Missing digits after non-decimal prefix"
  | .numberTooLarge => "Number literal too large"
  | .missingExponent => "Missing exponent digits"
  | .lexemeTooLong limit =>
      "Lexeme exceeds the maximum length of " ++ toString limit ++ " characters"

/-- What is odd about a lexeme that can still be used. -/
inductive LexicalWarning
  | unknownEscape (character : Char)
  | missingCharCode
deriving DecidableEq, Repr

/-- The wording of a lexical warning. -/
def LexicalWarning.message : LexicalWarning → String
  | .unknownEscape character =>
      "Unknown escape sequence `\\" ++ character.toString ++ "`"
  | .missingCharCode => "Missing hexadecimal character code after `\\x`"

/-- What was noticed while one token was read. -/
structure Notes where
  error : Option (Located LexicalError)
  warnings : List (Located LexicalWarning)
deriving DecidableEq, Repr

/-- A token with its notes. -/
structure Lexed where
  token : Token
  notes : Notes
deriving DecidableEq, Repr

end ScriptLang
