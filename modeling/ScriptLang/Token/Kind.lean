/-!
# Keywords, symbols and kinds of tokens

The words and signs of the language, each with its one spelling.  `Keyword.ofText?`
and `Symbol.ofText?` look a spelling up; a symbol being read is cut off as soon as
no spelling begins with what has been read, which is what `Symbol.isLive` decides.
-/

namespace ScriptLang

/-- The reserved words.  The last five name types. -/
inductive Keyword
  | pull | init | const | break_ | breakIf | return_
  | if_ | elif | else_ | for_ | while_ | functi
  | match_ | default | and | or | is | not | true | false | null
  | int | float | string | bool | function
deriving DecidableEq, Repr

namespace Keyword

/-- Every reserved word once. -/
def all : List Keyword :=
  [.pull, .init, .const, .break_, .breakIf, .return_, .if_, .elif, .else_,
   .for_, .while_, .functi,
   .match_, .default, .and, .or, .is, .not, .true, .false, .null,
   .int, .float, .string, .bool, .function]

/-- The spelling of a reserved word. -/
def text : Keyword → String
  | .pull => "pull"
  | .init => "init"
  | .const => "const"
  | .break_ => "break"
  | .breakIf => "break_if"
  | .return_ => "return"
  | .if_ => "if"
  | .elif => "elif"
  | .else_ => "else"
  | .for_ => "for"
  | .while_ => "while"
  | .functi => "functi"
  | .match_ => "match"
  | .default => "default"
  | .and => "and"
  | .or => "or"
  | .is => "is"
  | .not => "not"
  | .true => "true"
  | .false => "false"
  | .null => "null"
  | .int => "int"
  | .float => "float"
  | .string => "string"
  | .bool => "bool"
  | .function => "function"

/-- The reserved word with a given spelling. -/
def ofText? (text : String) : Option Keyword := all.find? fun k => k.text == text

/-- Whether a reserved word names a type. -/
def isTypeName : Keyword → Bool
  | .int | .float | .string | .bool | .function => .true
  | _ => .false

end Keyword

/-- Operators and punctuation. -/
inductive Symbol
  | plus | minus | star | slash | percent | caret
  | assign | plusAssign | minusAssign | starAssign | slashAssign | percentAssign
  | equalEqual | notEqual | less | lessEqual | greater | greaterEqual
  | andAnd | orOr | bang | questionQuestion | questionGreater | dotDot | dot
  | comma | colon | semicolon | leftParen | rightParen | leftBrace | rightBrace
deriving DecidableEq, Repr

namespace Symbol

/-- Every symbol once. -/
def all : List Symbol :=
  [.plus, .minus, .star, .slash, .percent, .caret,
   .assign, .plusAssign, .minusAssign, .starAssign, .slashAssign, .percentAssign,
   .equalEqual, .notEqual, .less, .lessEqual, .greater, .greaterEqual,
   .andAnd, .orOr, .bang, .questionQuestion, .questionGreater, .dotDot, .dot,
   .comma, .colon, .semicolon, .leftParen, .rightParen, .leftBrace, .rightBrace]

/-- The spelling of a symbol, character by character. -/
def chars : Symbol → List Char
  | .plus => ['+']
  | .minus => ['-']
  | .star => ['*']
  | .slash => ['/']
  | .percent => ['%']
  | .caret => ['^']
  | .assign => ['=']
  | .plusAssign => ['+', '=']
  | .minusAssign => ['-', '=']
  | .starAssign => ['*', '=']
  | .slashAssign => ['/', '=']
  | .percentAssign => ['%', '=']
  | .equalEqual => ['=', '=']
  | .notEqual => ['!', '=']
  | .less => ['<']
  | .lessEqual => ['<', '=']
  | .greater => ['>']
  | .greaterEqual => ['>', '=']
  | .andAnd => ['&', '&']
  | .orOr => ['|', '|']
  | .bang => ['!']
  | .questionQuestion => ['?', '?']
  | .questionGreater => ['?', '>']
  | .dotDot => ['.', '.']
  | .dot => ['.']
  | .comma => [',']
  | .colon => [':']
  | .semicolon => [';']
  | .leftParen => ['(']
  | .rightParen => [')']
  | .leftBrace => ['\x7b']
  | .rightBrace => ['\x7d']

/-- The spelling of a symbol. -/
def text (s : Symbol) : String := String.ofList s.chars

/-- The symbol with a given spelling. -/
def ofChars? (text : List Char) : Option Symbol :=
  all.find? fun s => s.chars == text

/-- What opens a comment that runs to the end of its line. -/
def lineComment : List Char := ['/', '/']

/-- What opens a comment that runs to its closer. -/
def blockComment : List Char := ['/', '*']

/-- Every spelling that begins with a symbol's first character: the symbols and the
two comment openers. -/
def spellings : List (List Char) := all.map chars ++ [lineComment, blockComment]

/-- Whether some spelling begins with a text. -/
def isLive (text : List Char) : Bool := spellings.any fun s => text.isPrefixOf s

end Symbol

/-- What a token is, apart from its content. -/
inductive TokenKind
  | endOfText | unknown | identifier | integer | float | string
  | lineComment | blockComment
  | keyword (word : Keyword)
  | symbol (sign : Symbol)
deriving DecidableEq, Repr

namespace TokenKind

/-- How messages speak of a kind of token. -/
def text : TokenKind → String
  | .endOfText => "end of text"
  | .unknown => "unknown token"
  | .identifier => "identifier"
  | .integer => "integer literal"
  | .float => "float literal"
  | .string => "string literal"
  | .lineComment => "line comment"
  | .blockComment => "block comment"
  | .keyword word => "`" ++ word.text ++ "`"
  | .symbol sign => "`" ++ sign.text ++ "`"

/-- Whether a kind is a reserved word. -/
def isKeyword : TokenKind → Bool
  | .keyword _ => true
  | _ => false

/-- Whether a kind names a type. -/
def isTypeName : TokenKind → Bool
  | .keyword word => word.isTypeName
  | _ => false

/-- Whether a kind is a comment. -/
def isComment : TokenKind → Bool
  | .lineComment | .blockComment => true
  | _ => false

end TokenKind

end ScriptLang
