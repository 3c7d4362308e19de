import ScriptLang.Token.Kind

/-!
# What can be wrong with the arrangement of tokens

The causes of errors and warnings that parsing reports, and their wording.
-/

namespace ScriptLang

/-- Why tokens do not make a statement. -/
inductive ParseError
  | unexpectedToken (actual expected : TokenKind)
  | expectedExpression (actual : TokenKind)
  | expectedType (actual : TokenKind)
  | constWithoutValue (name : String)
  | duplicateParameter (name : String)
  | duplicateDefault
  | invalidTarget
deriving DecidableEq, Repr

/-- The wording of a parse error. -/
def ParseError.message : ParseError → String
  | .unexpectedToken actual expected =>
    "Unexpected token: expected " ++ expected.text ++ ", got " ++ actual.text
  | .expectedExpression actual => "Expected expression, got " ++ actual.text
  | .expectedType actual => "Expected type name, got " ++ actual.text
  | .constWithoutValue name => "Constant `" ++ name ++ "` must be initialized"
  | .duplicateParameter name => "Duplicate parameter `" ++ name ++ "`"
  | .duplicateDefault => "Duplicate `default` branch"
  | .invalidTarget => "Invalid assignment target"

/-- What is odd about a statement that can still be used. -/
inductive ParseWarning
  | nullValue (name : String)
  | ignoredResult
deriving DecidableEq, Repr

/-- The wording of a parse warning. -/
def ParseWarning.message : ParseWarning → String
  | .nullValue name =>
      "Variable `" ++ name ++ "` is explicitly initialized with null"
  | .ignoredResult => "Expression result is ignored"

end ScriptLang
