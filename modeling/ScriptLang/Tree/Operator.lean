/-!
# Operators

The operators of the language, in one type.  Some are binary, some unary, and the
last group stands only in the patterns of a `match`, where the left operand is the
value that is matched.
-/

namespace ScriptLang

/-- Operators. -/
inductive Operator
  | add | subtract | multiply | divide | remainder | exponent | concatenate
  | plus | negate | not
  | less | lessEqual | greater | greaterEqual | equal | notEqual
  | and | or
  | nullCoalescing | nullsafePipe
  | is | isNot
  | assign | addAssign | subtractAssign | multiplyAssign | divideAssign
  | remainderAssign
  | access
  | matchLess | matchLessEqual | matchGreater | matchGreaterEqual
  | matchEqual | matchNotEqual
  | matchIs | matchIsNot | matchAnd | matchOr
deriving DecidableEq, Repr

namespace Operator

/-- The operator that a compound assignment applies before it assigns. -/
def compoundBase? : Operator → Option Operator
  | .addAssign => some .add
  | .subtractAssign => some .subtract
  | .multiplyAssign => some .multiply
  | .divideAssign => some .divide
  | .remainderAssign => some .remainder
  | _ => none

/-- Whether an operator assigns. -/
def isAssignment (o : Operator) : Bool := o = .assign || o.compoundBase?.isSome

/-- The comparison that a pattern operator stands for. -/
def matchComparison? : Operator → Option Operator
  | .matchLess => some .less
  | .matchLessEqual => some .lessEqual
  | .matchGreater => some .greater
  | .matchGreaterEqual => some .greaterEqual
  | .matchEqual => some .equal
  | .matchNotEqual => some .notEqual
  | _ => none

/-- The pattern operator that stands for a comparison. -/
def ofComparison? : Operator → Option Operator
  | .less => some .matchLess
  | .lessEqual => some .matchLessEqual
  | .greater => some .matchGreater
  | .greaterEqual => some .matchGreaterEqual
  | .equal => some .matchEqual
  | .notEqual => some .matchNotEqual
  | _ => none

/-- How an operator is written. -/
def text : Operator → String
  | .add | .plus => "+"
  | .subtract | .negate => "-"
  | .multiply => "*"
  | .divide => "/"
  | .remainder => "%"
  | .exponent => "^"
  | .concatenate => ".."
  | .not => "!"
  | .less | .matchLess => "<"
  | .lessEqual | .matchLessEqual => "<="
  | .greater | .matchGreater => ">"
  | .greaterEqual | .matchGreaterEqual => ">="
  | .equal | .matchEqual => "=="
  | .notEqual | .matchNotEqual => "!="
  | .and => "&&"
  | .or => "||"
  | .nullCoalescing => "??"
  | .nullsafePipe => "?>"
  | .is | .matchIs => "is"
  | .isNot | .matchIsNot => "is not"
  | .assign => "="
  | .addAssign => "+="
  | .subtractAssign => "-="
  | .multiplyAssign => "*="
  | .divideAssign => "/="
  | .remainderAssign => "%="
  | .access => "."
  | .matchAnd => "and"
  | .matchOr => "or"

end Operator

end ScriptLang
