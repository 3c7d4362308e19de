/-!
# Why a statement fails

The causes of failure while a statement is evaluated, and their wording.  A cause
carries no place: it is reported at the start of the statement that failed.
-/

namespace ScriptLang

/-- Causes of failure.  Types are given by the name that messages use for them. -/
inductive Fault
  | undefinedVariable (name : String)
  | alreadyDefined (name : String)
  | assignmentToConst (name : String)
  | breakOutsideLoop
  | returnOutsideFunction
  | nullArgument (name : String)
  | argumentCount (expected actual : Nat)
  | zeroDivision
  | notCallable (type : String)
  | unsupportedOperands (operator left right : String)
  | unsupportedOperand (operator operand : String)
  | expectedBoolean (actual : String)
  | invalidCast (source target : String)
  | invalidAccess (type : String)
  | unknownNamespace (name : String)
  | unknownMember (space member : String)
  | invalidRangeBound (type : String)
  | invalidRangeStep
  | invalidTarget
  | callDepth (limit : Nat)
  | host (name message : String)
  | internal (message : String)
deriving DecidableEq, Repr

/-- The wording of a fault. -/
def Fault.message : Fault → String
  | .undefinedVariable name => "Undefined variable: " ++ name
  | .alreadyDefined name => "Variable already defined: " ++ name
  | .assignmentToConst name => "Assignment to constant: " ++ name
  | .breakOutsideLoop => "`break` outside of loop"
  | .returnOutsideFunction => "`return` outside of function"
  | .nullArgument name => "Argument `" ++ name ++ "` must not be null"
  | .argumentCount expected actual =>
    "Argument count mismatch: expected " ++ toString expected ++ ", got " ++
      toString actual
  | .zeroDivision => "Division by zero"
  | .notCallable type => "Value of type " ++ type ++ " is not callable"
  | .unsupportedOperands operator left right =>
    "Unsupported operands for `" ++ operator ++ "`: " ++ left ++ " and " ++ right
  | .unsupportedOperand operator operand =>
    "Unsupported operand for `" ++ operator ++ "`: " ++ operand
  | .expectedBoolean actual => "Expected boolean, got " ++ actual
  | .invalidCast source target => "Cannot cast " ++ source ++ " to " ++ target
  | .invalidAccess type => "Cannot access a member of " ++ type
  | .unknownNamespace name => "Unknown namespace: " ++ name
  | .unknownMember space member =>
      "Namespace " ++ space ++ " has no member " ++ member
  | .invalidRangeBound type => "Range bound must be a number, got " ++ type
  | .invalidRangeStep => "Range step must not be zero"
  | .invalidTarget => "Invalid assignment target"
  | .callDepth limit => "Maximum call depth of " ++ toString limit ++ " exceeded"
  | .host name message => name ++ ": " ++ message
  | .internal message => "Internal error: " ++ message

end ScriptLang
