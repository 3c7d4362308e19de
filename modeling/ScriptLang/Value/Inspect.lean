import ScriptLang.Character.Quoted
import ScriptLang.Value.Basic

/-!
# Functions for a reader of traces

The printed form of a function says too little to tell two of them apart in a trace.
`Value.inspect?` gives the number of parameters and of captured frames of a closure,
and the name and arity of a function of the host.
-/

namespace ScriptLang.Value

/-- An optional number in a trace. -/
def inspectArity : Option Nat → String
  | some n => "Some(" ++ toString n ++ ")"
  | none => "None"

/-- A function in a trace. -/
def inspect? : Value → Option String
  | .closure f =>
    some ("Function(Closure \x7b parameters: " ++
      toString f.definition.parameters.length ++
      ", captured_depth: " ++ toString f.captured.length ++ " \x7d)")
  | .native f =>
    some ("Native(NativeFunction \x7b name: " ++ Character.quote f.name ++
      ", arity: " ++ inspectArity f.arity ++ ", .. \x7d)")
  | _ => none

end ScriptLang.Value
