import Scriptlet.Bytes

/-! # Errors while running
-/
namespace Scriptlet

/-- Why an evaluation fails. -/
inductive EvalError where
  | undefinedVariable (name : Bytes)
  | uninitializedVariable (name : Bytes)
  | unresolvedVariable (name : Bytes)
  | operandNotNumber
  | operandsNotNumbers
  | operandsNotAddable
  | divideByZero
  | notCallable
  | argumentCount (expected got : Nat)
  | noProperties
  | noFields
  | undefinedProperty (name : Bytes)
  | superclassNotClass
  | argumentNotString
  deriving DecidableEq, Repr

namespace EvalError

/-- A message about a name. -/
def naming (front name : Bytes) : Bytes := front ++ utf8 " '" ++ name ++ utf8 "'."

def message : EvalError → Bytes
  | .undefinedVariable name => naming (utf8 "Undefined variable") name
  | .uninitializedVariable name => naming (utf8 "Uninitialised variable") name
  | .unresolvedVariable name => naming (utf8 "Unresolved local variable") name
  | .operandNotNumber => utf8 "Operand must be a number."
  | .operandsNotNumbers => utf8 "Operands must be numbers."
  | .operandsNotAddable => utf8 "Operands must be two numbers or two strings."
  | .divideByZero => utf8 "Divide by zero error."
  | .notCallable => utf8 "Can only call functions and classes."
  | .argumentCount expected got =>
    utf8 "Expected " ++ decimal expected ++ utf8 " arguments but got " ++ decimal got ++ utf8 "."
  | .noProperties => utf8 "Only instances have properties."
  | .noFields => utf8 "Only instances have fields."
  | .undefinedProperty name => naming (utf8 "Undefined property") name
  | .superclassNotClass => utf8 "Superclass must be a class."
  | .argumentNotString => utf8 "Expected string argument."

end EvalError

end Scriptlet
