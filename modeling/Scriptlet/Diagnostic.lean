import Scriptlet.Token.Scan

/-! # Diagnostics

What is reported to the user: the stage that found the problem, a line, the place on that line and
a message. Each stage has its own type of causes, and becomes a diagnostic only here or beside the
stage.
-/
namespace Scriptlet

/-- The stages of running a source, in order. -/
inductive Stage where
  | lexical
  | syntactic
  | static
  | runtime
  deriving DecidableEq, Repr

namespace Stage

/-- The stage with a given number, counted from zero. -/
def ofNumber? : Int → Option Stage
  | 0 => some .lexical
  | 1 => some .syntactic
  | 2 => some .static
  | 3 => some .runtime
  | _ => none

def name : Stage → Bytes
  | .lexical => utf8 "lexical"
  | .syntactic => utf8 "syntax"
  | .static => utf8 "static"
  | .runtime => utf8 "runtime"

end Stage

/-- The name of a stage, which may be missing. -/
def stageName : Option Stage → Bytes
  | some s => s.name
  | none => utf8 "unknown"

structure Diagnostic where
  stage : Stage
  line : Nat
  place : Bytes
  message : Bytes
  deriving DecidableEq, Repr

/-- A problem while running shows its line below the message, any other in front of it. -/
def renderReport (stage : Option Stage) (line : Int) (place message : Bytes) : Bytes :=
  if stage = some .runtime then
    message ++ utf8 "\n[line " ++ signedDecimal line ++ utf8 "]"
  else
    utf8 "[line " ++ signedDecimal line ++ utf8 "] Error" ++ place ++ utf8 ": " ++ message

namespace Diagnostic

def render (d : Diagnostic) : Bytes := renderReport (some d.stage) d.line d.place d.message

def ofLexical (fault : LexicalFault) : Diagnostic :=
  ⟨.lexical, fault.line, [], fault.error.message⟩

/-- The place of a problem at a token. -/
def placeOf (token : Token) : Bytes := utf8 " at '" ++ token.lexeme ++ utf8 "'"

def atToken (stage : Stage) (token : Token) (message : Bytes) : Diagnostic :=
  ⟨stage, token.line, placeOf token, message⟩

/-- A problem at the end of a source that ends on `line`. -/
def atEnd (stage : Stage) (line : Nat) (message : Bytes) : Diagnostic :=
  ⟨stage, line, utf8 " at end", message⟩

end Diagnostic

end Scriptlet
