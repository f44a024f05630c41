import Scriptlet.Yaml.Fault

/-! # Tokens of documents

A document as a sequence of tokens. Where the text stops making sense the sequence ends with the
fault, so that whoever reads the tokens meets the fault only when it matters.
-/
namespace Scriptlet

namespace Yaml

inductive TokenKind where
  | streamEnd
  | version (major minor : Nat)
  | shorthand (handle expansion : Bytes)
  | documentStart
  | documentEnd
  | blockSequenceStart
  | blockMappingStart
  | blockEnd
  | flowSequenceStart
  | flowSequenceEnd
  | flowMappingStart
  | flowMappingEnd
  | blockEntry
  | flowEntry
  | key
  | value
  | reference (name : Bytes)
  | anchor (name : Bytes)
  | tag (handle suffix : Bytes)
  | scalar (text : Bytes) (isPlain : Bool)
  | fault (f : Fault)
  deriving DecidableEq, Repr

/-- A token and the line it starts on. -/
structure Token where
  kind : TokenKind
  line : Nat
  deriving DecidableEq, Repr

end Yaml

end Scriptlet
