import Scriptlet.Yaml.Tag

/-! # Nodes

What a document holds: scalars, sequences and mappings, and references to nodes with an anchor.
Nodes know the line they start on, counted from one.
-/
namespace Scriptlet

namespace Yaml

/-- A reference holds what it stands for. One that stands for a node around it is a cycle. -/
inductive Node where
  | scalar (line : Nat) (tag : Tag) (text : Bytes)
  | sequence (line : Nat) (tag : Tag) (items : List Node)
  | mapping (line : Nat) (tag : Tag) (entries : List (Node × Node))
  | reference (line : Nat) (name : Bytes) (target : Node)
  | cycle (line : Nat) (name : Bytes)

namespace Node

def line : Node → Nat
  | .scalar line _ _ | .sequence line _ _ | .mapping line _ _ => line
  | .reference line _ _ | .cycle line _ => line

def isMapping : Node → Bool
  | .mapping .. => true
  | _ => false

/-- The written form of a node as far as keys are compared by it. -/
def label : Node → Nat × Bytes
  | .scalar _ _ text => (0, text)
  | .sequence .. => (1, [])
  | .mapping .. => (2, [])
  | .reference _ name _ | .cycle _ name => (3, name)

/-- Whether a key stands for the entries of other mappings. -/
def isMerge : Node → Bool
  | .scalar _ tag text => tag == .merge && text == utf8 "<<"
  | _ => false

end Node

/-- A document, and a bound on how deep its nodes are nested, references included. -/
structure Document where
  root : Node
  depth : Nat

end Yaml

end Scriptlet
