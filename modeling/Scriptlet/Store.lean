import Scriptlet.EvalError
import Scriptlet.Value

/-! # Environments

An environment binds names and may be enclosed by another one, which was there before it. The store
holds all environments ever created; an environment is known by its place in the store. There are
two ways to a binding: the search outwards for the first environment that binds a name, and the
walk over a known number of enclosing links.
-/
namespace Scriptlet

structure Env where
  enclosing : Option EnvId
  bindings : NameMap Value

structure Store where
  envs : Array Env := #[]

namespace Store

def size (s : Store) : Nat := s.envs.size

def get? (s : Store) (id : EnvId) : Option Env := s.envs[id]?

/-- Adds an environment, which takes the next place. -/
def push (s : Store) (env : Env) : Store := { s with envs := s.envs.push env }

/-- What the environment `id` itself binds a name to. -/
def bound? (s : Store) (id : EnvId) (name : Bytes) : Option Value :=
  (s.get? id).bind (·.bindings.get? name)

/-- Binds a name in the environment `id` itself. -/
def define (s : Store) (id : EnvId) (name : Bytes) (value : Value) : Store :=
  { s with envs := s.envs.modify id fun env =>
      { env with bindings := env.bindings.insert name value } }

/-- An environment and those that enclose it, at most `limit` of them, innermost first. -/
def chainUpTo (s : Store) : Nat → EnvId → List EnvId
  | 0, _ => []
  | limit + 1, id =>
    match s.get? id with
    | none => []
    | some env =>
      id :: match env.enclosing with
        | none => []
        | some outer => s.chainUpTo limit outer

/-- An environment and all that enclose it. As each link leads to an older environment, a chain has
no more members than the store. -/
def chain (s : Store) (id : EnvId) : List EnvId := s.chainUpTo s.size id

/-- The first environment of a chain that binds a name. -/
def holder? (s : Store) (id : EnvId) (name : Bytes) : Option EnvId :=
  (s.chain id).find? fun e => (s.bound? e name).isSome

/-- The environment a number of enclosing links away. -/
def ancestor? (s : Store) (id : EnvId) : Nat → Option EnvId
  | 0 => some id
  | distance + 1 =>
    match s.get? id with
    | none => none
    | some env =>
      match env.enclosing with
      | none => none
      | some outer => s.ancestor? outer distance

/-- A bound value, unless the variable was declared and never given one. -/
def initialized {κ : Type} (name : Bytes) : Value κ → Except EvalError (Value κ)
  | .uninitialized => .error (.uninitializedVariable name)
  | value => .ok value

/-- Reads a name by searching outwards. -/
def read (s : Store) (id : EnvId) (name : Bytes) : Except EvalError Value :=
  match (s.holder? id name).bind (s.bound? · name) with
  | some value => initialized name value
  | none => .error (.undefinedVariable name)

/-- Gives a new value to the binding that a search outwards finds. -/
def assign (s : Store) (id : EnvId) (name : Bytes) (value : Value) : Except EvalError Store :=
  match s.holder? id name with
  | some holder => .ok (s.define holder name value)
  | none => .error (.undefinedVariable name)

/-- Reads a name at a known distance; nothing when the chain is not that long. -/
def readAt? (s : Store) (id : EnvId) (distance : Nat) (name : Bytes) :
    Option (Except EvalError Value) :=
  (s.ancestor? id distance).map fun holder =>
    match s.bound? holder name with
    | some value => initialized name value
    | none => .error (.unresolvedVariable name)

/-- Binds a name at a known distance; nothing when the chain is not that long. -/
def assignAt? (s : Store) (id : EnvId) (distance : Nat) (name : Bytes) (value : Value) :
    Option Store :=
  (s.ancestor? id distance).map fun holder => s.define holder name value

end Store

end Scriptlet
