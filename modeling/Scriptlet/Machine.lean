import Scriptlet.Store

/-! # The machine

What a running program can change: the environments and which of them is current, the fields of
instances, the supply of identities, the readings of the clock, and what was printed. Steps of a
program either give a result or abort, and in both cases leave the machine as it was then.

Only the memory knows where names live. The rest of the machine works with any memory `μ` and any
way `κ` for functions to keep the names around them.
-/
namespace Scriptlet

/-- Readings of the clock still to come, in nanoseconds. The last one repeats, and without any the
clock stands at zero. -/
structure Clock where
  readings : List Int64 := []
  deriving Repr

namespace Clock

def now (c : Clock) : Int64 := c.readings.headD 0

def tick (c : Clock) : Clock :=
  match c.readings with
  | _ :: next :: later => ⟨next :: later⟩
  | other => ⟨other⟩

end Clock

/-- All environments, and the one that is current. -/
structure Memory where
  store : Store
  scope : EnvId

/-- The field `objects` holds the fields of each instance, `fresh` is the next identity of a
function or class, and `printed` has the newest line first. -/
structure Machine (μ : Type := Memory) (κ : Type := EnvId) where
  memory : μ
  objects : Array (NameMap (Value κ)) := #[]
  fresh : Nat := 0
  clock : Clock := {}
  printed : List Bytes := []

/-- The environment of the globals is the first in the store. -/
def globalScope : EnvId := 0

/-- A machine whose globals are the built-in functions. -/
def Machine.start (clock : Clock) : Machine :=
  let globals := NameMap.ofList (Builtin.all.map fun b => (b.name, Value.builtin b))
  { memory := ⟨Store.push {} ⟨none, globals⟩, globalScope⟩, clock }

/-- Why an evaluation has no result: an error at a token, a distance that leads out of all
environments, or a budget that is used up. -/
inductive Abort where
  | fault (error : EvalError) (token : Token)
  | lost
  | exhausted
  deriving DecidableEq, Repr

/-- Steps on a machine with some memory. -/
abbrev Steps (μ κ : Type) := EStateM Abort (Machine μ κ)

abbrev Eval := Steps Memory EnvId

namespace Steps

variable {μ κ α : Type}

def fault (error : EvalError) (token : Token) : Steps μ κ α := throw (.fault error token)

/-- A result, or an error tied to a token. -/
def orFault (token : Token) : Except EvalError α → Steps μ κ α
  | .ok a => return a
  | .error e => fault e token

def orLost : Option α → Steps μ κ α
  | some a => return a
  | none => throw .lost

def print (line : Bytes) : Steps μ κ Unit := modify fun m => { m with printed := line :: m.printed }

def newIdentity : Steps μ κ Nat := modifyGet fun m => (m.fresh, { m with fresh := m.fresh + 1 })

/-- A function value with an identity of its own. -/
def newFunction (f : Function κ) : Steps μ κ (Value κ) := return .function (← newIdentity) f

/-- An instance without fields. -/
def newObject (c : Class κ) : Steps μ κ (Value κ) :=
  modifyGet fun m => (.object c m.objects.size, { m with objects := m.objects.push .empty })

def field? (object : Nat) (name : Bytes) : Steps μ κ (Option (Value κ)) := do
  return (← get).objects[object]?.bind (·.get? name)

def setField (object : Nat) (name : Bytes) (value : Value κ) : Steps μ κ Unit :=
  modify fun m => { m with objects := m.objects.modify object (·.insert name value) }

/-- The clock in seconds. Each reading is used once. -/
def readClock : Steps μ κ (Value κ) :=
  modifyGet fun m => (.scalar (.float (m.clock.now.toFloat / 1e9)), { m with clock := m.clock.tick })

end Steps

namespace Eval

/-- Creates an environment. -/
def newEnv (enclosing : EnvId) (bindings : NameMap Value) : Eval EnvId :=
  modifyGet fun m =>
    (m.memory.store.size, { m with memory.store := m.memory.store.push ⟨some enclosing, bindings⟩ })

/-- Runs steps with another current environment and goes back however they end. -/
def inScope {α : Type} (scope : EnvId) (steps : Eval α) : Eval α := fun m =>
  let outer := m.memory.scope
  match steps { m with memory.scope := scope } with
  | .ok a m => .ok a { m with memory.scope := outer }
  | .error e m => .error e { m with memory.scope := outer }

/-- Binds a name in an environment that has been found. -/
def store (holder : EnvId) (name : Bytes) (value : Value) : Eval Unit :=
  modify fun m => { m with memory.store := m.memory.store.define holder name value }

/-- Binds a name in the current environment. -/
def define (name : Bytes) (value : Value) : Eval Unit := do
  store (← get).memory.scope name value

/-- A method whose `this` is the given instance. -/
def bind (method : Function) (object : Value) : Eval Function := do
  let closure ← newEnv method.closure (.ofList [(thisName, object)])
  return { method with closure }

end Eval

end Scriptlet
