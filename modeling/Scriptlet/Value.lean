import Scriptlet.NameMap
import Scriptlet.Tree

/-! # Values

What expressions evaluate to. Functions, classes and instances have an identity: two of them are
equal only when they came from the same event of their creation. A class is never changed after its
creation, so it carries its methods and those of its superclasses itself; the fields of an instance
live in the machine. How a function keeps the names around it is left open: `κ` is what stands for
them, in the machine a reference to an environment.
-/
namespace Scriptlet

/-- A reference to an environment. -/
abbrev EnvId := Nat

/-- A function or method with the environment in which it was created. -/
structure Function (κ : Type := EnvId) where
  decl : FunctionDecl
  closure : κ
  isInitializer : Bool

/-- What one class declaration contributes. -/
structure ClassBody (κ : Type := EnvId) where
  id : Nat
  name : Bytes
  methods : NameMap (Function κ)

/-- A class: its own body, then those of its superclass, the superclass of that, and so on. -/
structure Class (κ : Type := EnvId) where
  own : ClassBody κ
  inherited : List (ClassBody κ)

variable {κ : Type}

def Function.arity (f : Function κ) : Nat := f.decl.params.length

/-- The body of a class whose methods are created in `closure`. Of two methods with one name the
later one counts. -/
def ClassBody.declared (id : Nat) (name : Bytes) (closure : κ) (methods : List FunctionDecl) :
    ClassBody κ :=
  ⟨id, name, .ofList (methods.map fun m =>
    (m.name.lexeme, ⟨m, closure, m.name.lexeme = initializerName⟩))⟩

namespace Class

def lineage (c : Class κ) : List (ClassBody κ) := c.own :: c.inherited

/-- The method of the nearest class in the lineage that has one of that name. -/
def findMethod? (c : Class κ) (name : Bytes) : Option (Function κ) :=
  c.lineage.findSome? (·.methods.get? name)

end Class

/-- The class with a body of its own that extends another class, if there is one. -/
def ClassBody.extending (own : ClassBody κ) (parent : Option (Class κ)) : Class κ :=
  ⟨own, (parent.map Class.lineage).getD []⟩

/-- The functions that every program starts with. -/
inductive Builtin where
  | clock
  | type
  | str
  | env
  deriving DecidableEq, Repr

namespace Builtin

def all : List Builtin := [.clock, .type, .str, .env]

def name : Builtin → Bytes
  | .clock => utf8 "clock"
  | .type => utf8 "type"
  | .str => utf8 "str"
  | .env => utf8 "env"

def arity : Builtin → Nat
  | .clock => 0
  | .type | .str | .env => 1

end Builtin

/-- A value, or the mark of a variable that was declared without one. -/
inductive Value (κ : Type := EnvId) where
  | scalar (s : Scalar)
  | builtin (b : Builtin)
  | function (id : Nat) (f : Function κ)
  | class_ (c : Class κ)
  | object (c : Class κ) (id : Nat)
  | uninitialized

namespace Value

def nil : Value κ := .scalar .nil

def bool (b : Bool) : Value κ := .scalar (.bool b)

def str (s : Bytes) : Value κ := .scalar (.str s)

/-- The text that printing a value shows. -/
def text : Value κ → Bytes
  | .scalar s => s.text
  | .builtin _ => utf8 "<native fn>"
  | .function _ f => utf8 "<fn " ++ f.decl.name.lexeme ++ utf8 ">"
  | .class_ c => c.own.name
  | .object c _ => c.own.name ++ utf8 " instance"
  | .uninitialized => utf8 "\x7b\x7d"

def truthy : Value κ → Bool
  | .scalar s => s.truthy
  | _ => true

def typeName : Value κ → Bytes
  | .scalar s => s.typeName
  | .builtin _ | .function _ _ => utf8 "function"
  | .class_ _ => utf8 "class"
  | .object _ _ => utf8 "instance"
  | .uninitialized => utf8 "unknown"

/-- Equality of the language: scalars by value, everything else by identity. -/
def same : Value κ → Value κ → Bool
  | .scalar a, .scalar b => a.same b
  | .builtin a, .builtin b => a == b
  | .function a _, .function b _ => a == b
  | .class_ a, .class_ b => a.own.id == b.own.id
  | .object _ a, .object _ b => a == b
  | .uninitialized, .uninitialized => true
  | _, _ => false

/-- How many arguments a value takes when called, if it can be called. -/
def arity? : Value κ → Option Nat
  | .builtin b => some b.arity
  | .function _ f => some f.arity
  | .class_ c => some (((c.findMethod? initializerName).map Function.arity).getD 0)
  | _ => none

end Value

end Scriptlet
