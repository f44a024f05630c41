import Scriptlet.Session

/-! # Lexical scope

A second evaluator, in which names need no distances. The names in scope are a map to cells, and
the map is never changed: a declaration makes a new cell and a larger map for what follows it. A
function keeps the map of the place where it was declared, so a declaration that is run later can
not change what the function refers to. A name that is not in the map is a global.
-/
namespace Scriptlet.Lexical

/-- A place that holds the value of one local variable. -/
abbrev Cell := Nat

/-- The local names in scope. -/
abbrev Names := NameMap Cell

/-- Where names live: the globals by name, everything else in cells. -/
structure Memory where
  globals : NameMap (Value Names)
  cells : Array (Value Names) := #[]

abbrev Machine := Scriptlet.Machine Memory Names

abbrev Eval := Steps Memory Names

/-- A machine whose globals are the built-in functions. -/
def Machine.start (clock : Clock) : Machine :=
  { memory := ⟨.ofList (Builtin.all.map fun b => (b.name, .builtin b)), #[]⟩, clock }

/-- The scope of a statement. Declarations at the top level make globals. -/
inductive Scope where
  | global
  | nested (names : Names)

def Scope.names : Scope → Names
  | .global => .empty
  | .nested names => names

/-- What a declaration makes: a global of that name, or a cell. -/
inductive Slot where
  | global (name : Bytes)
  | cell (cell : Cell)

namespace Eval

open Steps

def newCell (value : Value Names) : Eval Cell :=
  modifyGet fun m =>
    (m.memory.cells.size, { m with memory.cells := m.memory.cells.push value })

def setCell (cell : Cell) (value : Value Names) : Eval Unit :=
  modify fun m => { m with memory.cells := m.memory.cells.setIfInBounds cell value }

def setGlobal (name : Bytes) (value : Value Names) : Eval Unit :=
  modify fun m => { m with memory.globals := m.memory.globals.insert name value }

/-- Names with one more, which gets a cell of its own. -/
def extend (names : Names) (name : Bytes) (value : Value Names) : Eval Names := do
  return names.insert name (← newCell value)

/-- Makes room for a declaration. The scope that comes back is that of the statements after it. -/
def declare (name : Bytes) : Scope → Eval (Scope × Slot)
  | .global => return (.global, .global name)
  | .nested names => do
    let cell ← newCell .uninitialized
    return (.nested (names.insert name cell), .cell cell)

def fill (slot : Slot) (value : Value Names) : Eval Unit :=
  match slot with
  | .global name => setGlobal name value
  | .cell cell => setCell cell value

/-- What a name stands for: the value of its cell, or a global. -/
def value? (names : Names) (name : Bytes) (m : Machine) : Option (Value Names) :=
  match names.get? name with
  | some cell => m.memory.cells[cell]?
  | none => m.memory.globals.get? name

def lookUp (names : Names) (name : Bytes) (token : Token) : Eval (Value Names) := do
  match value? names name (← get) with
  | some value => orFault token (Store.initialized name value)
  | none => fault (.undefinedVariable name) token

def assign (names : Names) (name : Token) (value : Value Names) : Eval Unit := do
  match names.get? name.lexeme with
  | some cell => setCell cell value
  | none =>
    match (← get).memory.globals.get? name.lexeme with
    | some _ => setGlobal name.lexeme value
    | none => fault (.undefinedVariable name.lexeme) name

/-- A method whose `this` is the given instance. -/
def bind (method : Function Names) (object : Value Names) : Eval (Function Names) := do
  let closure ← extend method.closure thisName object
  return { method with closure }

/-- The method that a name stands for in a class, bound to an instance. -/
def methodFor (c : Class Names) (name : Token) (object : Value Names) : Eval (Value Names) := do
  match c.findMethod? name.lexeme with
  | some method => newFunction (← bind method object)
  | none => fault (.undefinedProperty name.lexeme) name

def property (object : Value Names) (name : Token) : Eval (Value Names) := do
  match object with
  | .object c id =>
    match ← field? id name.lexeme with
    | some value => return value
    | none => methodFor c name object
  | _ => fault .noProperties name

def superMethod (names : Names) (keyword method : Token) : Eval (Value Names) := do
  let parent ← lookUp names superName keyword
  let object ← lookUp names thisName keyword
  match parent, object with
  | .class_ c, .object _ _ => methodFor c method object
  | .class_ _, _ => fault .noProperties keyword
  | _, _ => fault .superclassNotClass keyword

/-- Each parameter gets a cell of its own, which starts with the argument. -/
def bindParameters : List Token → List (Value Names) → Names → Eval Names
  | [], _, names => return names
  | _ :: _, [], _ => throw .lost
  | p :: ps, a :: rest, names => do bindParameters ps rest (← extend names p.lexeme a)

def superclass? (names : Names) : Option Token → Eval (Option (Class Names))
  | none => return none
  | some token => do
    match ← lookUp names token.lexeme token with
    | .class_ c => return some c
    | _ => fault .superclassNotClass token

/-- The names that the methods of a class see. -/
def methodNames (names : Names) : Option (Class Names) → Eval Names
  | none => return names
  | some c => extend names superName (.class_ c)

def declareClass (scope : Scope) (name : Token) (superclass : Option Token)
    (methods : List FunctionDecl) : Eval Scope := do
  let parent ← superclass? scope.names superclass
  let (scope, slot) ← declare name.lexeme scope
  fill slot .nil
  let closure ← methodNames scope.names parent
  let own := ClassBody.declared (← newIdentity) name.lexeme closure methods
  fill slot (.class_ (own.extending parent))
  return scope

variable (processVars : NameMap Bytes)

mutual

def expr : Nat → Names → Expr → Eval (Value Names)
  | 0, _, _ => throw .exhausted
  | n + 1, names, e =>
    match e with
    | .literal value => return .scalar value
    | .variable_ name => lookUp names name.lexeme name
    | .self keyword => lookUp names thisName keyword
    | .superMethod keyword method => superMethod names keyword method
    | .grouping inner => expr n names inner
    | .unary op token operand => do
      let value ← expr n names operand
      return .scalar (← orFault token (op.apply value))
    | .binary op token left right => do
      let l ← expr n names left
      let r ← expr n names right
      return .scalar (← orFault token (op.apply l r))
    | .logical op left right => do
      let l ← expr n names left
      if l.truthy = (op == .or) then return l else expr n names right
    | .assign name value => do
      let v ← expr n names value
      assign names name v
      return v
    | .get object name => do
      let o ← expr n names object
      property o name
    | .set object name value => do
      let v ← expr n names value
      let o ← expr n names object
      match o with
      | .object _ id =>
        setField id name.lexeme v
        return v
      | _ => fault .noFields name
    | .call callee paren arguments => do
      let f ← expr n names callee
      let args ← exprs n names arguments
      call n paren f args

def exprs : Nat → Names → List Expr → Eval (List (Value Names))
  | 0, _, _ => throw .exhausted
  | _ + 1, _, [] => return []
  | n + 1, names, e :: rest => do
    let v ← expr n names e
    let vs ← exprs n names rest
    return v :: vs

def call : Nat → Token → Value Names → List (Value Names) → Eval (Value Names)
  | 0, _, _, _ => throw .exhausted
  | n + 1, paren, callee, args =>
    match callee.arity? with
    | none => fault .notCallable paren
    | some arity =>
      if args.length ≠ arity then fault (.argumentCount arity args.length) paren
      else match callee with
        | .builtin b => callBuiltin processVars paren b args
        | .function _ f => invoke n paren f args
        | .class_ c => do
          let object ← newObject c
          match c.findMethod? initializerName with
          | none => return object
          | some method =>
            let initializer ← bind method object
            let _ ← invoke n paren initializer args
            return object
        | _ => fault .notCallable paren

def invoke : Nat → Token → Function Names → List (Value Names) → Eval (Value Names)
  | 0, _, _, _ => throw .exhausted
  | n + 1, paren, f, args => do
    let names ← bindParameters f.decl.params args f.closure
    let outcome ← stmts n (.nested names) f.decl.body
    if f.isInitializer then lookUp f.closure thisName paren else return outcome.result

/-- Runs a statement, and gives the scope of the statements after it. -/
def stmt : Nat → Scope → Stmt → Eval (Outcome Names × Scope)
  | 0, _, _ => throw .exhausted
  | n + 1, scope, s =>
    match s with
    | .expression value => do
      let _ ← expr n scope.names value
      return (.normal, scope)
    | .print value => do
      let v ← expr n scope.names value
      print v.text
      return (.normal, scope)
    | .varDecl name none => do
      let (scope, slot) ← declare name.lexeme scope
      fill slot .uninitialized
      return (.normal, scope)
    | .varDecl name (some value) => do
      let (scope, slot) ← declare name.lexeme scope
      let v ← expr n scope.names value
      fill slot v
      return (.normal, scope)
    | .block body => do
      let outcome ← stmts n (.nested scope.names) body
      return (outcome, scope)
    | .ifElse condition thenBranch elseBranch => do
      let c ← expr n scope.names condition
      if c.truthy then stmt n scope thenBranch
      else match elseBranch with
        | some s => stmt n scope s
        | none => return (.normal, scope)
    | .while_ condition body => do
      let c ← expr n scope.names condition
      if c.truthy then
        match ← stmt n scope body with
        | (.normal, _) => stmt n scope (.while_ condition body)
        | (.returned value, _) => return (.returned value, scope)
      else return (.normal, scope)
    | .return_ _ none => return (.returned .nil, scope)
    | .return_ _ (some value) => do
      let v ← expr n scope.names value
      return (.returned v, scope)
    | .funDecl decl => do
      let (scope, slot) ← declare decl.name.lexeme scope
      let f ← newFunction ⟨decl, scope.names, false⟩
      fill slot f
      return (.normal, scope)
    | .classDecl name superclass methods => do
      let scope ← declareClass scope name superclass methods
      return (.normal, scope)

def stmts : Nat → Scope → List Stmt → Eval (Outcome Names)
  | 0, _, _ => throw .exhausted
  | _ + 1, _, [] => return .normal
  | n + 1, scope, s :: rest => do
    match ← stmt n scope s with
    | (.normal, scope) => stmts n scope rest
    | (.returned value, _) => return .returned value

end

/-- Runs a program, statement by statement, up to the first error. -/
def program (budget : Nat) : List Stmt → Eval Unit
  | [] => return ()
  | s :: rest => do
    let _ ← stmt processVars budget .global s
    program budget rest

end Eval

end Scriptlet.Lexical
