import Scriptlet.Arithmetic
import Scriptlet.Machine
import Scriptlet.Resolution

/-! # Evaluation

The meaning of expressions and statements on the machine. The recursion is on a budget, used up by
one with each step down the tree, each call and each round of a loop; a program that ends does so
with every budget above some bound.
-/
namespace Scriptlet

/-- What a program sees and can not change: the distances of its names, and the variables of the
process it runs in. -/
structure Context where
  table : Table := ∅
  processVars : NameMap Bytes := .empty

/-- How a statement ends: the next one follows, or the enclosing call returns. -/
inductive Outcome (κ : Type := EnvId) where
  | normal
  | returned (value : Value κ)

/-- What a call gives whose body ends so. -/
def Outcome.result {κ : Type} : Outcome κ → Value κ
  | .normal => .nil
  | .returned value => value

/-- Calls a built-in function, whose number of arguments is right. -/
def Steps.callBuiltin {μ κ : Type} (processVars : NameMap Bytes) (paren : Token) :
    Builtin → List (Value κ) → Steps μ κ (Value κ)
  | .clock, [] => readClock
  | .type, [value] => return .str value.typeName
  | .str, [value] => return .str value.text
  | .env, [.scalar (.str name)] =>
    match processVars.get? name with
    | some value => return .str value
    | none => return .nil
  | .env, [_] => fault .argumentNotString paren
  | _, _ => throw .lost

namespace Eval

open Steps

variable (ctx : Context)

/-- Reads a name a known number of enclosing links away from an environment. -/
def readAt (scope : EnvId) (distance : Nat) (name : Bytes) (token : Token) : Eval Value := do
  let found ← orLost ((← get).memory.store.readAt? scope distance name)
  orFault token found

/-- Reads a name at its distance, or among the globals when it has none. -/
def lookUp (name : Token) : Eval Value := do
  let m ← get
  match ctx.table[name.index]? with
  | some distance => readAt m.memory.scope distance name.lexeme name
  | none => orFault name (m.memory.store.read globalScope name.lexeme)

/-- The environment that binds a name: the one at its distance, or that of the globals when it has
none. -/
def holder (name : Token) : Eval EnvId := do
  let m ← get
  match ctx.table[name.index]? with
  | some distance => orLost (m.memory.store.ancestor? m.memory.scope distance)
  | none =>
    match m.memory.store.holder? globalScope name.lexeme with
    | some holder => return holder
    | none => fault (.undefinedVariable name.lexeme) name

/-- Gives a new value to a name. -/
def assign (name : Token) (value : Value) : Eval Unit := do
  store (← holder ctx name) name.lexeme value

/-- The method that a name stands for in a class, bound to an instance. -/
def methodFor (c : Class) (name : Token) (object : Value) : Eval Value := do
  match c.findMethod? name.lexeme with
  | some method => newFunction (← bind method object)
  | none => fault (.undefinedProperty name.lexeme) name

/-- A property of an instance: a field, or else a method bound to the instance. -/
def property (object : Value) (name : Token) : Eval Value := do
  match object with
  | .object c id =>
    match ← field? id name.lexeme with
    | some value => return value
    | none => methodFor c name object
  | _ => fault .noProperties name

/-- A method of the superclass, bound to the instance whose method is running. The superclass is
bound one environment outside of the instance. -/
def superMethod (keyword method : Token) : Eval Value := do
  let scope := (← get).memory.scope
  match ctx.table[keyword.index]? with
  | none => fault (.unresolvedVariable superName) keyword
  | some distance =>
    let parent ← readAt scope distance superName keyword
    let object ← readAt scope (distance - 1) thisName keyword
    match parent, object with
    | .class_ c, .object _ _ => methodFor c method object
    | .class_ _, _ => fault .noProperties keyword
    | _, _ => fault .superclassNotClass keyword

/-- Bindings of parameters to arguments, of which there have to be enough. -/
def bindParameters : List Token → List Value → NameMap Value → Option (NameMap Value)
  | [], _, bindings => some bindings
  | _ :: _, [], _ => none
  | p :: ps, a :: rest, bindings => bindParameters ps rest (bindings.insert p.lexeme a)

/-- The class that a declaration extends, if it names one. -/
def superclass? : Option Token → Eval (Option Class)
  | none => return none
  | some token => do
    match ← lookUp ctx token with
    | .class_ c => return some c
    | _ => fault .superclassNotClass token

/-- The environment of the methods of a class: a superclass is bound around them. -/
def methodScope (scope : EnvId) : Option Class → Eval EnvId
  | none => return scope
  | some c => newEnv scope (.ofList [(superName, .class_ c)])

/-- Declares a class. The name is bound before the class exists. -/
def declareClass (name : Token) (superclass : Option Token) (methods : List FunctionDecl) :
    Eval Unit := do
  let parent ← superclass? ctx superclass
  define name.lexeme .nil
  let scope := (← get).memory.scope
  let closure ← methodScope scope parent
  let own := ClassBody.declared (← newIdentity) name.lexeme closure methods
  store scope name.lexeme (.class_ (own.extending parent))

mutual

def expr : Nat → Expr → Eval Value
  | 0, _ => throw .exhausted
  | n + 1, e =>
    match e with
    | .literal value => return .scalar value
    | .variable_ name => lookUp ctx name
    | .self keyword => lookUp ctx keyword
    | .superMethod keyword method => superMethod ctx keyword method
    | .grouping inner => expr n inner
    | .unary op token operand => do
      let value ← expr n operand
      return .scalar (← orFault token (op.apply value))
    | .binary op token left right => do
      let l ← expr n left
      let r ← expr n right
      return .scalar (← orFault token (op.apply l r))
    | .logical op left right => do
      let l ← expr n left
      if l.truthy = (op == .or) then return l else expr n right
    | .assign name value => do
      let v ← expr n value
      assign ctx name v
      return v
    | .get object name => do
      let o ← expr n object
      property o name
    | .set object name value => do
      let v ← expr n value
      let o ← expr n object
      match o with
      | .object _ id =>
        setField id name.lexeme v
        return v
      | _ => fault .noFields name
    | .call callee paren arguments => do
      let f ← expr n callee
      let args ← exprs n arguments
      call n paren f args

def exprs : Nat → List Expr → Eval (List Value)
  | 0, _ => throw .exhausted
  | _ + 1, [] => return []
  | n + 1, e :: rest => do
    let v ← expr n e
    let vs ← exprs n rest
    return v :: vs

/-- Calls a value. Errors of the call itself are tied to its closing parenthesis. -/
def call : Nat → Token → Value → List Value → Eval Value
  | 0, _, _, _ => throw .exhausted
  | n + 1, paren, callee, args =>
    match callee.arity? with
    | none => fault .notCallable paren
    | some arity =>
      if args.length ≠ arity then fault (.argumentCount arity args.length) paren
      else match callee with
        | .builtin b => callBuiltin ctx.processVars paren b args
        | .function _ f => invoke n paren f args
        | .class_ c => do
          let object ← newObject c
          match c.findMethod? initializerName with
          | none => return object
          | some method =>
            let initializer ← bind method object
            let _ ← invoke n paren initializer args
            return object
        | _ => fault .notCallable paren

/-- Runs the body of a function. An initializer gives its instance whatever the body returns. -/
def invoke : Nat → Token → Function → List Value → Eval Value
  | 0, _, _, _ => throw .exhausted
  | n + 1, paren, f, args => do
    let bindings ← orLost (bindParameters f.decl.params args .empty)
    let scope ← newEnv f.closure bindings
    let outcome ← inScope scope (stmts n f.decl.body)
    if f.isInitializer then readAt f.closure 0 thisName paren else return outcome.result

def stmt : Nat → Stmt → Eval Outcome
  | 0, _ => throw .exhausted
  | n + 1, s =>
    match s with
    | .expression value => do
      let _ ← expr n value
      return .normal
    | .print value => do
      let v ← expr n value
      print v.text
      return .normal
    | .varDecl name none => do
      define name.lexeme .uninitialized
      return .normal
    | .varDecl name (some value) => do
      let v ← expr n value
      define name.lexeme v
      return .normal
    | .block body => do
      let scope ← newEnv (← get).memory.scope .empty
      inScope scope (stmts n body)
    | .ifElse condition thenBranch elseBranch => do
      let c ← expr n condition
      if c.truthy then stmt n thenBranch
      else match elseBranch with
        | some s => stmt n s
        | none => return .normal
    | .while_ condition body => do
      let c ← expr n condition
      if c.truthy then
        match ← stmt n body with
        | .normal => stmt n (.while_ condition body)
        | .returned value => return .returned value
      else return .normal
    | .return_ _ none => return .returned .nil
    | .return_ _ (some value) => do
      let v ← expr n value
      return .returned v
    | .funDecl decl => do
      let f ← newFunction ⟨decl, (← get).memory.scope, false⟩
      define decl.name.lexeme f
      return .normal
    | .classDecl name superclass methods => do
      declareClass ctx name superclass methods
      return .normal

def stmts : Nat → List Stmt → Eval Outcome
  | 0, _ => throw .exhausted
  | _ + 1, [] => return .normal
  | n + 1, s :: rest => do
    match ← stmt n s with
    | .normal => stmts n rest
    | .returned value => return .returned value

end

/-- Runs a program, statement by statement, up to the first error. A return that no function
encloses ends only its own statement. -/
def program (budget : Nat) : List Stmt → Eval Unit
  | [] => return ()
  | s :: rest => do
    let _ ← stmt ctx budget s
    program budget rest

end Eval

end Scriptlet
