import Scriptlet.Diagnostic
import Scriptlet.NameMap
import Scriptlet.Tree
import Std.Data.TreeMap

/-! # Resolving names

Before a program runs, every occurrence of a name that refers to a local declaration is given the
number of scopes between the occurrence and the scope that declares it. The numbers are kept in a
table under the place of the occurrence. An occurrence without an entry refers to a global. The
same walk over the tree finds the errors that need no running.
-/
namespace Scriptlet

/-- Distances in scopes, by the places of name tokens. -/
abbrev Table := Std.TreeMap Nat Nat

inductive StaticError where
  | thisOutsideClass
  | superOutsideClass
  | superWithoutSuperclass
  | topLevelReturn
  | initializerReturn
  | ownInitializer
  | alreadyDeclared
  deriving DecidableEq, Repr

def StaticError.message : StaticError → Bytes
  | .thisOutsideClass => utf8 "Cannot use 'this' outside of a class."
  | .superOutsideClass => utf8 "Cannot use 'super' outside of a class."
  | .superWithoutSuperclass => utf8 "Cannot use 'super' in a class with no superclass."
  | .topLevelReturn => utf8 "Cannot return from top-level code."
  | .initializerReturn => utf8 "Cannot return a value from an initializer."
  | .ownInitializer => utf8 "Cannot read local variable in its own initializer."
  | .alreadyDeclared => utf8 "Variable with this name already declared in this scope."

structure StaticFault where
  error : StaticError
  token : Token
  deriving DecidableEq, Repr

def Diagnostic.ofStatic (fault : StaticFault) : Diagnostic :=
  .atToken .static fault.token fault.error.message

/-- What kind of function body encloses a statement. -/
inductive FunctionContext where
  | function
  | initializer
  | method
  deriving DecidableEq, Repr

/-- What kind of class encloses a statement. -/
inductive ClassContext where
  | plain
  | derived
  deriving DecidableEq, Repr

/-- The scopes around a place, the innermost first, without the global one. A scope tells for each
declared name whether its initializer is finished. -/
abbrev Scopes := List (NameMap Bool)

/-- The state of the walk. Faults are kept newest first. -/
structure Resolver where
  scopes : Scopes := []
  function : Option FunctionContext := none
  class_ : Option ClassContext := none
  table : Table := ∅
  faults : List StaticFault := []

namespace Resolver

def report (error : StaticError) (token : Token) (r : Resolver) : Resolver :=
  { r with faults := ⟨error, token⟩ :: r.faults }

/-- Binds a name in the innermost scope; globals are not recorded. -/
def mark (name : Bytes) (finished : Bool) (r : Resolver) : Resolver :=
  match r.scopes with
  | [] => r
  | innermost :: outer => { r with scopes := innermost.insert name finished :: outer }

/-- The entry of a name in the innermost scope. -/
def innermost? (name : Bytes) (r : Resolver) : Option Bool :=
  r.scopes.head?.bind (·.get? name)

def declare (name : Token) (r : Resolver) : Resolver :=
  let r := if (r.innermost? name.lexeme).isSome then r.report .alreadyDeclared name else r
  r.mark name.lexeme false

def define (name : Token) (r : Resolver) : Resolver := r.mark name.lexeme true

/-- Records the distance to the nearest scope that declares a name. -/
def refer (name : Token) (r : Resolver) : Resolver :=
  match r.scopes.findIdx? (·.contains name.lexeme) with
  | some distance => { r with table := r.table.insert name.index distance }
  | none => r

/-- A variable can not be read while its own initializer is running. -/
def readVariable (name : Token) (r : Resolver) : Resolver :=
  let r := if r.innermost? name.lexeme = some false then r.report .ownInitializer name else r
  r.refer name

/-- Runs a walk inside one more scope. -/
def within (scope : NameMap Bool) (walk : Resolver → Resolver) (r : Resolver) : Resolver :=
  let r := walk { r with scopes := scope :: r.scopes }
  { r with scopes := r.scopes.tail }

mutual

def expr : Expr → Resolver → Resolver
  | .literal _, r => r
  | .variable_ name, r => r.readVariable name
  | .self keyword, r =>
    match r.class_ with
    | none => r.report .thisOutsideClass keyword
    | some _ => r.refer keyword
  | .superMethod keyword _, r =>
    let r := match r.class_ with
      | none => r.report .superOutsideClass keyword
      | some .plain => r.report .superWithoutSuperclass keyword
      | some .derived => r
    r.refer keyword
  | .grouping inner, r => expr inner r
  | .unary _ _ operand, r => expr operand r
  | .binary _ _ left right, r => expr right (expr left r)
  | .logical _ left right, r => expr right (expr left r)
  | .assign name value, r => (expr value r).refer name
  | .get object _, r => expr object r
  | .set object _ value, r => expr object (expr value r)
  | .call callee _ arguments, r => exprs arguments (expr callee r)

def exprs : List Expr → Resolver → Resolver
  | [], r => r
  | e :: rest, r => exprs rest (expr e r)

end

mutual

def stmt : Stmt → Resolver → Resolver
  | .expression value, r => expr value r
  | .print value, r => expr value r
  | .varDecl name none, r => (r.declare name).define name
  | .varDecl name (some value), r => (expr value (r.declare name)).define name
  | .block body, r => r.within .empty (stmts body)
  | .ifElse condition thenBranch none, r => stmt thenBranch (expr condition r)
  | .ifElse condition thenBranch (some elseBranch), r =>
    stmt elseBranch (stmt thenBranch (expr condition r))
  | .while_ condition body, r => stmt body (expr condition r)
  | .return_ keyword value, r =>
    let r := if r.function = none then r.report .topLevelReturn keyword else r
    match value with
    | none => r
    | some value =>
      let r := if r.function = some .initializer then r.report .initializerReturn keyword else r
      expr value r
  | .funDecl decl, r => functionDecl .function decl ((r.declare decl.name).define decl.name)
  | .classDecl name none body, r =>
    let outer := r.class_
    let r := { r with class_ := some .plain }
    let r := (r.declare name).define name
    let r := r.within (.ofList [(thisName, true)]) (methods body)
    { r with class_ := outer }
  | .classDecl name (some parent) body, r =>
    let outer := r.class_
    let r := { r with class_ := some .derived }
    let r := ((r.declare name).readVariable parent).define name
    let r := r.within (.ofList [(superName, true)]) fun r =>
      r.within (.ofList [(thisName, true)]) (methods body)
    { r with class_ := outer }

def stmts : List Stmt → Resolver → Resolver
  | [], r => r
  | s :: rest, r => stmts rest (stmt s r)

/-- Parameters and the body of a function share one scope. -/
def functionDecl : FunctionContext → FunctionDecl → Resolver → Resolver
  | context, ⟨_, params, body⟩, r =>
    let outer := r.function
    let r := { r with function := some context }
    let r := r.within .empty fun r =>
      stmts body (params.foldl (fun r p => (r.declare p).define p) r)
    { r with function := outer }

def methods : List FunctionDecl → Resolver → Resolver
  | [], r => r
  | m :: rest, r =>
    let context := if m.name.lexeme = initializerName then .initializer else .method
    methods rest (functionDecl context m r)

end

end Resolver

/-- A table extended by a program, and the program's faults in the order found. -/
structure Resolved where
  table : Table
  faults : List StaticFault

/-- Resolves a program at the top level, adding to a table. -/
def resolve (table : Table) (program : List Stmt) : Resolved :=
  let r := Resolver.stmts program { table }
  ⟨r.table, r.faults.reverse⟩

end Scriptlet
