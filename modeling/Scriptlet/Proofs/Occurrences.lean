import Scriptlet.Proofs.Scoping.Walk

/-! # The errors that need no running

Which words of a program are reported before it runs, said of the program alone: of each word that can
be at fault, the parts of the program it lies in and, for a declared name, the names that its scope
declared before. The walk of the resolver, with its contexts that are set and given back, finds
exactly these errors.
-/
namespace Scriptlet

/-- A part of a program that others lie in. -/
inductive Enclosure where
  | block
  | function
  | method (name : Bytes)
  | class_ (derived : Bool)
  | initializer (name : Bytes)
  | superclassOf (name : Bytes)
  deriving DecidableEq, Repr

/-- The enclosures of a place, the innermost first. -/
abbrev Enclosures := List Enclosure

namespace Enclosures

/-- The innermost function or method around a place. -/
def function? (path : Enclosures) : Option Enclosure :=
  path.find? fun
    | .function | .method _ => true
    | _ => false

/-- The innermost class around a place. -/
def class? (path : Enclosures) : Option Enclosure :=
  path.find? fun
    | .class_ _ => true
    | _ => false

/-- A place in some block or body, so that what is declared there is no global. -/
def IsLocal (path : Enclosures) : Prop := .block ∈ path ∨ path.function? ≠ none

instance (path : Enclosures) : Decidable path.IsLocal := inferInstanceAs (Decidable (_ ∨ _))

/-- A place in the initializer of the local variable `name`, or in the superclass clause of the local
class `name`. No scope begins inside of an expression. -/
def InOwnInitializer : Enclosures → Bytes → Prop
  | .initializer own :: outer, name => own = name ∧ IsLocal outer
  | .superclassOf own :: outer, name => own = name ∧ IsLocal outer
  | _, _ => False

instance : (path : Enclosures) → (name : Bytes) → Decidable (path.InOwnInitializer name)
  | .initializer own :: outer, name => inferInstanceAs (Decidable (own = name ∧ IsLocal outer))
  | .superclassOf own :: outer, name => inferInstanceAs (Decidable (own = name ∧ IsLocal outer))
  | .block :: _, _ | .function :: _, _ | .method _ :: _, _ | .class_ _ :: _, _ | [], _ =>
    isFalse id

theorem class?_eq_some {path : Enclosures} {e : Enclosure} (h : path.class? = some e) :
    ∃ derived, e = .class_ derived := by
  have he := List.find?_some h
  cases e with
  | class_ derived => exact ⟨derived,rfl⟩
  | _ => exact absurd he Bool.false_ne_true

theorem function?_eq_some {path : Enclosures} {e : Enclosure} (h : path.function? = some e) :
    e = .function ∨ ∃ name, e = .method name := by
  have he := List.find?_some h
  cases e with
  | function => exact .inl rfl
  | method name => exact .inr ⟨name,rfl⟩
  | _ => exact absurd he Bool.false_ne_true

end Enclosures

/-- What a word that can be at fault does. A declaration comes with the names that its scope declared
before. -/
inductive Role where
  | returns (hasValue : Bool)
  | this_
  | super
  | reads
  | declares (before : List Bytes)
  deriving DecidableEq, Repr

/-- A word that can be at fault, and where it stands. -/
structure Occurrence where
  role : Role
  token : Token
  path : Enclosures
  deriving DecidableEq, Repr

mutual

/-- The words of an expression that can be at fault, in the order of the walk. -/
def Expr.occurrences (path : Enclosures) : Expr → List Occurrence
  | .literal _ => []
  | .variable_ name => [⟨.reads,name,path⟩]
  | .self keyword => [⟨.this_,keyword,path⟩]
  | .superMethod keyword _ => [⟨.super,keyword,path⟩]
  | .grouping inner => inner.occurrences path
  | .unary _ _ operand => operand.occurrences path
  | .binary _ _ left right => left.occurrences path ++ right.occurrences path
  | .logical _ left right => left.occurrences path ++ right.occurrences path
  | .assign _ value => value.occurrences path
  | .get object _ => object.occurrences path
  | .set object _ value => value.occurrences path ++ object.occurrences path
  | .call callee _ arguments => callee.occurrences path ++ Expr.allOccurrences path arguments

def Expr.allOccurrences (path : Enclosures) : List Expr → List Occurrence
  | [] => []
  | e :: rest => e.occurrences path ++ Expr.allOccurrences path rest

end

/-- The names that a statement declares in the scope where it stands. -/
def Stmt.declares : Stmt → List Bytes
  | .varDecl name _ => [name.lexeme]
  | .funDecl decl => [decl.name.lexeme]
  | .classDecl name _ _ => [name.lexeme]
  | .ifElse _ thenBranch none => thenBranch.declares
  | .ifElse _ thenBranch (some elseBranch) => thenBranch.declares ++ elseBranch.declares
  | .while_ _ body => body.declares
  | .expression _ | .print _ | .block _ | .return_ _ _ => []

/-- Parameters are declared one after the other. -/
def parameterOccurrences (path : Enclosures) : List Bytes → List Token → List Occurrence
  | _, [] => []
  | before, p :: params =>
    ⟨.declares before,p,path⟩ :: parameterOccurrences path (before ++ [p.lexeme]) params

mutual

/-- The words of a statement that can be at fault, in the order of the walk, where its scope declared
the names `before`. -/
def Stmt.occurrences : Enclosures → List Bytes → Stmt → List Occurrence
  | path, _, .expression value => value.occurrences path
  | path, _, .print value => value.occurrences path
  | path, before, .varDecl name none => [⟨.declares before,name,path⟩]
  | path, before, .varDecl name (some value) =>
    ⟨.declares before,name,path⟩ :: value.occurrences (.initializer name.lexeme :: path)
  | path, _, .block body => Stmt.allOccurrences (.block :: path) [] body
  | path, before, .ifElse condition thenBranch none =>
    condition.occurrences path ++ thenBranch.occurrences path before
  | path, before, .ifElse condition thenBranch (some elseBranch) =>
    condition.occurrences path ++ (thenBranch.occurrences path before ++
      elseBranch.occurrences path (before ++ thenBranch.declares))
  | path, before, .while_ condition body =>
    condition.occurrences path ++ body.occurrences path before
  | path, _, .return_ keyword none => [⟨.returns false,keyword,path⟩]
  | path, _, .return_ keyword (some value) =>
    ⟨.returns true,keyword,path⟩ :: value.occurrences path
  | path, before, .funDecl decl =>
    ⟨.declares before,decl.name,path⟩ :: decl.occurrences (.function :: path)
  | path, before, .classDecl name none methods =>
    ⟨.declares before,name,path⟩ :: FunctionDecl.methodOccurrences (.class_ false :: path) methods
  | path, before, .classDecl name (some parent) methods =>
    ⟨.declares before,name,path⟩ :: ⟨.reads,parent,.superclassOf name.lexeme :: path⟩ ::
      FunctionDecl.methodOccurrences (.class_ true :: path) methods

def Stmt.allOccurrences : Enclosures → List Bytes → List Stmt → List Occurrence
  | _, _, [] => []
  | path, before, s :: rest =>
    s.occurrences path before ++ Stmt.allOccurrences path (before ++ s.declares) rest

/-- Parameters and the body of a function share one scope. -/
def FunctionDecl.occurrences : Enclosures → FunctionDecl → List Occurrence
  | path, ⟨_,params,body⟩ =>
    parameterOccurrences path [] params ++
      Stmt.allOccurrences path (params.map Token.lexeme) body

def FunctionDecl.methodOccurrences : Enclosures → List FunctionDecl → List Occurrence
  | _, [] => []
  | path, decl :: rest =>
    decl.occurrences (.method decl.name.lexeme :: path) ++
      FunctionDecl.methodOccurrences path rest

end

/-- A text that is told under a condition. -/
def tellIf (p : Prop) [Decidable p] (text : String) : List Bytes := if p then [utf8 text] else []

/-- What is wrong with a word. -/
def Occurrence.complaints (o : Occurrence) : List Bytes :=
  match o.role with
  | .returns hasValue =>
    tellIf (o.path.function? = none) "Cannot return from top-level code." ++
      tellIf (hasValue ∧ o.path.function? = some (.method (utf8 "init")))
        "Cannot return a value from an initializer."
  | .this_ => tellIf (o.path.class? = none) "Cannot use 'this' outside of a class."
  | .super =>
    tellIf (o.path.class? = none) "Cannot use 'super' outside of a class." ++
      tellIf (o.path.class? = some (.class_ false))
        "Cannot use 'super' in a class with no superclass."
  | .reads =>
    tellIf (o.path.InOwnInitializer o.token.lexeme)
      "Cannot read local variable in its own initializer."
  | .declares before =>
    tellIf (o.path.IsLocal ∧ o.token.lexeme ∈ before)
      "Variable with this name already declared in this scope."

/-- What is told about a word. -/
def Occurrence.diagnostics (o : Occurrence) : List Diagnostic :=
  o.complaints.map (.atToken .static o.token)

namespace Resolver

/-! ## What a walk has told -/

/-- What was told so far. -/
def told (r : Resolver) : List Diagnostic := r.faults.reverse.map Diagnostic.ofStatic

section

variable {r : Resolver} {name : Token}

theorem told_report (error : StaticError) (token : Token) :
    (r.report error token).told = r.told ++ [.atToken .static token error.message] := by
  simp [told,report,Diagnostic.ofStatic]

theorem told_reportIf {p q : Prop} [Decidable p] [Decidable q] (error : StaticError) (token : Token)
    {text : String} (htext : error.message = utf8 text) (hiff : p ↔ q) :
    (if p then r.report error token else r).told =
      r.told ++ (tellIf q text).map (.atToken .static token) := by
  by_cases hp : p
  · simp [hp,← hiff,told_report,tellIf,htext]
  · simp [hp,← hiff,tellIf]

@[simp] theorem told_mark (name : Bytes) (finished : Bool) : (r.mark name finished).told = r.told := by
  unfold mark
  split <;> rfl

@[simp] theorem told_define : (r.define name).told = r.told := told_mark name.lexeme true

@[simp] theorem told_refer : (r.refer name).told = r.told := by
  unfold refer
  split <;> rfl

end

/-! ## Where a walk is -/

/-- The contexts of a walk are those of a place. -/
structure InContext (path : Enclosures) (r : Resolver) : Prop where
  function : r.function = path.function?.map fun
    | .method name => if name = initializerName then .initializer else .method
    | _ => .function
  class_ : r.class_ = path.class?.map fun
    | .class_ true => .derived
    | _ => .plain

/-- A walk is at an expression. -/
structure Reading (path : Enclosures) (r : Resolver) : Prop extends InContext path r where
  unfinished : ∀ name, r.innermost? name = some false ↔ path.InOwnInitializer name

/-- A walk is at a statement, and the scope where it stands declared some names before. -/
structure Declaring (path : Enclosures) (before : List Bytes) (r : Resolver) : Prop
    extends InContext path r where
  local_iff : r.scopes ≠ [] ↔ path.IsLocal
  innermost : ∀ name, r.innermost? name = if path.IsLocal ∧ name ∈ before then some true else none
  outside : ∀ name, ¬ path.InOwnInitializer name

section

variable {path : Enclosures} {before : List Bytes} {r r' : Resolver} {name : Bytes}

theorem InContext.frame {refs : List Token} (h : InContext path r) (hframe : Frame refs r r') :
    InContext path r' where
  function := hframe.function.trans h.function
  class_ := hframe.class_.trans h.class_

theorem InContext.function_eq_none (h : InContext path r) :
    r.function = none ↔ path.function? = none := by
  rw [h.function,Option.map_eq_none_iff]

theorem InContext.function_eq_initializer (h : InContext path r) :
    r.function = some .initializer ↔ path.function? = some (.method initializerName) := by
  rw [h.function]
  cases hpath : path.function? with
  | none => simp
  | some e =>
    rcases Enclosures.function?_eq_some hpath with rfl | ⟨name,rfl⟩
    · simp
    · by_cases hname : name = initializerName <;> simp [hname]

theorem innermost?_congr (h : r'.scopes = r.scopes) (name : Bytes) :
    r'.innermost? name = r.innermost? name := by
  rw [innermost?,innermost?,h]

theorem innermost?_bind {finished : Bool} (h : r'.scopes = r.scopes.bind name finished)
    (other : Bytes) :
    r'.innermost? other =
      if r.scopes ≠ [] ∧ other = name then some finished else r.innermost? other := by
  rw [innermost?,innermost?,h]
  cases r.scopes with
  | nil => simp [Scopes.bind]
  | cons innermost outer =>
    by_cases hname : other = name <;> simp [Scopes.bind,NameMap.get?_insert,hname]

theorem Reading.expr (h : Reading path r) (e : Expr) : Reading path (expr e r) where
  toInContext := h.toInContext.frame (frame_expr e r)
  unfinished name := by
    rw [innermost?_congr (expr_scopes e r)]
    exact h.unfinished name

theorem Declaring.reading (h : Declaring path before r) : Reading path r where
  toInContext := h.toInContext
  unfinished name := by
    have hinnermost := h.innermost name
    have houtside := h.outside name
    grind

theorem Declaring.frame {refs : List Token} (h : Declaring path before r) (hframe : Frame refs r r')
    (hscopes : r'.scopes = r.scopes) : Declaring path before r' where
  toInContext := h.toInContext.frame hframe
  local_iff := by
    rw [hscopes]
    exact h.local_iff
  innermost name := by
    rw [innermost?_congr hscopes]
    exact h.innermost name
  outside := h.outside

/-- One more name is declared. -/
theorem Declaring.bind {refs : List Token} (h : Declaring path before r) (hframe : Frame refs r r')
    (hscopes : r'.scopes = r.scopes.bind name true) : Declaring path (before ++ [name]) r' where
  toInContext := h.toInContext.frame hframe
  local_iff := by
    rw [hscopes,← h.local_iff,ne_eq,Scopes.bind_eq_nil]
  innermost other := by
    have hlocal := h.local_iff
    have hother := h.innermost other
    have hmem : other ∈ before ++ [name] ↔ other ∈ before ∨ other = name := by simp
    rw [innermost?_bind hscopes]
    grind
  outside := h.outside

/-- A name that is declared and not defined yet is unfinished, if it is local. -/
theorem Declaring.unfinished_iff (h : Declaring path before r) (x : Token) (other : Bytes) :
    (r.declare x).innermost? other = some false ↔ x.lexeme = other ∧ path.IsLocal := by
  have hlocal := h.local_iff
  have hother := h.innermost other
  rw [innermost?_bind (declare_scopes x r) other]
  grind

theorem Declaring.initializer (h : Declaring path before r) (x : Token) :
    Reading (.initializer x.lexeme :: path) (r.declare x) where
  function := (h.toInContext.frame (frame_declare x r)).function
  class_ := (h.toInContext.frame (frame_declare x r)).class_
  unfinished := h.unfinished_iff x

end

/-! ## What a walk over an expression tells -/

theorem told_readVariable {path : Enclosures} {r : Resolver} {name : Token}
    (h : r.innermost? name.lexeme = some false ↔ path.InOwnInitializer name.lexeme) :
    (r.readVariable name).told = r.told ++ (Occurrence.mk .reads name path).diagnostics := by
  rw [readVariable,told_refer]
  exact told_reportIf .ownInitializer name rfl h

theorem told_self {path : Enclosures} {r : Resolver} (h : Reading path r) (keyword : Token) :
    (expr (.self keyword) r).told = r.told ++ (Occurrence.mk .this_ keyword path).diagnostics := by
  have hclass := h.class_
  cases hpath : path.class? with
  | none =>
    rw [hpath] at hclass
    simp [expr,hclass,Occurrence.diagnostics,Occurrence.complaints,hpath,tellIf,told_report,
      StaticError.message]
  | some e =>
    rw [hpath] at hclass
    simp [expr,hclass,Occurrence.diagnostics,Occurrence.complaints,hpath,tellIf]

theorem told_super {path : Enclosures} {r : Resolver} (h : Reading path r) (keyword method : Token) :
    (expr (.superMethod keyword method) r).told =
      r.told ++ (Occurrence.mk .super keyword path).diagnostics := by
  have hclass := h.class_
  cases hpath : path.class? with
  | none =>
    rw [hpath] at hclass
    simp [expr,hclass,Occurrence.diagnostics,Occurrence.complaints,hpath,tellIf,told_report,
      StaticError.message]
  | some e =>
    obtain ⟨derived,rfl⟩ := Enclosures.class?_eq_some hpath
    rw [hpath] at hclass
    cases derived <;>
      simp [expr,hclass,Occurrence.diagnostics,Occurrence.complaints,hpath,tellIf,told_report,
        StaticError.message]

mutual

theorem told_expr {path : Enclosures} : ∀ (e : Expr) {r : Resolver}, Reading path r →
    (expr e r).told = r.told ++ (e.occurrences path).flatMap Occurrence.diagnostics
  | .literal _, _, _ => by simp [expr,Expr.occurrences]
  | .variable_ name, _, h => by simpa [expr,Expr.occurrences] using told_readVariable (h.unfinished name.lexeme)
  | .self keyword, r, h => by
    simpa [Expr.occurrences] using told_self h keyword
  | .superMethod keyword method, r, h => by
    simpa [Expr.occurrences] using told_super h keyword method
  | .grouping inner, _, h => told_expr inner h
  | .unary _ _ operand, _, h => told_expr operand h
  | .binary _ _ left right, _, h => by
    rw [expr,told_expr right (h.expr left),told_expr left h]
    simp [Expr.occurrences]
  | .logical _ left right, _, h => by
    rw [expr,told_expr right (h.expr left),told_expr left h]
    simp [Expr.occurrences]
  | .assign name value, _, h => by
    rw [expr,told_refer,told_expr value h,Expr.occurrences]
  | .get object _, _, h => told_expr object h
  | .set object _ value, _, h => by
    rw [expr,told_expr object (h.expr value),told_expr value h]
    simp [Expr.occurrences]
  | .call callee _ arguments, _, h => by
    rw [expr,told_exprs arguments (h.expr callee),told_expr callee h]
    simp [Expr.occurrences]

theorem told_exprs {path : Enclosures} : ∀ (es : List Expr) {r : Resolver}, Reading path r →
    (exprs es r).told = r.told ++ (Expr.allOccurrences path es).flatMap Occurrence.diagnostics
  | [], _, _ => by simp [exprs,Expr.allOccurrences]
  | e :: rest, _, h => by
    rw [exprs,told_exprs rest (h.expr e),told_expr e h]
    simp [Expr.allOccurrences]

end

/-! ## What a walk over a statement tells -/

section

variable {path : Enclosures} {before : List Bytes} {r : Resolver}

theorem told_declare {name : Token}
    (h : r.innermost? name.lexeme =
      if path.IsLocal ∧ name.lexeme ∈ before then some true else none) :
    (r.declare name).told = r.told ++ (Occurrence.mk (.declares before) name path).diagnostics := by
  rw [declare,told_mark]
  refine told_reportIf .alreadyDeclared name rfl ?_
  grind

theorem Declaring.define (h : Declaring path before r) (name : Token) :
    Declaring path (before ++ [name.lexeme]) ((r.declare name).define name) := by
  refine h.bind ((frame_declare name r).after (frame_define name _)) ?_
  rw [define_scopes,declare_scopes,Scopes.bind_bind]

theorem told_parameters (params : List Token) : ∀ {before : List Bytes} {r : Resolver},
    Declaring path before r →
    (params.foldl (fun r p => (r.declare p).define p) r).told =
      r.told ++ (parameterOccurrences path before params).flatMap Occurrence.diagnostics ∧
    Declaring path (before ++ params.map Token.lexeme)
      (params.foldl (fun r p => (r.declare p).define p) r) := by
  induction params with
  | nil =>
    intro before r h
    simpa [parameterOccurrences] using h
  | cons p params ih =>
    intro before r h
    obtain ⟨htold,hdeclaring⟩ := ih (h.define p)
    rw [told_define,told_declare (h.innermost p.lexeme)] at htold
    constructor
    · simpa [parameterOccurrences] using htold
    · simpa using hdeclaring

theorem told_return (h : Declaring path before r) (keyword : Token) (value : Option Expr) :
    (stmt (.return_ keyword value) r).told = r.told ++
      ((Stmt.return_ keyword value).occurrences path before).flatMap Occurrence.diagnostics := by
  have hnone := told_reportIf (r := r) .topLevelReturn keyword rfl h.function_eq_none
  cases value with
  | none =>
    rw [stmt,hnone]
    simp [Stmt.occurrences,Occurrence.diagnostics,Occurrence.complaints,tellIf]
  | some value =>
    let inner := if r.function = none then r.report .topLevelReturn keyword else r
    have hinner : Declaring path before inner :=
      h.frame (frame_reportIf .topLevelReturn keyword r) (reportIf_scopes _ _ _)
    have hiff : inner.function = some .initializer ↔
        true = true ∧ path.function? = some (.method (utf8 "init")) := by
      simpa [initializerName] using hinner.function_eq_initializer
    have hinitializer := told_reportIf (r := inner) .initializerReturn keyword rfl hiff
    have hvalue := hinner.frame (frame_reportIf (p := inner.function = some .initializer)
      .initializerReturn keyword inner) (reportIf_scopes _ _ _)
    rw [stmt,told_expr value hvalue.reading,hinitializer,hnone]
    simp only [Stmt.occurrences,List.flatMap_cons,Occurrence.diagnostics,Occurrence.complaints,
      List.map_append,List.append_assoc]

/-- The kind of function that an enclosure is. -/
def Fits : Enclosure → FunctionContext → Prop
  | .function, context => context = .function
  | .method name, context => context = if name = initializerName then .initializer else .method
  | _, _ => False

theorem innermost?_empty (name : Bytes) (outer : Scopes) (h : r.scopes = .empty :: outer) :
    r.innermost? name = none := by
  rw [innermost?,h]
  rfl

/-- The body of a function has a scope of its own. -/
theorem InContext.body (h : InContext path r) {e : Enclosure} {context : FunctionContext}
    (he : Fits e context) :
    Declaring (e :: path) [] { r with function := some context, scopes := .empty :: r.scopes } := by
  have hclass := h.class_
  cases e with
  | function =>
    subst he
    refine ⟨⟨rfl,hclass⟩,?_,fun name => ?_,fun name => id⟩
    · simp [Enclosures.IsLocal,Enclosures.function?]
    · rw [innermost?_empty name r.scopes rfl,if_neg (by simp)]
  | method name =>
    subst he
    refine ⟨⟨rfl,hclass⟩,?_,fun name => ?_,fun name => id⟩
    · simp [Enclosures.IsLocal,Enclosures.function?]
    · rw [innermost?_empty name r.scopes rfl,if_neg (by simp)]
  | _ => exact he.elim

/-- The methods of a class are in its context, whatever scopes are around them. -/
theorem InContext.class_body {refs : List Token} {r' : Resolver} (h : InContext path r)
    (derived : Bool) (scopes : Scopes)
    (hframe : Frame refs { r with class_ := some (if derived then .derived else .plain) } r') :
    InContext (.class_ derived :: path) { r' with scopes } where
  function := hframe.function.trans h.function
  class_ := by
    rw [hframe.class_]
    cases derived <;> rfl

theorem Declaring.block (h : Declaring path before r) :
    Declaring (.block :: path) [] { r with scopes := .empty :: r.scopes } := by
  refine ⟨⟨h.function,h.class_⟩,?_,fun name => ?_,fun name => id⟩
  · simp [Enclosures.IsLocal]
  · rw [innermost?_empty name r.scopes rfl,if_neg (by simp)]

theorem Declaring.stmt : ∀ (s : Stmt) {before : List Bytes} {r : Resolver}, Declaring path before r →
    Declaring path (before ++ s.declares) (stmt s r)
  | .expression value, _, r, h => by
    rw [Resolver.stmt,Stmt.declares,List.append_nil]
    exact h.frame (frame_expr value r) (expr_scopes value r)
  | .print value, _, r, h => by
    rw [Resolver.stmt,Stmt.declares,List.append_nil]
    exact h.frame (frame_expr value r) (expr_scopes value r)
  | .varDecl name none, _, r, h => h.define name
  | .varDecl name (some value), _, r, h => by
    refine h.bind (frame_stmt (.varDecl name (some value)) r) ?_
    simp [Resolver.stmt,Scopes.bind_bind]
  | .block body, _, r, h => by
    rw [Stmt.declares,List.append_nil]
    exact h.frame (frame_stmt (.block body) r) (within_scopes (tail_stmts body) r)
  | .ifElse condition thenBranch none, _, r, h =>
    Declaring.stmt thenBranch (h.frame (frame_expr condition r) (expr_scopes condition r))
  | .ifElse condition thenBranch (some elseBranch), _, r, h => by
    rw [Resolver.stmt,Stmt.declares,← List.append_assoc]
    exact Declaring.stmt elseBranch (Declaring.stmt thenBranch
      (h.frame (frame_expr condition r) (expr_scopes condition r)))
  | .while_ condition body, _, r, h =>
    Declaring.stmt body (h.frame (frame_expr condition r) (expr_scopes condition r))
  | .return_ keyword value, _, r, h => by
    rw [Stmt.declares,List.append_nil]
    refine h.frame (frame_stmt (.return_ keyword value) r) ?_
    cases value <;> simp [Resolver.stmt]
  | .funDecl decl, _, r, h => by
    refine h.bind (frame_stmt (.funDecl decl) r) ?_
    simp [Resolver.stmt,functionDecl_scopes,Scopes.bind_bind]
  | .classDecl name none body, _, r, h => by
    refine h.bind (frame_stmt (.classDecl name none body) r) ?_
    simp [Resolver.stmt,within_scopes_eq (methods_scopes body),Scopes.bind_bind]
  | .classDecl name (some parent) body, _, r, h => by
    refine h.bind (frame_stmt (.classDecl name (some parent) body) r) ?_
    simp [Resolver.stmt,within_scopes_eq (within_scopes_eq (methods_scopes body)),Scopes.bind_bind]

end

mutual

theorem told_stmt : ∀ (s : Stmt) {path : Enclosures} {before : List Bytes} {r : Resolver},
    Declaring path before r →
    (stmt s r).told = r.told ++ (s.occurrences path before).flatMap Occurrence.diagnostics
  | .expression value, _, _, _, h => told_expr value h.reading
  | .print value, _, _, _, h => told_expr value h.reading
  | .varDecl name none, _, _, _, h => by
    rw [stmt,told_define,told_declare (h.innermost name.lexeme)]
    simp [Stmt.occurrences]
  | .varDecl name (some value), _, _, _, h => by
    rw [stmt,told_define,told_expr value (h.initializer name),told_declare (h.innermost name.lexeme)]
    simp [Stmt.occurrences]
  | .block body, _, _, _, h => told_stmts body h.block
  | .ifElse condition thenBranch none, _, _, r, h => by
    have hthen := h.frame (frame_expr condition r) (expr_scopes condition r)
    rw [stmt,told_stmt thenBranch hthen,told_expr condition h.reading]
    simp [Stmt.occurrences]
  | .ifElse condition thenBranch (some elseBranch), _, _, r, h => by
    have hthen := h.frame (frame_expr condition r) (expr_scopes condition r)
    rw [stmt,told_stmt elseBranch (Declaring.stmt thenBranch hthen),told_stmt thenBranch hthen,
      told_expr condition h.reading]
    simp [Stmt.occurrences]
  | .while_ condition body, _, _, r, h => by
    have hbody := h.frame (frame_expr condition r) (expr_scopes condition r)
    rw [stmt,told_stmt body hbody,told_expr condition h.reading]
    simp [Stmt.occurrences]
  | .return_ keyword value, _, _, _, h => told_return h keyword value
  | .funDecl decl, _, _, _, h => by
    have hbody := told_functionDecl decl (h.define decl.name).toInContext (e := .function) rfl
    rw [stmt,hbody,told_define,told_declare (h.innermost decl.name.lexeme)]
    simp [Stmt.occurrences]
  | .classDecl name none body, path, before, r, h => by
    let inner : Resolver := { r with class_ := some .plain }
    let outer : Resolver := (inner.declare name).define name
    have hframe : Frame [] inner outer := (frame_declare name inner).after (frame_define name _)
    have hname : outer.told = r.told ++ (Occurrence.mk (.declares before) name path).diagnostics :=
      told_define.trans (told_declare (r := inner) (h.innermost name.lexeme))
    have hbody := told_methods body
      (h.class_body false (.ofList [(thisName,true)] :: outer.scopes) hframe)
    rw [Stmt.occurrences,List.flatMap_cons,← List.append_assoc,← hname]
    exact hbody
  | .classDecl name (some parent) body, path, before, r, h => by
    let inner : Resolver := { r with class_ := some .derived }
    let outer : Resolver := ((inner.declare name).readVariable parent).define name
    have hframe : Frame [parent] inner outer :=
      ((frame_declare name inner).after (frame_readVariable parent _)).andThen (frame_define name _)
    have hname : (inner.declare name).told =
        r.told ++ (Occurrence.mk (.declares before) name path).diagnostics :=
      told_declare (r := inner) (h.innermost name.lexeme)
    have hscopes : (inner.declare name).scopes = (r.declare name).scopes := by
      rw [declare_scopes,declare_scopes]
    have hparent : outer.told = (inner.declare name).told ++
        (Occurrence.mk .reads parent (.superclassOf name.lexeme :: path)).diagnostics := by
      refine told_define.trans (told_readVariable ?_)
      rw [innermost?_congr hscopes]
      exact h.unfinished_iff name parent.lexeme
    have hbody := told_methods body (h.class_body true
      (.ofList [(thisName,true)] :: .ofList [(superName,true)] :: outer.scopes) hframe)
    rw [Stmt.occurrences,List.flatMap_cons,List.flatMap_cons,← List.append_assoc,← hname,
      ← List.append_assoc,← hparent]
    exact hbody

theorem told_stmts : ∀ (ss : List Stmt) {path : Enclosures} {before : List Bytes} {r : Resolver},
    Declaring path before r →
    (stmts ss r).told = r.told ++ (Stmt.allOccurrences path before ss).flatMap Occurrence.diagnostics
  | [], _, _, _, _ => by simp [stmts,Stmt.allOccurrences]
  | s :: rest, _, _, _, h => by
    rw [stmts,told_stmts rest (Declaring.stmt s h),told_stmt s h]
    simp [Stmt.allOccurrences]

theorem told_functionDecl : ∀ (decl : FunctionDecl) {path : Enclosures} {r : Resolver}
    {e : Enclosure} {context : FunctionContext}, InContext path r → Fits e context →
    (functionDecl context decl r).told =
      r.told ++ (decl.occurrences (e :: path)).flatMap Occurrence.diagnostics
  | ⟨_,params,body⟩, path, r, e, context, h, he => by
    obtain ⟨hparams,hbody⟩ := told_parameters params (h.body he)
    have htold := told_stmts body hbody
    rw [hparams] at htold
    rw [FunctionDecl.occurrences,List.flatMap_append,← List.append_assoc]
    exact htold

theorem told_methods : ∀ (decls : List FunctionDecl) {path : Enclosures} {r : Resolver},
    InContext path r → (methods decls r).told =
      r.told ++ (FunctionDecl.methodOccurrences path decls).flatMap Occurrence.diagnostics
  | [], _, _, _ => by simp [methods,FunctionDecl.methodOccurrences]
  | decl :: rest, _, r, h => by
    let context : FunctionContext :=
      if decl.name.lexeme = initializerName then .initializer else .method
    have hdecl := told_functionDecl decl h (e := .method decl.name.lexeme) rfl
    have hrest := told_methods rest (h.frame (frame_functionDecl context decl r))
    rw [FunctionDecl.methodOccurrences,List.flatMap_append,← List.append_assoc,← hdecl]
    exact hrest

end

end Resolver

/-- A program is told exactly what is wrong with its words, in the order of the words. -/
theorem static_diagnostics_eq (table : Table) (program : List Stmt) :
    (resolve table program).faults.map Diagnostic.ofStatic =
      (Stmt.allOccurrences [] [] program).flatMap Occurrence.diagnostics := by
  have hstart : Resolver.Declaring [] [] { table } := by
    refine ⟨⟨rfl,rfl⟩,?_,fun name => rfl,fun name => id⟩
    simp [Enclosures.IsLocal,Enclosures.function?]
  exact Resolver.told_stmts program hstart

end Scriptlet
