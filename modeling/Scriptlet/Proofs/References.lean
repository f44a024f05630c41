import Mathlib.Data.List.Forall2
import Scriptlet.Proofs.Calls
import Scriptlet.Proofs.Occurrences
import Scriptlet.Proofs.Scoping.Sources

/-! # The table of distances

What the table knows about a node, said of the program alone. A node that refers to a name stands
inside of some scopes, each of which declared some names before the node, and the distance of the
node is the number of the innermost one that declared its name. The resolver keeps scopes of its own
while it walks, which are entered and left and filled as it goes; at each node they declare the same
names.
-/
namespace Scriptlet

/-- Where a node stands: the scopes around it, the innermost first, each with the names that it
declared before the node, and whether a class is around the node. The globals are no scope. -/
structure Place where
  scopes : List (List Bytes) := []
  inClass : Bool := false
  deriving DecidableEq, Repr

namespace Place

/-- The innermost scope declares more names. -/
def declare (place : Place) (names : List Bytes) : Place :=
  match place.scopes with
  | [] => place
  | innermost :: outer => { place with scopes := (innermost ++ names) :: outer }

/-- A scope of its own, which starts with some names. -/
def inside (place : Place) (names : List Bytes) : Place :=
  { place with scopes := names :: place.scopes }

/-- The methods of a class stand in a scope of the instance, around which is one of the superclass
if there is a superclass clause. -/
def insideClass (place : Place) (superclass : Option Token) : Place :=
  let around := match superclass with
    | none => place
    | some _ => place.inside [superName]
  { around.inside [thisName] with inClass := true }

/-- Of the scopes around a place, number `distance` is the first that declares a name. -/
def FirstDeclares (place : Place) (distance : Nat) (name : Bytes) : Prop :=
  (∃ scope, place.scopes[distance]? = some scope ∧ name ∈ scope) ∧
    ∀ nearer < distance, ∀ scope, place.scopes[nearer]? = some scope → name ∉ scope

theorem declare_nil (place : Place) : place.declare [] = place := by
  unfold declare
  split
  · rfl
  · next hscopes =>
    rw [List.append_nil,← hscopes]

theorem declare_append (place : Place) (names names' : List Bytes) :
    place.declare (names ++ names') = (place.declare names).declare names' := by
  obtain ⟨scopes,inClass⟩ := place
  cases scopes with
  | nil => rfl
  | cons innermost outer => simp [declare]

end Place

/-- What a node does with the name it refers to. -/
inductive Use where
  | reads
  | assigns
  | this_
  | super
  deriving DecidableEq, Repr

/-- A node that refers to a name, known by the token of the name. -/
structure Reference where
  use : Use
  token : Token
  place : Place
  deriving DecidableEq, Repr

mutual

/-- The nodes of an expression that refer to names, in the order of the walk. -/
def Expr.references (place : Place) : Expr → List Reference
  | .literal _ => []
  | .variable_ name => [⟨.reads,name,place⟩]
  | .self keyword => [⟨.this_,keyword,place⟩]
  | .superMethod keyword _ => [⟨.super,keyword,place⟩]
  | .grouping inner => inner.references place
  | .unary _ _ operand => operand.references place
  | .binary _ _ left right => left.references place ++ right.references place
  | .logical _ left right => left.references place ++ right.references place
  | .assign name value => value.references place ++ [⟨.assigns,name,place⟩]
  | .get object _ => object.references place
  | .set object _ value => value.references place ++ object.references place
  | .call callee _ arguments => callee.references place ++ Expr.allReferences place arguments

def Expr.allReferences (place : Place) : List Expr → List Reference
  | [] => []
  | e :: rest => e.references place ++ Expr.allReferences place rest

end

mutual

/-- The nodes of a statement that refer to names. What a statement declares counts as declared in
its own initializer, superclass clause, body and methods. -/
def Stmt.references : Place → Stmt → List Reference
  | place, .expression value => value.references place
  | place, .print value => value.references place
  | _, .varDecl _ none => []
  | place, .varDecl name (some value) => value.references (place.declare [name.lexeme])
  | place, .block body => Stmt.allReferences (place.inside []) body
  | place, .ifElse condition thenBranch none =>
    condition.references place ++ thenBranch.references place
  | place, .ifElse condition thenBranch (some elseBranch) =>
    condition.references place ++ (thenBranch.references place ++
      elseBranch.references (place.declare thenBranch.declares))
  | place, .while_ condition body => condition.references place ++ body.references place
  | _, .return_ _ none => []
  | place, .return_ _ (some value) => value.references place
  | place, .funDecl decl => decl.references (place.declare [decl.name.lexeme])
  | place, .classDecl name none methods =>
    FunctionDecl.allReferences ((place.declare [name.lexeme]).insideClass none) methods
  | place, .classDecl name (some parent) methods =>
    ⟨.reads,parent,place.declare [name.lexeme]⟩ ::
      FunctionDecl.allReferences ((place.declare [name.lexeme]).insideClass (some parent)) methods

def Stmt.allReferences : Place → List Stmt → List Reference
  | _, [] => []
  | place, s :: rest => s.references place ++ Stmt.allReferences (place.declare s.declares) rest

/-- Parameters and the body of a function share one scope. -/
def FunctionDecl.references : Place → FunctionDecl → List Reference
  | place, ⟨_,params,body⟩ => Stmt.allReferences (place.inside (params.map Token.lexeme)) body

def FunctionDecl.allReferences : Place → List FunctionDecl → List Reference
  | _, [] => []
  | place, decl :: rest => decl.references place ++ FunctionDecl.allReferences place rest

end

/-! ## Nodes and names -/

mutual

theorem Expr.references_tokens {place : Place} : ∀ e : Expr,
    (e.references place).map Reference.token = e.refs
  | .literal _ => rfl
  | .variable_ _ => rfl
  | .self _ => rfl
  | .superMethod _ _ => rfl
  | .grouping inner => Expr.references_tokens inner
  | .unary _ _ operand => Expr.references_tokens operand
  | .binary _ _ left right => by
    rw [Expr.references,List.map_append,Expr.references_tokens left,Expr.references_tokens right,
      Expr.refs]
  | .logical _ left right => by
    rw [Expr.references,List.map_append,Expr.references_tokens left,Expr.references_tokens right,
      Expr.refs]
  | .assign _ value => by
    rw [Expr.references,List.map_append,Expr.references_tokens value,Expr.refs]
    rfl
  | .get object _ => Expr.references_tokens object
  | .set object _ value => by
    rw [Expr.references,List.map_append,Expr.references_tokens value,Expr.references_tokens object,
      Expr.refs]
  | .call callee _ arguments => by
    rw [Expr.references,List.map_append,Expr.references_tokens callee,
      Expr.allReferences_tokens arguments,Expr.refs]

theorem Expr.allReferences_tokens {place : Place} : ∀ es : List Expr,
    (Expr.allReferences place es).map Reference.token = Expr.allRefs es
  | [] => rfl
  | e :: rest => by
    rw [Expr.allReferences,List.map_append,Expr.references_tokens e,Expr.allReferences_tokens rest,
      Expr.allRefs]

end

mutual

theorem Stmt.references_tokens : ∀ {place : Place} (s : Stmt),
    (s.references place).map Reference.token = s.refs
  | _, .expression value => Expr.references_tokens value
  | _, .print value => Expr.references_tokens value
  | _, .varDecl _ none => rfl
  | _, .varDecl _ (some value) => Expr.references_tokens value
  | _, .block body => Stmt.allReferences_tokens body
  | _, .ifElse condition thenBranch none => by
    rw [Stmt.references,List.map_append,Expr.references_tokens condition,
      Stmt.references_tokens thenBranch,Stmt.refs]
  | _, .ifElse condition thenBranch (some elseBranch) => by
    rw [Stmt.references,List.map_append,List.map_append,Expr.references_tokens condition,
      Stmt.references_tokens thenBranch,Stmt.references_tokens elseBranch,Stmt.refs]
  | _, .while_ condition body => by
    rw [Stmt.references,List.map_append,Expr.references_tokens condition,
      Stmt.references_tokens body,Stmt.refs]
  | _, .return_ _ none => rfl
  | _, .return_ _ (some value) => Expr.references_tokens value
  | _, .funDecl decl => FunctionDecl.references_tokens decl
  | _, .classDecl _ none methods => FunctionDecl.allReferences_tokens methods
  | _, .classDecl _ (some parent) methods =>
    congrArg (parent :: ·) (FunctionDecl.allReferences_tokens methods)

theorem Stmt.allReferences_tokens : ∀ {place : Place} (ss : List Stmt),
    (Stmt.allReferences place ss).map Reference.token = Stmt.allRefs ss
  | _, [] => rfl
  | _, s :: rest => by
    rw [Stmt.allReferences,List.map_append,Stmt.references_tokens s,Stmt.allReferences_tokens rest,
      Stmt.allRefs]

theorem FunctionDecl.references_tokens : ∀ {place : Place} (decl : FunctionDecl),
    (decl.references place).map Reference.token = decl.refs
  | _, ⟨_,_,body⟩ => Stmt.allReferences_tokens body

theorem FunctionDecl.allReferences_tokens : ∀ {place : Place} (decls : List FunctionDecl),
    (FunctionDecl.allReferences place decls).map Reference.token = FunctionDecl.allRefs decls
  | _, [] => rfl
  | _, decl :: rest => by
    rw [FunctionDecl.allReferences,List.map_append,FunctionDecl.references_tokens decl,
      FunctionDecl.allReferences_tokens rest,FunctionDecl.allRefs]

end

namespace Reference

/-- A use of `this` in no class. -/
def IsAstray (ref : Reference) : Prop := ref.use = .this_ ∧ ref.place.inClass = false

instance (ref : Reference) : Decidable ref.IsAstray := inferInstanceAs (Decidable (_ ∧ _))

/-- How many scopes are between a node and the declaration of its name. -/
def distance? (ref : Reference) : Option Nat :=
  if ref.IsAstray then none else ref.place.scopes.findIdx? (·.contains ref.token.lexeme)

/-- The table with the entry of one more node. -/
def enter (table : Table) (ref : Reference) : Table :=
  match ref.distance? with
  | some distance => table.insert ref.token.index distance
  | none => table

variable {ref : Reference}

theorem distance?_eq_some_iff (h : ¬ ref.IsAstray) {distance : Nat} :
    ref.distance? = some distance ↔ ref.place.FirstDeclares distance ref.token.lexeme := by
  rw [distance?,if_neg h,List.findIdx?_eq_some_iff_getElem]
  constructor
  · rintro ⟨hlength,hdeclares,hnearer⟩
    refine ⟨⟨_,List.getElem?_eq_getElem hlength,List.contains_iff_mem.1 hdeclares⟩,?_⟩
    intro nearer hlt scope hscope
    obtain ⟨-,rfl⟩ := List.getElem?_eq_some_iff.1 hscope
    simpa using hnearer nearer hlt
  · rintro ⟨⟨scope,hscope,hname⟩,hnearer⟩
    obtain ⟨hlength,rfl⟩ := List.getElem?_eq_some_iff.1 hscope
    refine ⟨hlength,List.contains_iff_mem.2 hname,?_⟩
    intro nearer hlt
    have habsent := hnearer nearer hlt _ (List.getElem?_eq_getElem (Nat.lt_trans hlt hlength))
    simpa using habsent

theorem distance?_eq_none_iff (h : ¬ ref.IsAstray) :
    ref.distance? = none ↔ ∀ scope ∈ ref.place.scopes, ref.token.lexeme ∉ scope := by
  rw [distance?,if_neg h,List.findIdx?_eq_none_iff]
  simp

/-! ## Tables -/

theorem getElem?_enter (table : Table) (ref : Reference) (i : Nat) :
    (enter table ref)[i]? =
      if ref.token.index = i then ref.distance?.or table[i]? else table[i]? := by
  unfold enter
  cases ref.distance? with
  | none => simp
  | some distance => simp [Std.TreeMap.getElem?_insert]

theorem getElem?_foldl_enter_of_ne {refs : List Reference} {table : Table} {i : Nat}
    (h : ∀ ref ∈ refs, ref.token.index ≠ i) : (refs.foldl enter table)[i]? = table[i]? := by
  induction refs generalizing table with
  | nil => rfl
  | cons first rest ih =>
    obtain ⟨hfirst,hrest⟩ := List.forall_mem_cons.1 h
    rw [List.foldl_cons,ih hrest,getElem?_enter,if_neg hfirst]

/-- When no two nodes share a place, each one finds its own entry. -/
theorem getElem?_foldl_enter {refs : List Reference} {table : Table}
    (hdistinct : (refs.map fun ref => ref.token.index).Nodup)
    (hfree : ∀ ref ∈ refs, table[ref.token.index]? = none) :
    ∀ ref ∈ refs, (refs.foldl enter table)[ref.token.index]? = ref.distance? := by
  induction refs generalizing table with
  | nil => simp
  | cons first rest ih =>
    obtain ⟨hfirst,hrest⟩ := List.forall_mem_cons.1 hfree
    obtain ⟨hnot,hdistinct⟩ := List.nodup_cons.1 hdistinct
    have hother : ∀ ref ∈ rest, ref.token.index ≠ first.token.index :=
      fun ref href heq => hnot (List.mem_map.2 ⟨ref,href,heq⟩)
    intro ref href
    rcases List.mem_cons.1 href with rfl | href
    · rw [List.foldl_cons,getElem?_foldl_enter_of_ne hother,getElem?_enter,if_pos rfl,hfirst,
        Option.or_none]
    · refine ih hdistinct (fun other hmem => ?_) ref href
      rw [getElem?_enter,if_neg (hother other hmem).symm]
      exact hrest other hmem

end Reference

namespace Resolver

/-! ## Where a walk is -/

/-- A scope of the walk declares given names. -/
def Declares (names : List Bytes) (scope : NameMap Bool) : Prop :=
  ∀ name, names.contains name = scope.contains name

/-- A walk has come to a place. -/
structure Stands (place : Place) (r : Resolver) : Prop where
  class_ : r.class_.isSome = place.inClass
  scopes : List.Forall₂ Declares place.scopes r.scopes

section

variable {place : Place} {r r' : Resolver} {name : Token} {names : List Bytes}

theorem declares_insert {scope : NameMap Bool} (h : Declares names scope) (name : Bytes)
    (finished : Bool) : Declares (names ++ [name]) (scope.insert name finished) := by
  intro other
  have hother := h other
  simp only [NameMap.contains] at hother ⊢
  rw [NameMap.get?_insert,List.contains_append,hother]
  by_cases heq : other = name <;> simp [heq]

theorem declares_empty : Declares [] .empty := fun _ => rfl

theorem declares_ofList (name : Bytes) : Declares [name] (.ofList [(name,true)]) :=
  declares_insert declares_empty name true

theorem findIdx?_of_declares {declared : List (List Bytes)} {scopes : Scopes}
    (h : List.Forall₂ Declares declared scopes) (name : Bytes) :
    declared.findIdx? (·.contains name) = scopes.findIdx? (·.contains name) := by
  induction h with
  | nil => rfl
  | cons hfirst _ ih => rw [List.findIdx?_cons,List.findIdx?_cons,ih,hfirst name]

theorem Stands.congr (h : Stands place r) (hclass : r'.class_ = r.class_)
    (hscopes : r'.scopes = r.scopes) : Stands place r' :=
  ⟨hclass ▸ h.class_,hscopes ▸ h.scopes⟩

theorem Stands.expr (h : Stands place r) (e : Expr) : Stands place (expr e r) :=
  h.congr (frame_expr e r).class_ (expr_scopes e r)

theorem Stands.bind (h : Stands place r) {name : Bytes} (finished : Bool)
    (hclass : r'.class_ = r.class_) (hscopes : r'.scopes = r.scopes.bind name finished) :
    Stands (place.declare [name]) r' := by
  obtain ⟨declared,inClass⟩ := place
  obtain ⟨hin,hdeclared⟩ := h
  cases hr : r.scopes with
  | nil =>
    rw [hr] at hdeclared hscopes
    cases hdeclared
    exact ⟨hclass ▸ hin,hscopes ▸ .nil⟩
  | cons innermost outer =>
    rw [hr] at hdeclared hscopes
    cases hdeclared with
    | cons hfirst hrest => exact ⟨hclass ▸ hin,hscopes ▸ .cons (declares_insert hfirst name finished) hrest⟩

theorem Stands.declare (h : Stands place r) (name : Token) :
    Stands (place.declare [name.lexeme]) (r.declare name) :=
  h.bind false (frame_declare name r).class_ (declare_scopes name r)

theorem Stands.define (h : Stands place r) (name : Token) :
    Stands (place.declare [name.lexeme]) ((r.declare name).define name) := by
  refine h.bind true ((frame_declare name r).after (frame_define name _)).class_ ?_
  rw [define_scopes,declare_scopes,Scopes.bind_bind]

theorem Stands.parameters (h : Stands place r) (params : List Token) :
    Stands (place.declare (params.map Token.lexeme))
      (params.foldl (fun r p => (r.declare p).define p) r) := by
  induction params generalizing place r with
  | nil => exact (place.declare_nil).symm ▸ h
  | cons p params ih =>
    rw [List.map_cons,← List.singleton_append,Place.declare_append]
    exact ih (h.define p)

theorem Stands.inside (h : Stands place r) {scope : NameMap Bool} (hscope : Declares names scope) :
    Stands (place.inside names) { r with scopes := scope :: r.scopes } :=
  ⟨h.class_,.cons hscope h.scopes⟩

/-- The walk over the methods of a class. -/
theorem stands_insideClass (h : List.Forall₂ Declares place.scopes r.scopes)
    {context : ClassContext} (hclass : r.class_ = some context) (superclass : Option Token) :
    Stands (place.insideClass superclass)
      { r with scopes := r.scopes.insideClass superclass } := by
  refine ⟨congrArg Option.isSome hclass,?_⟩
  cases superclass with
  | none => exact .cons (declares_ofList thisName) h
  | some parent => exact .cons (declares_ofList thisName) (.cons (declares_ofList superName) h)

theorem Stands.stmt : ∀ (s : Stmt) {place : Place} {r : Resolver}, Stands place r →
    Stands (place.declare s.declares) (stmt s r)
  | .expression value, place, r, h => by
    rw [Stmt.declares,Place.declare_nil]
    exact h.expr value
  | .print value, place, r, h => by
    rw [Stmt.declares,Place.declare_nil]
    exact h.expr value
  | .varDecl name none, _, r, h => h.define name
  | .varDecl name (some value), _, r, h => by
    refine h.bind true (frame_stmt (.varDecl name (some value)) r).class_ ?_
    simp [Resolver.stmt,Scopes.bind_bind]
  | .block body, place, r, h => by
    rw [Stmt.declares,Place.declare_nil]
    exact h.congr (frame_stmt (.block body) r).class_ (within_scopes (tail_stmts body) r)
  | .ifElse condition thenBranch none, _, r, h => Stands.stmt thenBranch (h.expr condition)
  | .ifElse condition thenBranch (some elseBranch), _, r, h => by
    rw [Stmt.declares,Place.declare_append]
    exact Stands.stmt elseBranch (Stands.stmt thenBranch (h.expr condition))
  | .while_ condition body, _, r, h => Stands.stmt body (h.expr condition)
  | .return_ keyword value, place, r, h => by
    rw [Stmt.declares,Place.declare_nil]
    refine h.congr (frame_stmt (.return_ keyword value) r).class_ ?_
    cases value <;> simp [Resolver.stmt]
  | .funDecl decl, _, r, h => by
    refine h.bind true (frame_stmt (.funDecl decl) r).class_ ?_
    simp [Resolver.stmt,functionDecl_scopes,Scopes.bind_bind]
  | .classDecl name none body, _, r, h => by
    refine h.bind true (frame_stmt (.classDecl name none body) r).class_ ?_
    simp [Resolver.stmt,within_scopes_eq (methods_scopes body),Scopes.bind_bind]
  | .classDecl name (some parent) body, _, r, h => by
    refine h.bind true (frame_stmt (.classDecl name (some parent) body) r).class_ ?_
    simp [Resolver.stmt,within_scopes_eq (within_scopes_eq (methods_scopes body)),Scopes.bind_bind]

/-! ## The table of a walk -/

@[simp] theorem mark_table (name : Bytes) (finished : Bool) (r : Resolver) :
    (r.mark name finished).table = r.table := by
  unfold mark
  split <;> rfl

@[simp] theorem reportIf_table {p : Prop} [Decidable p] (error : StaticError) (token : Token)
    (r : Resolver) : (if p then r.report error token else r).table = r.table := by
  split <;> rfl

@[simp] theorem declare_table (name : Token) (r : Resolver) : (r.declare name).table = r.table := by
  rw [declare,mark_table,reportIf_table]

@[simp] theorem define_table (name : Token) (r : Resolver) : (r.define name).table = r.table :=
  mark_table name.lexeme true r

@[simp] theorem parameters_table (params : List Token) (r : Resolver) :
    (params.foldl (fun r p => (r.declare p).define p) r).table = r.table := by
  induction params generalizing r with
  | nil => rfl
  | cons p params ih => rw [List.foldl_cons,ih,define_table,declare_table]

/-- What a look-up enters depends on the scopes only. -/
theorem refer_table {use : Use} (h : List.Forall₂ Declares place.scopes r.scopes)
    (hastray : ¬ (Reference.mk use name place).IsAstray) :
    (r.refer name).table = (Reference.mk use name place).enter r.table := by
  unfold refer Reference.enter Reference.distance?
  rw [if_neg hastray,findIdx?_of_declares h]
  cases r.scopes.findIdx? (·.contains name.lexeme) <;> rfl

theorem readVariable_table (h : List.Forall₂ Declares place.scopes r.scopes) :
    (r.readVariable name).table = (Reference.mk .reads name place).enter r.table := by
  have hreads : ¬ (Reference.mk .reads name place).IsAstray := by simp [Reference.IsAstray]
  rw [readVariable,refer_table (by rwa [reportIf_scopes]) hreads,reportIf_table]

theorem Stands.self_table (h : Stands place r) :
    (Resolver.expr (.self name) r).table = (Reference.mk .this_ name place).enter r.table := by
  have hclass := h.class_
  rw [Resolver.expr]
  cases hr : r.class_ with
  | none =>
    rw [hr] at hclass
    have hastray : (Reference.mk .this_ name place).IsAstray := ⟨rfl,hclass.symm⟩
    rw [Reference.enter,Reference.distance?,if_pos hastray]
    rfl
  | some context =>
    rw [hr] at hclass
    refine refer_table h.scopes fun hastray => ?_
    exact Bool.false_ne_true (hastray.2.symm.trans hclass.symm)

theorem Stands.super_table (h : Stands place r) (method : Token) :
    (Resolver.expr (.superMethod name method) r).table =
      (Reference.mk .super name place).enter r.table := by
  have hother : ¬ (Reference.mk .super name place).IsAstray := by simp [Reference.IsAstray]
  rw [Resolver.expr]
  cases r.class_ with
  | none => exact refer_table (r := r.report .superOutsideClass name) h.scopes hother
  | some context =>
    cases context with
    | plain => exact refer_table (r := r.report .superWithoutSuperclass name) h.scopes hother
    | derived => exact refer_table h.scopes hother

end

mutual

/-- A walk enters the nodes of an expression in the table. -/
theorem expr_table {place : Place} : ∀ (e : Expr) {r : Resolver}, Stands place r →
    (expr e r).table = (e.references place).foldl Reference.enter r.table
  | .literal _, _, _ => rfl
  | .variable_ name, _, h => readVariable_table h.scopes
  | .self keyword, _, h => h.self_table
  | .superMethod keyword method, _, h => h.super_table method
  | .grouping inner, _, h => expr_table inner h
  | .unary _ _ operand, _, h => expr_table operand h
  | .binary _ _ left right, _, h => by
    rw [expr,expr_table right (h.expr left),expr_table left h,Expr.references,List.foldl_append]
  | .logical _ left right, _, h => by
    rw [expr,expr_table right (h.expr left),expr_table left h,Expr.references,List.foldl_append]
  | .assign name value, _, h => by
    have hname : ¬ (Reference.mk .assigns name place).IsAstray := by simp [Reference.IsAstray]
    rw [expr,refer_table (h.expr value).scopes hname,expr_table value h,Expr.references,List.foldl_append]
    rfl
  | .get object _, _, h => expr_table object h
  | .set object _ value, _, h => by
    rw [expr,expr_table object (h.expr value),expr_table value h,Expr.references,List.foldl_append]
  | .call callee _ arguments, _, h => by
    rw [expr,exprs_table arguments (h.expr callee),expr_table callee h,Expr.references,
      List.foldl_append]

theorem exprs_table {place : Place} : ∀ (es : List Expr) {r : Resolver}, Stands place r →
    (exprs es r).table = (Expr.allReferences place es).foldl Reference.enter r.table
  | [], _, _ => rfl
  | e :: rest, _, h => by
    rw [exprs,exprs_table rest (h.expr e),expr_table e h,Expr.allReferences,List.foldl_append]

end

mutual

theorem stmt_table : ∀ (s : Stmt) {place : Place} {r : Resolver}, Stands place r →
    (stmt s r).table = (s.references place).foldl Reference.enter r.table
  | .expression value, _, _, h => expr_table value h
  | .print value, _, _, h => expr_table value h
  | .varDecl name none, _, r, _ => by
    rw [stmt,define_table,declare_table]
    rfl
  | .varDecl name (some value), _, _, h => by
    rw [stmt,define_table,expr_table value (h.declare name),declare_table]
    rfl
  | .block body, _, _, h => stmts_table body (h.inside declares_empty)
  | .ifElse condition thenBranch none, _, _, h => by
    rw [stmt,stmt_table thenBranch (h.expr condition),expr_table condition h,Stmt.references,
      List.foldl_append]
  | .ifElse condition thenBranch (some elseBranch), _, _, h => by
    rw [stmt,stmt_table elseBranch (Stands.stmt thenBranch (h.expr condition)),
      stmt_table thenBranch (h.expr condition),expr_table condition h,Stmt.references,
      List.foldl_append,List.foldl_append]
  | .while_ condition body, _, _, h => by
    rw [stmt,stmt_table body (h.expr condition),expr_table condition h,Stmt.references,
      List.foldl_append]
  | .return_ keyword none, _, r, _ => reportIf_table .topLevelReturn keyword r
  | .return_ keyword (some value), place, r, h => by
    let outer := if r.function = none then r.report .topLevelReturn keyword else r
    have houter : Stands place outer :=
      h.congr (frame_reportIf .topLevelReturn keyword r).class_ (reportIf_scopes _ _ _)
    have hinner := houter.congr (frame_reportIf (p := outer.function = some .initializer)
      .initializerReturn keyword outer).class_ (reportIf_scopes _ _ _)
    rw [stmt,expr_table value hinner,reportIf_table,reportIf_table]
    rfl
  | .funDecl decl, _, r, h => by
    rw [stmt,functionDecl_table decl (h.define decl.name),define_table,declare_table]
    rfl
  | .classDecl name none body, place, r, h => by
    let outer : Resolver := ({ r with class_ := some .plain }.declare name).define name
    have hclass : outer.class_ = some .plain :=
      ((frame_declare name _).after (frame_define name _)).class_
    have hscopes : List.Forall₂ Declares (place.declare [name.lexeme]).scopes outer.scopes := by
      simpa [outer] using (h.define name).scopes
    have hmethods := methods_table body (stands_insideClass hscopes hclass none)
    rw [stmt,Stmt.references]
    exact hmethods.trans (by simp [outer])
  | .classDecl name (some parent) body, place, r, h => by
    let inner : Resolver := { r with class_ := some .derived }
    let outer : Resolver := ((inner.declare name).readVariable parent).define name
    have hclass : outer.class_ = some .derived :=
      (((frame_declare name inner).after (frame_readVariable parent _)).andThen
        (frame_define name _)).class_
    have hparent : (inner.declare name).scopes = (r.declare name).scopes := by
      rw [declare_scopes,declare_scopes]
    have hscopes : List.Forall₂ Declares (place.declare [name.lexeme]).scopes outer.scopes := by
      simpa [outer,inner] using (h.define name).scopes
    have hmethods := methods_table body (stands_insideClass hscopes hclass (some parent))
    have hentry : outer.table =
        (Reference.mk .reads parent (place.declare [name.lexeme])).enter r.table := by
      rw [define_table,readVariable_table (hparent ▸ (h.declare name).scopes),declare_table]
    rw [stmt,Stmt.references,List.foldl_cons,← hentry]
    exact hmethods

theorem stmts_table : ∀ (ss : List Stmt) {place : Place} {r : Resolver}, Stands place r →
    (stmts ss r).table = (Stmt.allReferences place ss).foldl Reference.enter r.table
  | [], _, _, _ => rfl
  | s :: rest, _, _, h => by
    rw [stmts,stmts_table rest (Stands.stmt s h),stmt_table s h,Stmt.allReferences,List.foldl_append]

theorem functionDecl_table : ∀ (decl : FunctionDecl) {context : FunctionContext} {place : Place}
    {r : Resolver}, Stands place r →
    (functionDecl context decl r).table = (decl.references place).foldl Reference.enter r.table
  | ⟨_,params,body⟩, context, place, r, h => by
    let inner : Resolver := { r with function := some context }
    have hinner : Stands place inner := h.congr rfl rfl
    have hbody := stmts_table body ((hinner.inside declares_empty).parameters params)
    rw [parameters_table] at hbody
    exact hbody

theorem methods_table : ∀ (decls : List FunctionDecl) {place : Place} {r : Resolver},
    Stands place r → (methods decls r).table =
      (FunctionDecl.allReferences place decls).foldl Reference.enter r.table
  | [], _, _, _ => rfl
  | decl :: rest, _, r, h => by
    let context : FunctionContext :=
      if decl.name.lexeme = initializerName then .initializer else .method
    have hrest := h.congr (frame_functionDecl context decl r).class_
      (functionDecl_scopes context decl r)
    rw [methods,methods_table rest hrest,functionDecl_table decl h,FunctionDecl.allReferences,
      List.foldl_append]

end

end Resolver

/-! ## Sessions -/

/-- The nodes of a program find the distances that their places give. -/
theorem resolve_table_of_distinct {table : Table} {program : List Stmt}
    (hdistinct : ((Stmt.allRefs program).map Token.index).Nodup)
    (hfree : ∀ x ∈ Stmt.allRefs program, table[x.index]? = none) :
    ∀ ref ∈ Stmt.allReferences {} program,
      (resolve table program).table[ref.token.index]? = ref.distance? := by
  have hstart : Resolver.Stands {} { table } := ⟨rfl,.nil⟩
  have htable : (resolve table program).table =
      (Stmt.allReferences {} program).foldl Reference.enter table :=
    Resolver.stmts_table program hstart
  have htokens : (Stmt.allReferences {} program).map Reference.token = Stmt.allRefs program :=
    Stmt.allReferences_tokens program
  rw [← htokens] at hdistinct hfree
  rw [htable]
  refine Reference.getElem?_foldl_enter ?_ fun ref href => hfree _ (List.mem_map_of_mem href)
  rwa [List.map_map] at hdistinct

theorem Session.PlacesFree.past {s : Session} (h : s.PlacesFree) (tokens : List Token) :
    (s.past tokens).PlacesFree :=
  fun i hi => h i (Nat.le_trans (Nat.le_add_right _ _) hi)

theorem Session.placesFree_afterCalls (clock : Clock) (calls : List Call) :
    ((start clock).afterCalls calls).PlacesFree :=
  afterCalls_induction (placesFree_start clock) (fun _ r h => h.perform r)
    (fun _ _ h => h.past _) calls

/-- Whatever a session was asked for, and whatever source comes next: the table has for each node
the number of the first scope around it that declares its name before it, and no entry if there is no
such scope. No two nodes share an entry. -/
theorem table_gives_innermost_declaration (clock : Clock) (calls : List Session.Call)
    (source : Bytes) :
    let s := (Session.start clock).afterCalls calls
    let statements := (load s.nextIndex source).statements
    let table := (resolve s.table statements).table
    let nodes := Stmt.allReferences {} statements
    (nodes.map fun ref => ref.token.index).Nodup ∧
    ∀ ref ∈ nodes,
      (ref.IsAstray → table[ref.token.index]? = none) ∧
      (¬ ref.IsAstray →
        (∀ distance, table[ref.token.index]? = some distance ↔
          ref.place.FirstDeclares distance ref.token.lexeme) ∧
        (table[ref.token.index]? = none ↔ ∀ scope ∈ ref.place.scopes, ref.token.lexeme ∉ scope)) := by
  intro s statements table nodes
  have hdistinct : ((Stmt.allRefs statements).map Token.index).Nodup :=
    nodup_refs_load s.nextIndex source
  have hfree : ∀ x ∈ Stmt.allRefs statements, s.table[x.index]? = none :=
    fun x hx => Session.placesFree_afterCalls clock calls x.index
      (range_of_mem_load (mem_load_of_mem_refs hx)).1
  have hentries := resolve_table_of_distinct hdistinct hfree
  have htokens : nodes.map Reference.token = Stmt.allRefs statements :=
    Stmt.allReferences_tokens statements
  refine ⟨?_,fun ref href => ?_⟩
  · rwa [← htokens,List.map_map] at hdistinct
  · have hentry : table[ref.token.index]? = ref.distance? := hentries ref href
    rw [hentry]
    refine ⟨fun hastray => if_pos hastray,fun hastray => ⟨fun distance => ?_,?_⟩⟩
    · exact Reference.distance?_eq_some_iff hastray
    · exact Reference.distance?_eq_none_iff hastray

end Scriptlet
