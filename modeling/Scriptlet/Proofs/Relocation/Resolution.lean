import Scriptlet.Proofs.Relocation
import Scriptlet.Resolution

/-! # Resolving a moved tree

The resolver does not look at lines, and nothing it finds depends on the entries that its table has
already. So two walks, over a tree and over the moved tree, go in parallel: they see the same
scopes, add the same entries and report the same errors, at the moved tokens.
-/
namespace Scriptlet

def StaticFault.relocate (ρ : Relocation) (fault : StaticFault) : StaticFault :=
  { fault with token := ρ.move fault.token }

namespace Resolver

/-- A relation of tables that an entry for a token and for the moved token does not disturb. -/
structure TableRelation (ρ : Relocation) where
  holds : Table → Table → Prop
  insert : ∀ {t t'}, holds t t' → ∀ (x : Token) (d : Nat),
    holds (t.insert x.index d) (t'.insert (ρ.move x).index d)

/-- Tables are equal if tokens keep their places. -/
def TableRelation.equal {ρ : Relocation} (h : ∀ t, (ρ.move t).index = t.index) : TableRelation ρ :=
  ⟨Eq,fun ht x d => by rw [ht,h x]⟩

def TableRelation.any {ρ : Relocation} : TableRelation ρ := ⟨fun _ _ => True,fun _ _ _ => trivial⟩

/-- Two states of the resolver that differ in the lines of faults, and whose tables are related. -/
structure Parallel (ρ : Relocation) (R : TableRelation ρ) (r r' : Resolver) : Prop where
  scopes : r'.scopes = r.scopes
  function : r'.function = r.function
  class_ : r'.class_ = r.class_
  table : R.holds r.table r'.table
  faults : r'.faults = r.faults.map (StaticFault.relocate ρ)

section

variable {ρ : Relocation} {R : TableRelation ρ} {r r' : Resolver}

namespace Parallel

theorem report (h : Parallel ρ R r r') (error : StaticError) (token : Token) :
    Parallel ρ R (r.report error token) (r'.report error (ρ.move token)) :=
  { h with faults := by simp [Resolver.report,h.faults,StaticFault.relocate] }

theorem reportIf {p q : Prop} [Decidable p] [Decidable q] (hiff : q ↔ p) (h : Parallel ρ R r r')
    (error : StaticError) (token : Token) :
    Parallel ρ R (if p then r.report error token else r)
      (if q then r'.report error (ρ.move token) else r') := by
  by_cases hp : p
  · rw [if_pos hp,if_pos (hiff.2 hp)]
    exact h.report error token
  · rw [if_neg hp,if_neg (fun hq => hp (hiff.1 hq))]
    exact h

theorem mark (h : Parallel ρ R r r') (name : Bytes) (finished : Bool) :
    Parallel ρ R (r.mark name finished) (r'.mark name finished) := by
  unfold Resolver.mark
  rw [h.scopes]
  split
  · exact h
  · exact { h with scopes := rfl }

theorem innermost? (h : Parallel ρ R r r') (name : Bytes) :
    r'.innermost? name = r.innermost? name := by
  rw [Resolver.innermost?,Resolver.innermost?,h.scopes]

theorem declare (h : Parallel ρ R r r') (name : Token) :
    Parallel ρ R (r.declare name) (r'.declare (ρ.move name)) := by
  have hname := h.innermost? name.lexeme
  simp only [Resolver.declare,ρ.lexeme,hname]
  exact (h.reportIf Iff.rfl .alreadyDeclared name).mark name.lexeme false

theorem define (h : Parallel ρ R r r') (name : Token) :
    Parallel ρ R (r.define name) (r'.define (ρ.move name)) := by
  simpa only [Resolver.define,ρ.lexeme] using h.mark name.lexeme true

theorem within (h : Parallel ρ R r r') {walk walk' : Resolver → Resolver} (scope : NameMap Bool)
    (hwalk : ∀ r r', Parallel ρ R r r' → Parallel ρ R (walk r) (walk' r')) :
    Parallel ρ R (r.within scope walk) (r'.within scope walk') := by
  have hinner := hwalk { r with scopes := scope :: r.scopes } { r' with scopes := scope :: r'.scopes }
    { h with scopes := by rw [h.scopes] }
  exact { hinner with scopes := congrArg List.tail hinner.scopes }

theorem inFunction (h : Parallel ρ R r r') {walk walk' : Resolver → Resolver}
    (context : Option FunctionContext)
    (hwalk : ∀ r r', Parallel ρ R r r' → Parallel ρ R (walk r) (walk' r')) :
    Parallel ρ R { walk { r with function := context } with function := r.function }
      { walk' { r' with function := context } with function := r'.function } :=
  { hwalk { r with function := context } { r' with function := context }
      { h with function := rfl } with function := h.function }

theorem inClass (h : Parallel ρ R r r') {walk walk' : Resolver → Resolver}
    (context : Option ClassContext)
    (hwalk : ∀ r r', Parallel ρ R r r' → Parallel ρ R (walk r) (walk' r')) :
    Parallel ρ R { walk { r with class_ := context } with class_ := r.class_ }
      { walk' { r' with class_ := context } with class_ := r'.class_ } :=
  { hwalk { r with class_ := context } { r' with class_ := context }
      { h with class_ := rfl } with class_ := h.class_ }

theorem parameters (h : Parallel ρ R r r') (params : List Token) :
    Parallel ρ R (params.foldl (fun r p => (r.declare p).define p) r)
      ((params.map ρ.move).foldl (fun r p => (r.declare p).define p) r') := by
  induction params generalizing r r' with
  | nil => exact h
  | cons p params ih => exact ih ((h.declare p).define p)

theorem refer (h : Parallel ρ R r r') (name : Token) :
    Parallel ρ R (r.refer name) (r'.refer (ρ.move name)) := by
  unfold Resolver.refer
  rw [h.scopes,ρ.lexeme]
  split
  · exact ⟨rfl,h.function,h.class_,R.insert h.table name _,h.faults⟩
  · exact h

theorem readVariable (h : Parallel ρ R r r') (name : Token) :
    Parallel ρ R (r.readVariable name) (r'.readVariable (ρ.move name)) := by
  have hname := h.innermost? name.lexeme
  simp only [Resolver.readVariable,ρ.lexeme,hname]
  exact (h.reportIf Iff.rfl .ownInitializer name).refer name

end Parallel

/-! ## Walks over a tree and the moved tree -/

mutual

theorem parallel_expr : ∀ (e : Expr) {r r' : Resolver}, Parallel ρ R r r' →
    Parallel ρ R (expr e r) (expr (e.relocate ρ) r')
  | .literal _, _, _, h => h
  | .variable_ name, _, _, h => h.readVariable name
  | .self keyword, r, r', h => by
    simp only [expr,Expr.relocate,h.class_]
    split
    · exact h.report .thisOutsideClass keyword
    · exact h.refer keyword
  | .superMethod keyword _, r, r', h => by
    simp only [expr,Expr.relocate,h.class_]
    refine Parallel.refer ?_ keyword
    split
    · exact h.report .superOutsideClass keyword
    · exact h.report .superWithoutSuperclass keyword
    · exact h
  | .grouping inner, _, _, h => parallel_expr inner h
  | .unary _ _ operand, _, _, h => parallel_expr operand h
  | .binary _ _ left right, _, _, h => parallel_expr right (parallel_expr left h)
  | .logical _ left right, _, _, h => parallel_expr right (parallel_expr left h)
  | .assign name value, _, _, h => (parallel_expr value h).refer name
  | .get object _, _, _, h => parallel_expr object h
  | .set object _ value, _, _, h => parallel_expr object (parallel_expr value h)
  | .call callee _ arguments, _, _, h => parallel_exprs arguments (parallel_expr callee h)

theorem parallel_exprs : ∀ (es : List Expr) {r r' : Resolver}, Parallel ρ R r r' →
    Parallel ρ R (exprs es r) (exprs (Expr.relocateAll ρ es) r')
  | [], _, _, h => h
  | e :: rest, _, _, h => parallel_exprs rest (parallel_expr e h)

end

mutual

theorem parallel_stmt : ∀ (s : Stmt) {r r' : Resolver}, Parallel ρ R r r' →
    Parallel ρ R (stmt s r) (stmt (s.relocate ρ) r')
  | .expression value, _, _, h => parallel_expr value h
  | .print value, _, _, h => parallel_expr value h
  | .varDecl name none, _, _, h => (h.declare name).define name
  | .varDecl name (some value), _, _, h =>
    (parallel_expr value (h.declare name)).define name
  | .block body, _, _, h => h.within .empty fun _ _ => parallel_stmts body
  | .ifElse condition thenBranch none, _, _, h =>
    parallel_stmt thenBranch (parallel_expr condition h)
  | .ifElse condition thenBranch (some elseBranch), _, _, h =>
    parallel_stmt elseBranch (parallel_stmt thenBranch (parallel_expr condition h))
  | .while_ condition body, _, _, h => parallel_stmt body (parallel_expr condition h)
  | .return_ keyword none, r, r', h =>
    h.reportIf (by rw [h.function]) .topLevelReturn keyword
  | .return_ keyword (some value), r, r', h => by
    have htop := h.reportIf (p := r.function = none) (q := r'.function = none) (by rw [h.function])
      .topLevelReturn keyword
    exact parallel_expr value
      (htop.reportIf (by rw [htop.function]) .initializerReturn keyword)
  | .funDecl decl, _, _, h => by
    have hname := (h.declare decl.name).define decl.name
    rw [← FunctionDecl.relocate_name] at hname
    exact parallel_functionDecl .function decl hname
  | .classDecl name none body, _, _, h =>
    h.inClass (some .plain) fun _ _ h => ((h.declare name).define name).within _
      fun _ _ => parallel_methods body
  | .classDecl name (some parent) body, _, _, h =>
    h.inClass (some .derived) fun _ _ h =>
      (((h.declare name).readVariable parent).define name).within _
        fun _ _ h => h.within _ fun _ _ => parallel_methods body

theorem parallel_stmts : ∀ (ss : List Stmt) {r r' : Resolver}, Parallel ρ R r r' →
    Parallel ρ R (stmts ss r) (stmts (Stmt.relocateAll ρ ss) r')
  | [], _, _, h => h
  | s :: rest, _, _, h => parallel_stmts rest (parallel_stmt s h)

theorem parallel_functionDecl : ∀ (context : FunctionContext) (decl : FunctionDecl)
    {r r' : Resolver}, Parallel ρ R r r' →
    Parallel ρ R (functionDecl context decl r) (functionDecl context (decl.relocate ρ) r')
  | context, ⟨_,params,body⟩, _, _, h =>
    h.inFunction (some context) fun _ _ h => h.within .empty fun _ _ h =>
      parallel_stmts body (h.parameters params)

theorem parallel_methods : ∀ (decls : List FunctionDecl) {r r' : Resolver}, Parallel ρ R r r' →
    Parallel ρ R (methods decls r) (methods (FunctionDecl.relocateAll ρ decls) r')
  | [], _, _, h => h
  | decl :: rest, _, _, h => by
    simp only [methods,FunctionDecl.relocateAll,FunctionDecl.relocate_name,ρ.lexeme]
    exact parallel_methods rest (parallel_functionDecl _ decl h)

end

end

end Resolver

/-- Resolving a program that is moved to other lines adds the same entries, and finds faults at the
moved tokens. -/
theorem resolve_relocate {ρ : Relocation} (hindex : ∀ t, (ρ.move t).index = t.index) (table : Table)
    (program : List Stmt) :
    resolve table (Stmt.relocateAll ρ program) =
      ⟨(resolve table program).table,
        (resolve table program).faults.map (StaticFault.relocate ρ)⟩ := by
  have hstart : Resolver.Parallel ρ (.equal hindex) { table } { table } := ⟨rfl,rfl,rfl,rfl,rfl⟩
  have h := Resolver.parallel_stmts program hstart
  have htable : _ = _ := h.table
  simp [resolve,h.faults,htable,List.map_reverse]

/-- Which faults a program has does not depend on the table, nor on the places of tokens. -/
theorem faults_relocate (ρ : Relocation) (table table' : Table) (program : List Stmt) :
    (resolve table' (Stmt.relocateAll ρ program)).faults =
      (resolve table program).faults.map (StaticFault.relocate ρ) := by
  have hstart : Resolver.Parallel ρ .any { table } { table := table' } :=
    ⟨rfl,rfl,rfl,trivial,rfl⟩
  have hwalk := Resolver.parallel_stmts program hstart
  simp [resolve,hwalk.faults,List.map_reverse]

theorem resolve_faults (table table' : Table) {tokens : List Token} {program : List Stmt}
    (h : Grammar.IsProgram tokens program) :
    (resolve table' program).faults = (resolve table program).faults := by
  have hfaults := faults_relocate .identity table table' program
  have hsame : StaticFault.relocate .identity = id := rfl
  rwa [h.relocateAll_eq .identity fun _ _ => rfl,hsame,List.map_id] at hfaults

end Scriptlet
