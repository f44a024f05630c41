import Scriptlet.Proofs.Scoping

/-! # What a walk of the resolver changes

A walk over a tree gives back the contexts it was given, changes the table only at the names that
occur in the tree, and keeps the faults that were found before. Scopes are entered and left in
pairs: expressions leave the scopes as they are, and a statement can only add to the innermost one.
-/
namespace Scriptlet.Resolver

/-- What lies outside of the walk over a tree with the given names. -/
structure Frame (refs : List Token) (r r' : Resolver) : Prop where
  function : r'.function = r.function
  class_ : r'.class_ = r.class_
  table : ∀ i, (∀ x ∈ refs, x.index ≠ i) → r'.table[i]? = r.table[i]?
  faults : r.faults <:+ r'.faults

namespace Frame

variable {refs refs' : List Token} {r r' r'' : Resolver}

theorem refl (r : Resolver) : Frame [] r r := ⟨rfl,rfl,fun _ _ => rfl,List.suffix_refl _⟩

theorem trans (h : Frame refs r r') (h' : Frame refs' r' r'') : Frame (refs ++ refs') r r'' where
  function := h'.function.trans h.function
  class_ := h'.class_.trans h.class_
  table i hi := (h'.table i fun x hx => hi x (by simp [hx])).trans
    (h.table i fun x hx => hi x (by simp [hx]))
  faults := h.faults.trans h'.faults

/-- A walk that changes no entry of the table may come first. -/
theorem after (h : Frame [] r r') (h' : Frame refs r' r'') : Frame refs r r'' := h.trans h'

theorem andThen (h : Frame refs r r') (h' : Frame [] r' r'') : Frame refs r r'' := by
  simpa using h.trans h'

theorem clean (h : Frame refs r r') (hclean : r'.faults = []) : r.faults = [] :=
  List.suffix_nil.1 (hclean ▸ h.faults)

end Frame

/-! ## The steps of a walk -/

theorem frame_report (error : StaticError) (token : Token) (r : Resolver) :
    Frame [] r (r.report error token) :=
  ⟨rfl,rfl,fun _ _ => rfl,List.suffix_cons _ _⟩

theorem frame_reportIf {p : Prop} [Decidable p] (error : StaticError) (token : Token)
    (r : Resolver) : Frame [] r (if p then r.report error token else r) := by
  split
  · exact frame_report error token r
  · exact .refl r

theorem frame_mark (name : Bytes) (finished : Bool) (r : Resolver) :
    Frame [] r (r.mark name finished) := by
  unfold mark
  split
  · exact .refl r
  · exact ⟨rfl,rfl,fun _ _ => rfl,List.suffix_refl _⟩

theorem frame_declare (name : Token) (r : Resolver) : Frame [] r (r.declare name) :=
  (frame_reportIf .alreadyDeclared name r).trans (frame_mark name.lexeme false _)

theorem frame_define (name : Token) (r : Resolver) : Frame [] r (r.define name) :=
  frame_mark name.lexeme true r

theorem frame_refer (name : Token) (r : Resolver) : Frame [name] r (r.refer name) := by
  unfold refer
  split
  · refine ⟨rfl,rfl,fun i hi => ?_,List.suffix_refl _⟩
    have hne : name.index ≠ i := hi name (List.mem_singleton_self name)
    simp [Std.TreeMap.getElem?_insert,hne]
  · exact ⟨rfl,rfl,fun _ _ => rfl,List.suffix_refl _⟩

theorem frame_readVariable (name : Token) (r : Resolver) : Frame [name] r (r.readVariable name) :=
  (frame_reportIf .ownInitializer name r).trans (frame_refer name _)

theorem frame_within {refs : List Token} {scope : NameMap Bool} {walk : Resolver → Resolver}
    (h : ∀ r, Frame refs r (walk r)) (r : Resolver) : Frame refs r (r.within scope walk) := by
  have hwalk := h { r with scopes := scope :: r.scopes }
  exact ⟨hwalk.function,hwalk.class_,hwalk.table,hwalk.faults⟩

/-- The context of functions is given back. -/
theorem frame_function {refs : List Token} {context : Option FunctionContext}
    {walk : Resolver → Resolver} (h : ∀ r, Frame refs r (walk r)) (r : Resolver) :
    Frame refs r { walk { r with function := context } with function := r.function } := by
  have hwalk := h { r with function := context }
  exact ⟨rfl,hwalk.class_,hwalk.table,hwalk.faults⟩

/-- The context of classes is given back. -/
theorem frame_class {refs : List Token} {context : Option ClassContext}
    {walk : Resolver → Resolver} (h : ∀ r, Frame refs r (walk r)) (r : Resolver) :
    Frame refs r { walk { r with class_ := context } with class_ := r.class_ } := by
  have hwalk := h { r with class_ := context }
  exact ⟨hwalk.function,rfl,hwalk.table,hwalk.faults⟩

theorem frame_parameters (params : List Token) (r : Resolver) :
    Frame [] r (params.foldl (fun r p => (r.declare p).define p) r) := by
  induction params generalizing r with
  | nil => exact .refl r
  | cons p params ih => exact ((frame_declare p r).after (frame_define p _)).after (ih _)

/-! ## Scopes -/

@[simp] theorem report_scopes (error : StaticError) (token : Token) (r : Resolver) :
    (r.report error token).scopes = r.scopes := rfl

@[simp] theorem reportIf_scopes {p : Prop} [Decidable p] (error : StaticError) (token : Token)
    (r : Resolver) : (if p then r.report error token else r).scopes = r.scopes := by
  split <;> rfl

@[simp] theorem mark_scopes (name : Bytes) (finished : Bool) (r : Resolver) :
    (r.mark name finished).scopes = r.scopes.bind name finished := by
  unfold mark Scopes.bind
  split <;> simp_all

@[simp] theorem declare_scopes (name : Token) (r : Resolver) :
    (r.declare name).scopes = r.scopes.bind name.lexeme false := by
  rw [declare,mark_scopes,reportIf_scopes]

@[simp] theorem define_scopes (name : Token) (r : Resolver) :
    (r.define name).scopes = r.scopes.bind name.lexeme true :=
  mark_scopes name.lexeme true r

@[simp] theorem refer_scopes (name : Token) (r : Resolver) : (r.refer name).scopes = r.scopes := by
  unfold refer
  split <;> rfl

@[simp] theorem readVariable_scopes (name : Token) (r : Resolver) :
    (r.readVariable name).scopes = r.scopes := by
  rw [readVariable,refer_scopes,reportIf_scopes]

@[simp] theorem parameters_scopes (params : List Token) (r : Resolver) :
    (params.foldl (fun r p => (r.declare p).define p) r).scopes = r.scopes.bindAll params := by
  induction params generalizing r with
  | nil => rfl
  | cons p params ih => simp [ih,Scopes.bind_bind,Scopes.bindAll]

mutual

@[simp] theorem expr_scopes : ∀ (e : Expr) (r : Resolver), (expr e r).scopes = r.scopes
  | .literal _, _ => rfl
  | .variable_ name, r => readVariable_scopes name r
  | .self keyword, r => by
    rw [expr]
    split
    · rfl
    · exact refer_scopes keyword r
  | .superMethod keyword _, r => by
    rw [expr,refer_scopes]
    split <;> rfl
  | .grouping inner, r => expr_scopes inner r
  | .unary _ _ operand, r => expr_scopes operand r
  | .binary _ _ left right, r => (expr_scopes right _).trans (expr_scopes left r)
  | .logical _ left right, r => (expr_scopes right _).trans (expr_scopes left r)
  | .assign name value, r => (refer_scopes name _).trans (expr_scopes value r)
  | .get object _, r => expr_scopes object r
  | .set object _ value, r => (expr_scopes object _).trans (expr_scopes value r)
  | .call callee _ arguments, r => (exprs_scopes arguments _).trans (expr_scopes callee r)

@[simp] theorem exprs_scopes : ∀ (es : List Expr) (r : Resolver), (exprs es r).scopes = r.scopes
  | [], _ => rfl
  | e :: rest, r => (exprs_scopes rest _).trans (expr_scopes e r)

end

@[simp] theorem tail_bind (scopes : Scopes) (name : Bytes) (finished : Bool) :
    (scopes.bind name finished).tail = scopes.tail := by
  cases scopes <;> rfl

@[simp] theorem tail_bindAll (scopes : Scopes) (names : List Token) :
    (scopes.bindAll names).tail = scopes.tail := by
  induction names generalizing scopes with
  | nil => rfl
  | cons name names ih => exact (ih _).trans (tail_bind scopes name.lexeme true)

/-- A scope is left again when all that a walk can do is add to the innermost one. -/
theorem within_scopes {scope : NameMap Bool} {walk : Resolver → Resolver}
    (h : ∀ r, (walk r).scopes.tail = r.scopes.tail) (r : Resolver) :
    (r.within scope walk).scopes = r.scopes :=
  h { r with scopes := scope :: r.scopes }

theorem within_scopes_eq {scope : NameMap Bool} {walk : Resolver → Resolver}
    (h : ∀ r, (walk r).scopes = r.scopes) (r : Resolver) :
    (r.within scope walk).scopes = r.scopes :=
  within_scopes (fun r => congrArg List.tail (h r)) r

mutual

theorem tail_stmt : ∀ (s : Stmt) (r : Resolver), (stmt s r).scopes.tail = r.scopes.tail
  | .expression value, r => by rw [stmt,expr_scopes]
  | .print value, r => by rw [stmt,expr_scopes]
  | .varDecl name none, r => by simp [stmt]
  | .varDecl name (some value), r => by simp [stmt]
  | .block body, r => by rw [stmt,within_scopes (tail_stmts body)]
  | .ifElse condition thenBranch none, r => by rw [stmt,tail_stmt thenBranch,expr_scopes]
  | .ifElse condition thenBranch (some elseBranch), r => by
    rw [stmt,tail_stmt elseBranch,tail_stmt thenBranch,expr_scopes]
  | .while_ condition body, r => by rw [stmt,tail_stmt body,expr_scopes]
  | .return_ keyword none, r => by
    simp [stmt]
  | .return_ keyword (some value), r => by
    simp [stmt]
  | .funDecl decl, r => by simp [stmt,functionDecl_scopes .function decl]
  | .classDecl name none body, r => by
    simp [stmt,within_scopes_eq (methods_scopes body)]
  | .classDecl name (some parent) body, r => by
    simp [stmt,within_scopes_eq (within_scopes_eq (methods_scopes body))]

theorem tail_stmts : ∀ (ss : List Stmt) (r : Resolver), (stmts ss r).scopes.tail = r.scopes.tail
  | [], _ => rfl
  | s :: rest, r => (tail_stmts rest _).trans (tail_stmt s r)

theorem functionDecl_scopes : ∀ (context : FunctionContext) (decl : FunctionDecl) (r : Resolver),
    (functionDecl context decl r).scopes = r.scopes
  | _, ⟨_,params,body⟩, r => by
    have hbody r : (stmts body (params.foldl (fun r p => (r.declare p).define p) r)).scopes.tail
        = r.scopes.tail := by
      rw [tail_stmts body,parameters_scopes,tail_bindAll]
    rw [functionDecl]
    exact within_scopes hbody _

theorem methods_scopes : ∀ (decls : List FunctionDecl) (r : Resolver),
    (methods decls r).scopes = r.scopes
  | [], _ => rfl
  | decl :: rest, r => (methods_scopes rest _).trans (functionDecl_scopes _ decl r)

end

/-! ## Trees -/

mutual

theorem frame_expr : ∀ (e : Expr) (r : Resolver), Frame e.refs r (expr e r)
  | .literal _, r => .refl r
  | .variable_ name, r => frame_readVariable name r
  | .self keyword, r => by
    rw [expr]
    split
    · have h := frame_report .thisOutsideClass keyword r
      exact ⟨h.function,h.class_,fun i _ => h.table i (by simp),h.faults⟩
    · exact frame_refer keyword r
  | .superMethod keyword _, r => by
    rw [expr]
    refine Frame.after ?_ (frame_refer keyword _)
    split
    · exact frame_report .superOutsideClass keyword r
    · exact frame_report .superWithoutSuperclass keyword r
    · exact .refl r
  | .grouping inner, r => frame_expr inner r
  | .unary _ _ operand, r => frame_expr operand r
  | .binary _ _ left right, r => (frame_expr left r).trans (frame_expr right _)
  | .logical _ left right, r => (frame_expr left r).trans (frame_expr right _)
  | .assign name value, r => (frame_expr value r).trans (frame_refer name _)
  | .get object _, r => frame_expr object r
  | .set object _ value, r => (frame_expr value r).trans (frame_expr object _)
  | .call callee _ arguments, r => (frame_expr callee r).trans (frame_exprs arguments _)

theorem frame_exprs : ∀ (es : List Expr) (r : Resolver), Frame (Expr.allRefs es) r (exprs es r)
  | [], r => .refl r
  | e :: rest, r => (frame_expr e r).trans (frame_exprs rest _)

end

mutual

theorem frame_stmt : ∀ (s : Stmt) (r : Resolver), Frame s.refs r (stmt s r)
  | .expression value, r => frame_expr value r
  | .print value, r => frame_expr value r
  | .varDecl name none, r => (frame_declare name r).after (frame_define name _)
  | .varDecl name (some value), r =>
    ((frame_declare name r).after (frame_expr value _)).andThen (frame_define name _)
  | .block body, r => frame_within (frame_stmts body) r
  | .ifElse condition thenBranch none, r =>
    (frame_expr condition r).trans (frame_stmt thenBranch _)
  | .ifElse condition thenBranch (some elseBranch), r =>
    (frame_expr condition r).trans ((frame_stmt thenBranch _).trans (frame_stmt elseBranch _))
  | .while_ condition body, r => (frame_expr condition r).trans (frame_stmt body _)
  | .return_ keyword none, r => frame_reportIf .topLevelReturn keyword r
  | .return_ keyword (some value), r =>
    (frame_reportIf .topLevelReturn keyword r).after
      ((frame_reportIf .initializerReturn keyword _).after (frame_expr value _))
  | .funDecl decl, r =>
    ((frame_declare decl.name r).after (frame_define decl.name _)).after
      (frame_functionDecl .function decl _)
  | .classDecl name none body, r =>
    frame_class (fun r => ((frame_declare name r).after (frame_define name _)).after
      (frame_within (frame_methods body) _)) r
  | .classDecl name (some parent) body, r =>
    frame_class (fun r => (((frame_declare name r).after (frame_readVariable parent _)).andThen
      (frame_define name _)).trans (frame_within (frame_within (frame_methods body)) _)) r

theorem frame_stmts : ∀ (ss : List Stmt) (r : Resolver), Frame (Stmt.allRefs ss) r (stmts ss r)
  | [], r => .refl r
  | s :: rest, r => (frame_stmt s r).trans (frame_stmts rest _)

theorem frame_functionDecl : ∀ (context : FunctionContext) (decl : FunctionDecl) (r : Resolver),
    Frame decl.refs r (functionDecl context decl r)
  | _, ⟨_,params,body⟩, r =>
    frame_function (frame_within fun r => (frame_parameters params r).after (frame_stmts body _)) r

theorem frame_methods : ∀ (decls : List FunctionDecl) (r : Resolver),
    Frame (FunctionDecl.allRefs decls) r (methods decls r)
  | [], r => .refl r
  | decl :: rest, r => (frame_functionDecl _ decl r).trans (frame_methods rest _)

end

end Scriptlet.Resolver
