import Scriptlet.Proofs.Relocation.Machine

/-! # Evaluating a moved tree

Evaluation of a moved tree on a moved machine ends as evaluation of the tree does, in the moved
state, with the error tied to the moved token. The proof is by induction on the budget.
-/
namespace Scriptlet

open Steps

/-- Each function of the evaluator does the same to a moved tree, with a budget of `n`. -/
structure Moving (ρ : Relocation) (earlier : List Bytes) (ctx ctx' : Context) (n : Nat) : Prop where
  expr : ∀ e, Moves ρ earlier (Value.relocate ρ) (Eval.expr ctx n e) (Eval.expr ctx' n (e.relocate ρ))
  exprs : ∀ es, Moves ρ earlier (List.map (Value.relocate ρ)) (Eval.exprs ctx n es)
    (Eval.exprs ctx' n (Expr.relocateAll ρ es))
  call : ∀ paren callee args, Moves ρ earlier (Value.relocate ρ) (Eval.call ctx n paren callee args)
    (Eval.call ctx' n (ρ.move paren) (callee.relocate ρ) (args.map (Value.relocate ρ)))
  invoke : ∀ paren f args, Moves ρ earlier (Value.relocate ρ) (Eval.invoke ctx n paren f args)
    (Eval.invoke ctx' n (ρ.move paren) (f.relocate ρ) (args.map (Value.relocate ρ)))
  stmt : ∀ s, Moves ρ earlier (Outcome.relocate ρ) (Eval.stmt ctx n s) (Eval.stmt ctx' n (s.relocate ρ))
  stmts : ∀ ss, Moves ρ earlier (Outcome.relocate ρ) (Eval.stmts ctx n ss)
    (Eval.stmts ctx' n (Stmt.relocateAll ρ ss))

namespace Moving

variable {ρ : Relocation} {earlier : List Bytes} {ctx ctx' : Context} {n : Nat}

theorem zero : Moving ρ earlier ctx ctx' 0 where
  expr _ := .throw .exhausted
  exprs _ := .throw .exhausted
  call _ _ _ := .throw .exhausted
  invoke _ _ _ := .throw .exhausted
  stmt _ := .throw .exhausted
  stmts _ := .throw .exhausted

theorem succ_expr (hctx : Carries ρ ctx ctx') (ih : Moving ρ earlier ctx ctx' n) (e : Expr) :
    Moves ρ earlier (Value.relocate ρ) (Eval.expr ctx (n + 1) e)
      (Eval.expr ctx' (n + 1) (e.relocate ρ)) := by
  cases e with
  | literal value => exact .pure (Value.scalar value)
  | variable_ name => exact moves_lookUp hctx name
  | self keyword => exact moves_lookUp hctx keyword
  | superMethod keyword method => exact moves_superMethod hctx keyword method
  | grouping inner => exact ih.expr inner
  | unary op token operand =>
    refine (ih.expr operand).bind fun v => ?_
    rw [(v.alike_relocate ρ).unary op]
    exact (moves_orFault_id token (op.apply v)).bind fun s => .pure (Value.scalar s)
  | binary op token left right =>
    refine (ih.expr left).bind fun l => (ih.expr right).bind fun r => ?_
    rw [(l.alike_relocate ρ).binary op (r.alike_relocate ρ)]
    exact (moves_orFault_id token (op.apply l r)).bind fun s => .pure (Value.scalar s)
  | logical op left right =>
    refine (ih.expr left).bind fun l => ?_
    rw [(l.alike_relocate ρ).truthy]
    split
    · exact .pure l
    · exact ih.expr right
  | assign name value =>
    refine (ih.expr value).bind fun v => ?_
    exact (moves_assign hctx name v).bind fun _ => .pure v
  | get object name => exact (ih.expr object).bind fun o => moves_property o name
  | set object name value =>
    refine (ih.expr value).bind fun v => (ih.expr object).bind fun o => ?_
    cases o with
    | object c id =>
      rw [ρ.lexeme]
      exact (moves_setField id name.lexeme v).bind fun _ => .pure v
    | _ => exact moves_fault .noFields name
  | call callee paren arguments =>
    refine (ih.expr callee).bind fun f => (ih.exprs arguments).bind fun args => ?_
    exact ih.call paren f args

theorem succ_exprs (ih : Moving ρ earlier ctx ctx' n) (es : List Expr) :
    Moves ρ earlier (List.map (Value.relocate ρ)) (Eval.exprs ctx (n + 1) es)
      (Eval.exprs ctx' (n + 1) (Expr.relocateAll ρ es)) := by
  cases es with
  | nil => exact .pure []
  | cons e rest => exact (ih.expr e).bind fun v => (ih.exprs rest).bind fun vs => .pure (v :: vs)

theorem succ_call (hctx : Carries ρ ctx ctx') (ih : Moving ρ earlier ctx ctx' n) (paren : Token)
    (callee : Value) (args : List Value) :
    Moves ρ earlier (Value.relocate ρ) (Eval.call ctx (n + 1) paren callee args)
      (Eval.call ctx' (n + 1) (ρ.move paren) (callee.relocate ρ) (args.map (Value.relocate ρ))) := by
  simp only [Eval.call,Value.arity?_relocate,List.length_map,hctx.processVars]
  cases callee.arity? with
  | none => exact moves_fault .notCallable paren
  | some arity =>
    by_cases hlength : args.length = arity
    · simp only [hlength,ne_eq,not_true_eq_false,if_false]
      cases callee with
      | builtin b => exact moves_callBuiltin ctx.processVars paren b args
      | function id f => exact ih.invoke paren f args
      | class_ c =>
        refine (moves_newObject c).bind fun object => ?_
        rw [Class.findMethod?_relocate]
        cases c.findMethod? initializerName with
        | none => exact .pure object
        | some method =>
          refine (moves_bind method object).bind fun f => ?_
          exact (ih.invoke paren f args).bind fun _ => .pure object
      | _ => exact moves_fault .notCallable paren
    · simp only [hlength,ne_eq,not_false_eq_true,if_true]
      exact moves_fault (.argumentCount arity args.length) paren

theorem succ_invoke (ih : Moving ρ earlier ctx ctx' n) (paren : Token) (f : Function)
    (args : List Value) :
    Moves ρ earlier (Value.relocate ρ) (Eval.invoke ctx (n + 1) paren f args)
      (Eval.invoke ctx' (n + 1) (ρ.move paren) (f.relocate ρ) (args.map (Value.relocate ρ))) := by
  obtain ⟨⟨name,params,body⟩,closure,isInitializer⟩ := f
  have hparams := bindParameters_relocate ρ params args .empty
  rw [NameMap.map_empty] at hparams
  simp only [Eval.invoke,Function.relocate,FunctionDecl.relocate,hparams]
  refine (moves_orLost _).bind fun bindings => ?_
  refine (moves_newEnv closure bindings).bind fun scope => ?_
  refine ((ih.stmts body).inScope scope).bind fun outcome => ?_
  cases isInitializer with
  | true => exact moves_readAt closure 0 thisName paren
  | false =>
    have hresult : (outcome.relocate ρ).result = outcome.result.relocate ρ := by
      cases outcome <;> rfl
    rw [hresult]
    exact .pure outcome.result

theorem succ_stmt (hctx : Carries ρ ctx ctx') (ih : Moving ρ earlier ctx ctx' n) (s : Stmt) :
    Moves ρ earlier (Outcome.relocate ρ) (Eval.stmt ctx (n + 1) s)
      (Eval.stmt ctx' (n + 1) (s.relocate ρ)) := by
  match s with
  | .expression value => exact (ih.expr value).bind fun _ => .pure Outcome.normal
  | .print value =>
    refine (ih.expr value).bind fun v => ?_
    rw [(v.alike_relocate ρ).text]
    exact (moves_print v.text).bind fun _ => .pure Outcome.normal
  | .varDecl name none =>
    simp only [Eval.stmt,Stmt.relocate,Option.map_none,ρ.lexeme]
    exact (moves_define name.lexeme .uninitialized).bind fun _ => .pure Outcome.normal
  | .varDecl name (some value) =>
    simp only [Eval.stmt,Stmt.relocate,Option.map_some,ρ.lexeme]
    refine (ih.expr value).bind fun v => ?_
    exact (moves_define name.lexeme v).bind fun _ => .pure Outcome.normal
  | .block body =>
    refine Moves.get.bind fun m => ?_
    exact (moves_newEnv m.memory.scope .empty).bind fun scope => (ih.stmts body).inScope scope
  | .ifElse condition thenBranch none =>
    refine (ih.expr condition).bind fun c => ?_
    rw [(c.alike_relocate ρ).truthy]
    split
    · exact ih.stmt thenBranch
    · exact .pure Outcome.normal
  | .ifElse condition thenBranch (some elseBranch) =>
    refine (ih.expr condition).bind fun c => ?_
    rw [(c.alike_relocate ρ).truthy]
    split
    · exact ih.stmt thenBranch
    · exact ih.stmt elseBranch
  | .while_ condition body =>
    refine (ih.expr condition).bind fun c => ?_
    rw [(c.alike_relocate ρ).truthy]
    split
    · refine (ih.stmt body).bind fun outcome => ?_
      cases outcome with
      | normal => exact ih.stmt (.while_ condition body)
      | returned value => exact .pure (Outcome.returned value)
    · exact .pure Outcome.normal
  | .return_ _ none => exact .pure (Outcome.returned .nil)
  | .return_ _ (some value) => exact (ih.expr value).bind fun v => .pure (Outcome.returned v)
  | .funDecl decl =>
    simp only [Eval.stmt,Stmt.relocate,FunctionDecl.relocate_name,ρ.lexeme]
    refine Moves.get.bind fun m => (moves_newFunction ⟨decl,m.memory.scope,false⟩).bind fun f => ?_
    exact (moves_define decl.name.lexeme f).bind fun _ => .pure Outcome.normal
  | .classDecl name superclass methods =>
    exact (moves_declareClass hctx name superclass methods).bind fun _ => .pure Outcome.normal

theorem succ_stmts (ih : Moving ρ earlier ctx ctx' n) (ss : List Stmt) :
    Moves ρ earlier (Outcome.relocate ρ) (Eval.stmts ctx (n + 1) ss)
      (Eval.stmts ctx' (n + 1) (Stmt.relocateAll ρ ss)) := by
  cases ss with
  | nil => exact .pure Outcome.normal
  | cons s rest =>
    refine (ih.stmt s).bind fun outcome => ?_
    cases outcome with
    | normal => exact ih.stmts rest
    | returned value => exact .pure (Outcome.returned value)

theorem succ (hctx : Carries ρ ctx ctx') (ih : Moving ρ earlier ctx ctx' n) :
    Moving ρ earlier ctx ctx' (n + 1) :=
  ⟨ih.succ_expr hctx,ih.succ_exprs,ih.succ_call hctx,ih.succ_invoke,ih.succ_stmt hctx,ih.succ_stmts⟩

theorem all (hctx : Carries ρ ctx ctx') (earlier : List Bytes) : ∀ n, Moving ρ earlier ctx ctx' n
  | 0 => zero
  | n + 1 => succ hctx (all hctx earlier n)

end Moving

/-- Running a moved program on a moved machine gives the moved result. -/
theorem moves_program {ρ : Relocation} {ctx ctx' : Context} (hctx : Carries ρ ctx ctx')
    (earlier : List Bytes) (budget : Nat) (ss : List Stmt) :
    Moves ρ earlier id (Eval.program ctx budget ss)
      (Eval.program ctx' budget (Stmt.relocateAll ρ ss)) := by
  induction ss with
  | nil => exact .pure ()
  | cons s rest ih => exact ((Moving.all hctx earlier budget).stmt s).bind fun _ => ih

end Scriptlet
