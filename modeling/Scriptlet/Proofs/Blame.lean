import Scriptlet.Proofs.Visits

/-! # Where a run fails

An error is raised in the evaluation of one node of a tree and tied to a token of that node. From
there on it is handed out unchanged: the nodes around it, and the calls around them, fail with the
same error at the same token. The token is one of the source that is run, or of an earlier one whose
functions are called, since nothing else is in the values of a machine.
-/
namespace Scriptlet

/-! ## The tokens of a node -/

/-- The tokens of an expression that are in none of its operands. -/
def Expr.ownTokens : Expr → List Token
  | .literal _ | .grouping _ | .logical _ _ _ => []
  | .variable_ name | .assign name _ | .get _ name | .set _ name _ => [name]
  | .self keyword => [keyword]
  | .superMethod keyword method => [keyword,method]
  | .unary _ token _ | .binary _ token _ _ => [token]
  | .call _ paren _ => [paren]

/-- The tokens of a statement that are in none of its parts. -/
def Stmt.ownTokens : Stmt → List Token
  | .varDecl name _ => [name]
  | .return_ keyword _ => [keyword]
  | .funDecl decl => [decl.name]
  | .classDecl name superclass _ => name :: superclass.toList
  | _ => []

namespace Task

/-- The evaluation of an expression or of a statement. -/
def IsNode : Task → Prop
  | .expr _ | .stmt _ => True
  | _ => False

/-- The tokens that a task is given for its own errors. A call has those of its expression. -/
def ownTokens : Task → List Token
  | .expr e => e.ownTokens
  | .stmt s => s.ownTokens
  | .call paren _ _ | .invoke paren _ _ => [paren]
  | .exprs _ | .stmts _ => []

end Task

/-! ## Steps that name the token of their error -/

/-- If the steps fail with an error, it is tied to one of the tokens. -/
def Blames {α : Type} (tokens : List Token) (steps : Eval α) : Prop :=
  ∀ m error token, Aborts steps m (.fault error token) → token ∈ tokens

/-- Steps that abort do so in their first part, or in what follows on it. -/
theorem Aborts.of_bind {α β : Type} {x : Eval α} {f : α → Eval β} {m : Machine} {e : Abort}
    (h : Aborts (x >>= f) m e) :
    Aborts x m e ∨ ∃ a m', x m = .ok a m' ∧ Aborts (f a) m' e := by
  obtain ⟨m₁,hrun⟩ := h
  change EStateM.bind x f m = _ at hrun
  unfold EStateM.bind at hrun
  cases hx : x m with
  | ok a m' =>
    rw [hx] at hrun
    exact .inr ⟨a,m',rfl,m₁,hrun⟩
  | error e' m' =>
    rw [hx] at hrun
    cases hrun
    exact .inl ⟨_,hx⟩

namespace Blames

variable {α β : Type} {tokens more : List Token} {x : Eval α} {f : α → Eval β}

theorem pure {a : α} : Blames tokens (Pure.pure a : Eval α) := by
  rintro m error token ⟨m',hrun⟩
  cases hrun

theorem bind (hx : Blames tokens x) (hf : ∀ a, Blames tokens (f a)) : Blames tokens (x >>= f) := by
  intro m error token h
  rcases h.of_bind with h | ⟨a,m',-,h⟩
  · exact hx m error token h
  · exact hf a m' error token h

theorem mono (h : Blames tokens x) (hmore : tokens ⊆ more) : Blames more x :=
  fun m error token hrun => hmore (h m error token hrun)

theorem get : Blames tokens (MonadState.get : Eval Machine) := by
  rintro m error token ⟨m',hrun⟩
  cases hrun

theorem modifyGet {g : Machine → α × Machine} :
    Blames tokens (MonadStateOf.modifyGet g : Eval α) := by
  rintro m error token ⟨m',hrun⟩
  cases hrun

theorem fault {error : EvalError} {token : Token} (h : token ∈ tokens) :
    Blames tokens (Steps.fault error token : Eval α) := by
  rintro m error' token' ⟨m',hrun⟩
  cases hrun
  exact h

theorem orFault {token : Token} {r : Except EvalError α} (h : token ∈ tokens) :
    Blames tokens (Steps.orFault token r : Eval α) := by
  cases r with
  | ok a => exact .pure
  | error e => exact .fault h

theorem orLost {r : Option α} : Blames tokens (Steps.orLost r : Eval α) := by
  cases r with
  | some a => exact .pure
  | none =>
    rintro m error token ⟨m',hrun⟩
    cases hrun

end Blames

section Steps

variable {ctx : Context}

open Eval Steps

theorem blames_callBuiltin (vars : NameMap Bytes) (paren : Token) (b : Builtin) (args : List Value) :
    Blames [paren] (callBuiltin vars paren b args : Eval Value) := by
  unfold callBuiltin
  split
  · exact .modifyGet
  · exact .pure
  · exact .pure
  · split <;> exact .pure
  · exact .fault (by simp)
  · rintro m error token ⟨m',hrun⟩
    cases hrun

theorem blames_readAt (scope : EnvId) (distance : Nat) (name : Bytes) (token : Token) :
    Blames [token] (readAt scope distance name token) :=
  Blames.get.bind fun _ => Blames.orLost.bind fun _ => .orFault (by simp)

theorem blames_lookUp (name : Token) : Blames [name] (lookUp ctx name) := by
  refine Blames.get.bind fun m => ?_
  split
  · exact blames_readAt _ _ _ name
  · exact .orFault (by simp)

theorem blames_assign (name : Token) (value : Value) : Blames [name] (assign ctx name value) := by
  refine Blames.bind (Blames.get.bind fun m => ?_) fun _ => .modifyGet
  split
  · exact .orLost
  · split
    · exact .pure
    · exact .fault (by simp)

theorem blames_bind (method : Function) (object : Value) {tokens : List Token} :
    Blames tokens (Eval.bind method object) :=
  Blames.modifyGet.bind fun _ => .pure

theorem blames_methodFor (c : Class) (name : Token) (object : Value) :
    Blames [name] (methodFor c name object) := by
  unfold methodFor
  split
  · exact (blames_bind _ _).bind fun _ => Blames.modifyGet.bind fun _ => .pure
  · exact .fault (by simp)

theorem blames_property (object : Value) (name : Token) : Blames [name] (property object name) := by
  unfold property
  split
  · refine (Blames.get.bind fun _ => .pure).bind fun found => ?_
    split
    · exact .pure
    · exact blames_methodFor _ name _
  · exact .fault (by simp)

theorem blames_superMethod (keyword method : Token) :
    Blames [keyword,method] (superMethod ctx keyword method) := by
  refine Blames.get.bind fun m => ?_
  split
  · exact .fault (by simp)
  · refine ((blames_readAt _ _ _ keyword).mono (by simp)).bind fun parent => ?_
    refine ((blames_readAt _ _ _ keyword).mono (by simp)).bind fun object => ?_
    split
    · exact (blames_methodFor _ method _).mono (by simp)
    · exact .fault (by simp)
    · exact .fault (by simp)

theorem blames_define {tokens : List Token} (name : Bytes) (value : Value) :
    Blames tokens (define name value) :=
  Blames.get.bind fun _ => .modifyGet

theorem blames_methodScope {tokens : List Token} (scope : EnvId) (parent : Option Class) :
    Blames tokens (methodScope scope parent) := by
  cases parent with
  | none => exact .pure
  | some c => exact .modifyGet

theorem blames_superclass? (superclass : Option Token) :
    Blames superclass.toList (superclass? ctx superclass) := by
  cases superclass with
  | none => exact .pure
  | some token =>
    refine (blames_lookUp token).bind fun value => ?_
    split
    · exact .pure
    · exact .fault (by simp)

theorem blames_declareClass (name : Token) (superclass : Option Token) (methods : List FunctionDecl) :
    Blames superclass.toList (declareClass ctx name superclass methods) := by
  refine (blames_superclass? superclass).bind fun parent => ?_
  refine (blames_define _ _).bind fun _ => Blames.get.bind fun m => ?_
  exact (blames_methodScope _ parent).bind fun _ => Blames.modifyGet.bind fun _ => .modifyGet

end Steps

/-! ## The visit that an error comes from -/

/-- If the steps of a visit fail with an error, a visit that they call does so, or the error is tied
to one of the tokens. -/
def Visit.Traces {α : Type} (ctx : Context) (u : Visit) (tokens : List Token) (steps : Eval α)
    (m : Machine) : Prop :=
  ∀ error token, Aborts steps m (.fault error token) →
    (∃ v, Visit.Calls ctx u v ∧ v.Fails ctx (.fault error token)) ∨ token ∈ tokens

namespace Visit

section

variable {ctx : Context} {u v : Visit} {tokens : List Token}

namespace Traces

variable {α β : Type} {x : Eval α} {f : α → Eval β} {m : Machine}

theorem pure {a : α} : Traces ctx u tokens (Pure.pure a : Eval α) m :=
  fun error token h => .inr (Blames.pure m error token h)

theorem steps (h : Blames tokens x) : Traces ctx u tokens x m :=
  fun error token hrun => .inr (h m error token hrun)

theorem callee (h : Calls ctx u v) (hv : ∀ e, Aborts x m e → v.Fails ctx e) : Traces ctx u tokens x m :=
  fun _ _ hrun => .inl ⟨v,h,hv _ hrun⟩

theorem bind (hx : Traces ctx u tokens x m)
    (hf : ∀ a m', x m = .ok a m' → Traces ctx u tokens (f a) m') : Traces ctx u tokens (x >>= f) m := by
  intro error token h
  rcases h.of_bind with h | ⟨a,m',hrun,h⟩
  · exact hx error token h
  · exact hf a m' hrun error token h

theorem inScope {scope : EnvId} (hx : Traces ctx u tokens x { m with memory.scope := scope }) :
    Traces ctx u tokens (Eval.inScope scope x) m := by
  rintro error token ⟨m',hrun⟩
  unfold Eval.inScope at hrun
  cases hscope : x { m with memory.scope := scope } with
  | ok a m₁ =>
    rw [hscope] at hrun
    cases hrun
  | error e m₁ =>
    rw [hscope] at hrun
    cases hrun
    exact hx error token ⟨m₁,hscope⟩

end Traces

end

variable {ctx : Context} {n : Nat} {m : Machine}

theorem traces_expr (e : Expr) :
    Traces ctx ⟨n + 1,.expr e,m⟩ e.ownTokens (Eval.expr ctx (n + 1) e) m := by
  cases e with
  | literal value => exact .pure
  | variable_ name => exact .steps (blames_lookUp name)
  | self keyword => exact .steps (blames_lookUp keyword)
  | superMethod keyword method => exact .steps (blames_superMethod keyword method)
  | grouping inner => exact .callee .grouping fun _ h => h
  | unary op token operand =>
    refine Traces.bind (.callee .operand fun _ h => h) fun value m' hvalue => ?_
    exact Traces.bind (.steps (.orFault (by simp [Expr.ownTokens]))) fun _ _ _ => .pure
  | binary op token left right =>
    refine Traces.bind (.callee .binaryLeft fun _ h => h) fun l m₁ hleft => ?_
    refine Traces.bind (.callee (.binaryRight hleft) fun _ h => h) fun r m₂ hright => ?_
    exact Traces.bind (.steps (.orFault (by simp [Expr.ownTokens]))) fun _ _ _ => .pure
  | logical op left right =>
    refine Traces.bind (.callee .logicalLeft fun _ h => h) fun l m₁ hleft => ?_
    split
    · exact .pure
    · next htruthy => exact .callee (.logicalRight hleft htruthy) fun _ h => h
  | assign name value =>
    refine Traces.bind (.callee .assigned fun _ h => h) fun x m₁ hvalue => ?_
    exact Traces.bind (.steps (blames_assign name x)) fun _ _ _ => .pure
  | get object name =>
    refine Traces.bind (.callee .getObject fun _ h => h) fun x m₁ hobject => ?_
    exact .steps (blames_property x name)
  | set object name value =>
    refine Traces.bind (.callee .setValue fun _ h => h) fun x m₁ hvalue => ?_
    refine Traces.bind (.callee (.setObject hvalue) fun _ h => h) fun o m₂ hobject => ?_
    split
    · exact Traces.bind (.steps .modifyGet) fun _ _ _ => .pure
    · exact .steps (.fault (by simp [Expr.ownTokens]))
  | call callee paren arguments =>
    refine Traces.bind (.callee .callee fun _ h => h) fun f m₁ hcallee => ?_
    refine Traces.bind (.callee (.arguments hcallee) fun _ h => h) fun args m₂ harguments => ?_
    exact .callee (.application hcallee harguments) fun _ h => h

theorem traces_exprs (es : List Expr) :
    Traces ctx ⟨n + 1,.exprs es,m⟩ [] (Eval.exprs ctx (n + 1) es) m := by
  cases es with
  | nil => exact .pure
  | cons e rest =>
    refine Traces.bind (.callee .firstExpr fun _ h => h) fun v m₁ hfirst => ?_
    exact Traces.bind (.callee (.restExprs hfirst) fun _ h => h) fun _ _ _ => .pure

theorem traces_call (paren : Token) (callee : Value) (args : List Value) :
    Traces ctx ⟨n + 1,.call paren callee args,m⟩ [paren] (Eval.call ctx (n + 1) paren callee args)
      m := by
  unfold Eval.call
  cases harity : callee.arity? with
  | none => exact .steps (.fault (by simp))
  | some arity =>
    dsimp only
    split
    · exact .steps (.fault (by simp))
    · next hlength =>
      obtain rfl : args.length = arity := Decidable.not_not.1 hlength
      cases callee with
      | builtin b => exact .steps (blames_callBuiltin ctx.processVars paren b args)
      | function id f =>
        have hargs : args.length = f.arity := (Option.some.inj harity).symm
        exact .callee (.function hargs) fun _ h => h
      | class_ c =>
        refine Traces.bind (.steps .modifyGet) fun object m₁ hobject => ?_
        cases hmethod : c.findMethod? initializerName with
        | none => exact .pure
        | some method =>
          have hargs : args.length = method.arity := by simpa [Value.arity?,hmethod] using harity.symm
          refine Traces.bind (.steps (blames_bind _ _)) fun f m₂ hbind => ?_
          exact Traces.bind (.callee (.initializer hmethod hargs hobject hbind) fun _ h => h)
            fun _ _ _ => .pure
      | _ => cases harity

theorem traces_invoke (paren : Token) (f : Function) (args : List Value) :
    Traces ctx ⟨n + 1,.invoke paren f args,m⟩ [paren] (Eval.invoke ctx (n + 1) paren f args) m := by
  rw [Eval.invoke]
  cases hparams : Eval.bindParameters f.decl.params args .empty with
  | none => exact Traces.bind (.steps .orLost) fun _ _ h => by cases h
  | some bindings =>
    refine Traces.bind .pure fun _ m₁ hbindings => ?_
    cases hbindings
    refine Traces.bind (.steps .modifyGet) fun scope m₂ henv => ?_
    refine Traces.bind (.inScope (.callee (.body hparams henv) fun _ h => h)) fun outcome m₃ _ => ?_
    split
    · exact .steps (blames_readAt _ _ _ paren)
    · exact .pure

theorem traces_stmt (s : Stmt) :
    Traces ctx ⟨n + 1,.stmt s,m⟩ s.ownTokens (Eval.stmt ctx (n + 1) s) m := by
  cases s with
  | expression value =>
    exact Traces.bind (.callee .expression fun _ h => h) fun _ _ _ => .pure
  | print value =>
    refine Traces.bind (.callee .print fun _ h => h) fun v m₁ _ => ?_
    exact Traces.bind (.steps .modifyGet) fun _ _ _ => .pure
  | varDecl name initial =>
    cases initial with
    | none => exact Traces.bind (.steps (blames_define _ _)) fun _ _ _ => .pure
    | some value =>
      refine Traces.bind (.callee .initial fun _ h => h) fun v m₁ _ => ?_
      exact Traces.bind (.steps (blames_define _ _)) fun _ _ _ => .pure
  | block body =>
    refine Traces.bind (.steps .get) fun m₁ m₂ hget => ?_
    cases hget
    refine Traces.bind (.steps .modifyGet) fun scope m₁ henv => ?_
    exact .inScope (.callee (.block henv) fun _ h => h)
  | ifElse condition thenBranch elseBranch =>
    refine Traces.bind (.callee .ifCondition fun _ h => h) fun c m₁ hcondition => ?_
    cases htruthy : c.truthy with
    | true => exact .callee (.thenBranch hcondition htruthy) fun _ h => h
    | false =>
      cases elseBranch with
      | none => exact .pure
      | some branch => exact .callee (.elseBranch hcondition htruthy) fun _ h => h
  | while_ condition body =>
    refine Traces.bind (.callee .whileCondition fun _ h => h) fun c m₁ hcondition => ?_
    cases htruthy : c.truthy with
    | false => exact .pure
    | true =>
      refine Traces.bind (.callee (.whileBody hcondition htruthy) fun _ h => h) fun outcome m₂ hbody => ?_
      cases outcome with
      | normal => exact .callee (.whileAgain hcondition htruthy hbody) fun _ h => h
      | returned value => exact .pure
  | return_ keyword value =>
    cases value with
    | none => exact .pure
    | some value => exact Traces.bind (.callee .returned fun _ h => h) fun _ _ _ => .pure
  | funDecl decl =>
    refine Traces.bind (.steps .get) fun m₁ m₂ _ => ?_
    refine Traces.bind (.steps (Blames.modifyGet.bind fun _ => .pure)) fun f m₃ _ => ?_
    exact Traces.bind (.steps (blames_define _ _)) fun _ _ _ => .pure
  | classDecl name superclass methods =>
    have hclass : Blames (name :: superclass.toList) (Eval.declareClass ctx name superclass methods) :=
      (blames_declareClass name superclass methods).mono (List.subset_cons_self name _)
    exact Traces.bind (.steps hclass) fun _ _ _ => .pure

theorem traces_stmts (ss : List Stmt) :
    Traces ctx ⟨n + 1,.stmts ss,m⟩ [] (Eval.stmts ctx (n + 1) ss) m := by
  cases ss with
  | nil => exact .pure
  | cons s rest =>
    refine Traces.bind (.callee .firstStmt fun _ h => h) fun outcome m₁ hfirst => ?_
    cases outcome with
    | normal => exact .callee (.restStmts hfirst) fun _ h => h
    | returned value => exact .pure

/-! ## The innermost node that fails -/

variable {u v w : Visit} {e e' : Abort} {error : EvalError} {token : Token}

/-- The second visit is made by a visit that the first one calls. -/
def Encloses (ctx : Context) (u w : Visit) : Prop := ∃ v, Calls ctx u v ∧ Reaches ctx v w

theorem Calls.budget (h : Calls ctx u v) : v.budget < u.budget := by
  cases h <;> exact Nat.lt_succ_self _

theorem Reaches.head (h : Calls ctx u v) (hw : Reaches ctx v w) : Reaches ctx u w := by
  induction hw with
  | self => exact .call .self h
  | call _ hcall ih => exact .call ih hcall

theorem Reaches.budget (h : Reaches ctx u v) : v.budget ≤ u.budget := by
  induction h with
  | self => exact Nat.le_refl _
  | call _ hcall ih => exact Nat.le_trans (Nat.le_of_lt hcall.budget) ih

theorem Reaches.trans (h : Reaches ctx u v) (hw : Reaches ctx v w) : Reaches ctx u w := by
  induction hw with
  | self => exact h
  | call _ hcall ih => exact .call ih hcall

theorem Encloses.budget (h : Encloses ctx u w) : w.budget < u.budget := by
  obtain ⟨v,hcall,hreach⟩ := h
  exact Nat.lt_of_le_of_lt hreach.budget hcall.budget

theorem Encloses.reaches (h : Encloses ctx u w) : Reaches ctx u w := by
  obtain ⟨v,hcall,hreach⟩ := h
  exact hreach.head hcall

theorem Fails.unique (h : v.Fails ctx e) (h' : v.Fails ctx e') : e = e' := by
  obtain ⟨n,task,m⟩ := v
  cases task <;> obtain ⟨m₁,h⟩ := h <;> obtain ⟨m₂,h'⟩ := h' <;> cases h.symm.trans h' <;> rfl

/-- A visit that fails with an error calls one that does, or the error is tied to a token of its
own. -/
theorem Fails.traced (h : v.Fails ctx (.fault error token)) :
    (∃ u, Calls ctx v u ∧ u.Fails ctx (.fault error token)) ∨ token ∈ v.task.ownTokens := by
  obtain ⟨_ | n,task,m⟩ := v
  · cases task <;> obtain ⟨m',hrun⟩ := h <;> cases hrun
  · cases task with
    | expr e => exact traces_expr e error token h
    | exprs es => exact traces_exprs es error token h
    | call paren callee args => exact traces_call paren callee args error token h
    | invoke paren f args => exact traces_invoke paren f args error token h
    | stmt s => exact traces_stmt s error token h
    | stmts ss => exact traces_stmts ss error token h

/-- What is no node by itself belongs to the node that calls it. -/
theorem Calls.ownTokens_subset (h : Calls ctx u v) (hv : ¬v.task.IsNode) :
    v.task.ownTokens ⊆ u.task.ownTokens := by
  cases h with
  | application | function | initializer => exact List.Subset.refl _
  | arguments | restExprs | body | block | restStmts => exact List.nil_subset _
  | _ => exact absurd trivial hv

/-- If no node inside of a visit fails, its error is tied to a token of its own. -/
theorem Fails.mem_ownTokens (h : v.Fails ctx (.fault error token))
    (hinside : ∀ u, Encloses ctx v u → u.task.IsNode → ∀ e, ¬u.Fails ctx e) :
    token ∈ v.task.ownTokens := by
  induction hn : v.budget using Nat.strongRecOn generalizing v with
  | ind n ih =>
    subst hn
    rcases h.traced with ⟨u,hcall,hu⟩ | hown
    · -- The visit that fails is no node, so its error is one of the node it belongs to.
      have hnode : ¬u.task.IsNode := fun hnode => hinside u ⟨u,hcall,.self⟩ hnode _ hu
      refine hcall.ownTokens_subset hnode (ih u.budget hcall.budget hu ?_ rfl)
      exact fun w hw => hinside w ⟨u,hcall,hw.reaches⟩
    · exact hown

/-- Where a visit gets its error from. A node that it reaches fails with the error, at a token of its
own, and no node inside of that one fails. All that lies in between fails with the error as it is. -/
structure FailsAt (ctx : Context) (v w : Visit) (error : EvalError) (token : Token) : Prop where
  reaches : Reaches ctx v w
  node : w.task.IsNode
  own : token ∈ w.task.ownTokens
  innermost : ∀ u, Encloses ctx w u → u.task.IsNode → ∀ e, ¬u.Fails ctx e
  unchanged : ∀ u, Reaches ctx v u → Reaches ctx u w → u.Fails ctx (.fault error token)

theorem Fails.exists_failsAt (h : v.Fails ctx (.fault error token)) (hv : v.task.IsNode) :
    ∃ w, FailsAt ctx v w error token := by
  induction hn : v.budget using Nat.strongRecOn generalizing v with
  | ind n ih =>
    subst hn
    by_cases hinside : ∃ u e, Encloses ctx v u ∧ u.task.IsNode ∧ u.Fails ctx e
    · obtain ⟨u,e,hu,hnode,hfails⟩ := hinside
      obtain rfl : e = .fault error token := (hu.reaches.fails hfails).unique h
      obtain ⟨w,hat⟩ := ih u.budget hu.budget hfails hnode rfl
      have hw : w.Fails ctx (.fault error token) := hat.unchanged w hat.reaches .self
      exact ⟨w,{ hat with
        reaches := hu.reaches.trans hat.reaches
        unchanged := fun _ _ hreach => hreach.fails hw }⟩
    · have hinnermost : ∀ u, Encloses ctx v u → u.task.IsNode → ∀ e, ¬u.Fails ctx e :=
        fun u hu hnode e hfails => hinside ⟨u,e,hu,hnode,hfails⟩
      exact ⟨v,.self,hv,h.mem_ownTokens hinnermost,hinnermost,fun _ _ hreach => hreach.fails h⟩

end Visit

end Scriptlet
