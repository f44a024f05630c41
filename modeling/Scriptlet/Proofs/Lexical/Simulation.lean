import Scriptlet.Proofs.Lexical.Names

/-! # Distances implement lexical scope

Evaluation with the distances of a resolved tree simulates evaluation with maps of names: from
linked states both give the same results, fail in the same way and end in linked states. The proof
is by induction on the budget. Expressions leave the names of the current environment as they are,
statements add the name that they declare.
-/
namespace Scriptlet.Lexical

open Steps

/-- How a statement ends on both machines. -/
inductive SameOutcome (p : Places) (w : World) : Outcome → Outcome Names → Prop
  | normal : SameOutcome p w .normal .normal
  | returned {v : Value} {v' : Value Names} :
      SameValue p w v v' → SameOutcome p w (.returned v) (.returned v')

theorem SameOutcome.result {p : Places} {w : World} {o : Outcome} {o' : Outcome Names}
    (h : SameOutcome p w o o') : SameValue p w o.result o'.result := by
  cases h with
  | normal => exact .scalar .nil
  | returned hv => exact hv

/-- Errors of operators are ordinary. -/
theorem ordinary_numeric {op : NumericOp} {operands : Operands} {e : EvalError} (token : Token)
    (h : op.apply operands = .error e) : Ordinary (.fault e token) := by
  cases operands <;> cases op <;>
    simp only [NumericOp.apply,NumericOp.onInts,NumericOp.onFloats,reduceCtorEq] at h
  all_goals
    split at h <;> cases h
    trivial

theorem ordinary_binary {op : BinaryOp} {l r : Value} {e : EvalError} (token : Token)
    (h : op.apply l r = .error e) : Ordinary (.fault e token) := by
  unfold BinaryOp.apply at h
  split at h
  · cases h
  · cases h
  · split at h
    · cases h
    · cases h
    · split at h
      · exact ordinary_numeric token h
      · cases h
        trivial
  · split at h
    · exact ordinary_numeric token h
    · cases h
      trivial

theorem ordinary_unary {op : UnaryOp} {v : Value} {e : EvalError} (token : Token)
    (h : op.apply v = .error e) : Ordinary (.fault e token) := by
  unfold UnaryOp.apply at h
  split at h <;> cases h
  trivial

/-- Each function of the two evaluators simulates its counterpart with a budget of `n`. -/
structure Matching (p : Places) (vars : NameMap Bytes) (n : Nat) : Prop where
  expr : ∀ (e : Expr) {w here scopes names m l}, Linked p w here m l → w.Fits here scopes names →
    e.Scoped p.table scopes →
    Simulates p w none here (SameValue p) (Scriptlet.Eval.expr ⟨p.table,vars⟩ n e m)
      (Eval.expr vars n names e l)
  exprs : ∀ (es : List Expr) {w here scopes names m l}, Linked p w here m l →
    w.Fits here scopes names → Expr.AllScoped p.table scopes es →
    Simulates p w none here (fun w' => List.Forall₂ (SameValue p w'))
      (Scriptlet.Eval.exprs ⟨p.table,vars⟩ n es m) (Eval.exprs vars n names es l)
  call : ∀ (paren : Token) {w here m l v v' args args'}, Linked p w here m l →
    SameValue p w v v' → List.Forall₂ (SameValue p w) args args' →
    Simulates p w none here (SameValue p) (Scriptlet.Eval.call ⟨p.table,vars⟩ n paren v args m)
      (Eval.call vars n paren v' args' l)
  invoke : ∀ (paren : Token) {w here m l f g args args'}, Linked p w here m l →
    SameCallable p w f g → List.Forall₂ (SameValue p w) args args' → args.length = f.arity →
    Simulates p w none here (SameValue p) (Scriptlet.Eval.invoke ⟨p.table,vars⟩ n paren f args m)
      (Eval.invoke vars n paren g args' l)
  stmt : ∀ (s : Stmt) {w here scope scopes m l}, Linked p w here m l →
    Current w here scope scopes → scopes.Settled → s.Scoped p.table scopes →
    (∀ x ∈ s.refs, x.index < p.limit) →
    Simulates p w (some here) here
      (fun w' o r => SameOutcome p w' o r.1 ∧ Current w' here r.2 (scopes.after s))
      (Scriptlet.Eval.stmt ⟨p.table,vars⟩ n s m) (Eval.stmt vars n scope s l)
  stmts : ∀ (ss : List Stmt) {w here scope scopes m l}, Linked p w here m l →
    Current w here scope scopes → scopes.Settled → Stmt.AllScoped p.table scopes ss →
    (∀ x ∈ Stmt.allRefs ss, x.index < p.limit) →
    Simulates p w (some here) here (SameOutcome p)
      (Scriptlet.Eval.stmts ⟨p.table,vars⟩ n ss m) (Eval.stmts vars n scope ss l)

namespace Matching

variable {p : Places} {vars : NameMap Bytes} {n : Nat} {w : World} {here : EnvId} {scope : Scope}
  {scopes : Scopes} {names : Names} {m : Scriptlet.Machine} {l : Machine}

theorem zero : Matching p vars 0 where
  expr _ _ _ _ _ _ _ h _ _ := .throw h trivial
  exprs _ _ _ _ _ _ _ h _ _ := .throw h trivial
  call _ _ _ _ _ _ _ _ _ h _ _ := .throw h trivial
  invoke _ _ _ _ _ _ _ _ _ h _ _ _ := .throw h trivial
  stmt _ _ _ _ _ _ _ h _ _ _ _ := .throw h trivial
  stmts _ _ _ _ _ _ _ h _ _ _ _ := .throw h trivial

theorem succ_expr (ih : Matching p vars n) (e : Expr) (h : Linked p w here m l)
    (hfits : w.Fits here scopes names) (hscoped : e.Scoped p.table scopes) :
    Simulates p w none here (SameValue p) (Scriptlet.Eval.expr ⟨p.table,vars⟩ (n + 1) e m)
      (Eval.expr vars (n + 1) names e l) := by
  cases e with
  | literal value => exact .pure h (.scalar value)
  | variable_ name => exact simulates_lookUp h hfits hscoped.1.2 hscoped.2
  | self keyword =>
    obtain ⟨hlexeme,hread⟩ := hscoped
    have hstep : Simulates p w none here (SameValue p)
        (Scriptlet.Eval.lookUp ⟨p.table,vars⟩ keyword m)
        (Eval.lookUp names keyword.lexeme keyword l) :=
      simulates_lookUp h hfits (by rw [hlexeme]; decide) hread
    rw [hlexeme] at hstep
    exact hstep
  | superMethod keyword method => exact simulates_superMethod h hfits method hscoped
  | grouping inner => exact ih.expr inner h hfits hscoped
  | unary op token operand =>
    refine Simulates.bind (ih.expr operand h hfits hscoped) ?_
    rintro w' v v' m' l' hgrow hlinked hv
    rw [hv.alike.unary op]
    refine Simulates.bind (simulates_orFault hlinked fun e => ordinary_unary token) ?_
    rintro w₂ a b m₂ l₂ hgrow₂ hlinked₂ rfl
    exact .pure hlinked₂ (.scalar b)
  | binary op token left right =>
    refine Simulates.bind (ih.expr left h hfits hscoped.1) ?_
    rintro w₁ v v' m₁ l₁ hgrow₁ hlinked₁ hv
    refine Simulates.bind (ih.expr right hlinked₁ (hfits.grow hgrow₁) hscoped.2) ?_
    rintro w₂ u u' m₂ l₂ hgrow₂ hlinked₂ hu
    rw [(hv.grow hgrow₂).alike.binary op hu.alike]
    refine Simulates.bind (simulates_orFault hlinked₂ fun e => ordinary_binary token) ?_
    rintro w₃ a b m₃ l₃ hgrow₃ hlinked₃ rfl
    exact .pure hlinked₃ (.scalar b)
  | logical op left right =>
    refine Simulates.bind (ih.expr left h hfits hscoped.1) ?_
    rintro w₁ v v' m₁ l₁ hgrow₁ hlinked₁ hv
    rw [hv.alike.truthy]
    split
    · exact .pure hlinked₁ hv
    · exact ih.expr right hlinked₁ (hfits.grow hgrow₁) hscoped.2
  | assign name value =>
    obtain ⟨hvalue,hplain,hlocated⟩ := hscoped
    refine Simulates.bind (ih.expr value h hfits hvalue) ?_
    rintro w₁ v v' m₁ l₁ hgrow₁ hlinked₁ hv
    refine Simulates.bind (simulates_assign hlinked₁ (hfits.grow hgrow₁) hplain hlocated hv) ?_
    rintro w₂ _ _ m₂ l₂ hgrow₂ hlinked₂ -
    exact .pure hlinked₂ (hv.grow hgrow₂)
  | get object name =>
    refine Simulates.bind (ih.expr object h hfits hscoped) ?_
    rintro w₁ v v' m₁ l₁ hgrow₁ hlinked₁ hv
    exact simulates_property hlinked₁ hv name
  | set object name value =>
    refine Simulates.bind (ih.expr value h hfits hscoped.1) ?_
    rintro w₁ v v' m₁ l₁ hgrow₁ hlinked₁ hv
    refine Simulates.bind (ih.expr object hlinked₁ (hfits.grow hgrow₁) hscoped.2) ?_
    rintro w₂ o o' m₂ l₂ hgrow₂ hlinked₂ ho
    cases ho with
    | object id hc =>
      refine Simulates.bind (simulates_setField hlinked₂ id name.lexeme (hv.grow hgrow₂)) ?_
      rintro w₃ _ _ m₃ l₃ hgrow₃ hlinked₃ -
      exact .pure hlinked₃ ((hv.grow hgrow₂).grow hgrow₃)
    | _ => exact .throw hlinked₂ trivial
  | call callee paren arguments =>
    refine Simulates.bind (ih.expr callee h hfits hscoped.1) ?_
    rintro w₁ v v' m₁ l₁ hgrow₁ hlinked₁ hv
    refine Simulates.bind (ih.exprs arguments hlinked₁ (hfits.grow hgrow₁) hscoped.2) ?_
    rintro w₂ args args' m₂ l₂ hgrow₂ hlinked₂ hargs
    exact ih.call paren hlinked₂ (hv.grow hgrow₂) hargs

theorem succ_exprs (ih : Matching p vars n) (es : List Expr) (h : Linked p w here m l)
    (hfits : w.Fits here scopes names) (hscoped : Expr.AllScoped p.table scopes es) :
    Simulates p w none here (fun w' => List.Forall₂ (SameValue p w'))
      (Scriptlet.Eval.exprs ⟨p.table,vars⟩ (n + 1) es m) (Eval.exprs vars (n + 1) names es l) := by
  cases es with
  | nil => exact .pure h .nil
  | cons e rest =>
    refine Simulates.bind (ih.expr e h hfits hscoped.1) ?_
    rintro w₁ v v' m₁ l₁ hgrow₁ hlinked₁ hv
    refine Simulates.bind (ih.exprs rest hlinked₁ (hfits.grow hgrow₁) hscoped.2) ?_
    rintro w₂ vs vs' m₂ l₂ hgrow₂ hlinked₂ hvs
    exact .pure hlinked₂ (.cons (hv.grow hgrow₂) hvs)

theorem succ_call (ih : Matching p vars n) (paren : Token) {v : Value} {v' : Value Names}
    {args : List Value} {args' : List (Value Names)} (h : Linked p w here m l)
    (hv : SameValue p w v v') (hargs : List.Forall₂ (SameValue p w) args args') :
    Simulates p w none here (SameValue p)
      (Scriptlet.Eval.call ⟨p.table,vars⟩ (n + 1) paren v args m)
      (Eval.call vars (n + 1) paren v' args' l) := by
  have harity := hv.arity?
  have hcount := hargs.length_eq
  simp only [Scriptlet.Eval.call,Eval.call,harity,← hcount]
  cases hsome : v.arity? with
  | none => exact .throw h trivial
  | some arity =>
    by_cases hlength : args.length = arity
    · simp only [hlength,ne_eq,not_true_eq_false,if_false]
      cases hv with
      | scalar s => exact .throw h trivial
      | uninitialized => exact .throw h trivial
      | object id hc => exact .throw h trivial
      | builtin b =>
        obtain rfl : b.arity = arity := by simpa [Value.arity?] using hsome
        exact simulates_callBuiltin h vars paren b hargs hlength
      | function id hf =>
        obtain rfl : _ = arity := by simpa [Value.arity?] using hsome
        exact ih.invoke paren h hf hargs hlength
      | @class_ c c' hc =>
        have hmethod := hc.findMethod? initializerName
        simp only [Value.arity?] at hsome
        refine Simulates.bind (simulates_newObject h hc) ?_
        rintro w₁ o o' m₁ l₁ hgrow₁ hlinked₁ ⟨ho,id,rfl⟩
        generalize c.findMethod? initializerName = f, c'.findMethod? initializerName = g
          at hmethod hsome ⊢
        cases hmethod with
        | none => exact .pure hlinked₁ ho
        | @some f g hmethod =>
          obtain rfl : f.arity = arity := by simpa using hsome
          refine Simulates.bind (simulates_bind hlinked₁ (hmethod.grow hgrow₁) ho ⟨c,id,rfl⟩) ?_
          rintro w₂ f' g' m₂ l₂ hgrow₂ hlinked₂ ⟨hsame,hdecl⟩
          have hargs₂ := hargs.imp fun _ _ hv => (hv.grow hgrow₁).grow hgrow₂
          refine Simulates.bind (ih.invoke paren hlinked₂ hsame hargs₂ ?_) ?_
          · rw [hlength,Function.arity,Function.arity,hdecl]
          rintro w₃ _ _ m₃ l₃ hgrow₃ hlinked₃ -
          exact .pure hlinked₃ ((ho.grow hgrow₂).grow hgrow₃)
    · simp only [hlength,ne_eq,not_false_eq_true,if_true]
      exact .throw h trivial

theorem succ_invoke (ih : Matching p vars n) (paren : Token) {f : Function} {g : Function Names}
    {args : List Value} {args' : List (Value Names)} (h : Linked p w here m l)
    (hf : SameCallable p w f g) (hargs : List.Forall₂ (SameValue p w) args args')
    (hlength : args.length = f.arity) :
    Simulates p w none here (SameValue p)
      (Scriptlet.Eval.invoke ⟨p.table,vars⟩ (n + 1) paren f args m)
      (Eval.invoke vars (n + 1) paren g args' l) := by
  obtain ⟨scopes,hsame,hthis⟩ := hf
  obtain ⟨hparams,hbody⟩ := FunctionDecl.scoped_iff.1 hsame.covers.wellScoped
  obtain ⟨hgrow,hlinked⟩ := h.push f.closure
  rw [h.store] at hlinked
  obtain ⟨bindings,w',names,l',hmachine,hlexical,hgrow',hlinked',hcurrent'⟩ :=
    exists_bindParameters rfl hlinked (.inner h hsame.closure) hparams
      (hargs.imp fun _ _ hv => hv.grow hgrow)
      hlength
  simp only [Scriptlet.Eval.invoke,Eval.invoke,hmachine,hsame.decl,hsame.isInitializer]
  have hbelow := hsame.covers.below
  rw [FunctionDecl.refs_eq] at hbelow
  refine Simulates.bind_right hlexical ?_
  show Simulates p w none here _ ((Scriptlet.Eval.inScope m.memory.store.size
    (Scriptlet.Eval.stmts ⟨p.table,vars⟩ n f.decl.body) >>= _)
      { m with memory.store := m.memory.store.push ⟨some f.closure,bindings⟩ }) _
  rw [h.store]
  refine Simulates.bind (Simulates.inScope (hgrow.fresh (Nat.le_refl _) hgrow') (Nat.le_refl _)
    h.current (ih.stmts f.decl.body (hlinked'.enter _) hcurrent'
      (hsame.covers.settled.inner.bindAll f.decl.params) hbody hbelow)) ?_
  rintro w₁ o o' m₁ l₁ hgrow₁ hlinked₁ houtcome
  cases hinit : f.isInitializer with
  | false => exact .pure hlinked₁ houtcome.result
  | true =>
    exact (simulates_readAt hlinked₁ (hsame.closure.grow hgrow₁) (hthis hinit) paren).mono
      fun _ _ _ _ hq => hq.1

theorem succ_stmt (ih : Matching p vars n) (s : Stmt) (h : Linked p w here m l)
    (hcurrent : Current w here scope scopes) (hsettled : scopes.Settled) (hscoped : s.Scoped p.table scopes)
    (hbelow : ∀ x ∈ s.refs, x.index < p.limit) :
    Simulates p w (some here) here
      (fun w' o r => SameOutcome p w' o r.1 ∧ Current w' here r.2 (scopes.after s))
      (Scriptlet.Eval.stmt ⟨p.table,vars⟩ (n + 1) s m) (Eval.stmt vars (n + 1) scope s l) := by
  match s with
  | .expression value =>
    refine Simulates.andThen (ih.expr value h hcurrent.fits hscoped) ?_
    rintro w₁ v v' m₁ l₁ hgrow₁ hlinked₁ -
    exact .pure hlinked₁ ⟨.normal,hcurrent.grow hgrow₁⟩
  | .print value =>
    refine Simulates.andThen (ih.expr value h hcurrent.fits hscoped) ?_
    rintro w₁ v v' m₁ l₁ hgrow₁ hlinked₁ hv
    rw [hv.alike.text]
    refine Simulates.andThen (simulates_print hlinked₁ _) ?_
    rintro w₂ _ _ m₂ l₂ hgrow₂ hlinked₂ -
    exact .pure hlinked₂ ⟨.normal,hcurrent.grow (hgrow₁.trans hgrow₂)⟩
  | .varDecl name none =>
    obtain ⟨hplain,hopen⟩ := hscoped
    obtain ⟨w₁,scope',slot,l₁,hdeclare,hgrow₁,hlinked₁,hcurrent₁,hslot⟩ :=
      exists_declare h hcurrent hopen
    refine (Simulates.bind_right hdeclare ?_).grow hgrow₁
    refine Simulates.andThen (simulates_define hlinked₁ hcurrent₁ hslot hplain
      fun _ _ _ => .uninitialized) ?_
    rintro w₂ _ _ m₂ l₂ hgrow₂ hlinked₂ ⟨hcurrent₂,-⟩
    exact .pure hlinked₂ ⟨.normal,hcurrent₂⟩
  | .varDecl name (some value) =>
    obtain ⟨⟨hplain,hopen⟩,hvalue⟩ := hscoped
    obtain ⟨w₁,scope',slot,l₁,hdeclare,hgrow₁,hlinked₁,hcurrent₁,hslot⟩ :=
      exists_declare h hcurrent hopen
    refine (Simulates.bind_right hdeclare ?_).grow hgrow₁
    refine Simulates.andThen (ih.expr value hlinked₁ hcurrent₁.fits hvalue) ?_
    rintro w₂ v v' m₂ l₂ hgrow₂ hlinked₂ hv
    refine Simulates.andThen (simulates_define hlinked₂ (hcurrent₁.grow hgrow₂)
      (hslot.grow hgrow₂) hplain fun _ hgrow _ => hv.grow hgrow) ?_
    rintro w₃ _ _ m₃ l₃ hgrow₃ hlinked₃ ⟨hcurrent₃,-⟩
    exact .pure hlinked₃ ⟨.normal,hcurrent₃⟩
  | .block body =>
    obtain ⟨hgrow,hlinked⟩ := h.push here
    rw [h.store] at hlinked
    show Simulates p w (some here) here _ (Scriptlet.Eval.inScope m.memory.store.size
      (Scriptlet.Eval.stmts ⟨p.table,vars⟩ n body)
        { m with memory.store := m.memory.store.push ⟨some m.memory.scope,.empty⟩ }) _
    rw [h.store,h.current]
    have hbody := Simulates.inScope hgrow (Nat.le_refl _) hlinked.current
      (ih.stmts body (hlinked.enter _) (.inner h hcurrent.fits) hsettled.inner hscoped hbelow)
    have hblock := hbody.mono fun w' o o' hgrow' ho => And.intro ho (hcurrent.grow hgrow')
    exact (hblock.map_right fun _ _ _ hq => hq).weaken
  | .ifElse condition thenBranch none =>
    obtain ⟨hcondition,hnone,hthen⟩ := hscoped
    simp only [Stmt.refs,List.mem_append] at hbelow
    refine Simulates.andThen (ih.expr condition h hcurrent.fits hcondition) ?_
    rintro w₁ v v' m₁ l₁ hgrow₁ hlinked₁ hv
    rw [hv.alike.truthy]
    have hcurrent₁ := hcurrent.grow hgrow₁
    cases v.truthy with
    | false => exact .pure hlinked₁ ⟨.normal,hcurrent₁⟩
    | true =>
      have hbranch := ih.stmt thenBranch hlinked₁ hcurrent₁ hsettled hthen
        fun x hx => hbelow x (.inr hx)
      rw [Scopes.after,hnone] at hbranch
      exact hbranch
  | .ifElse condition thenBranch (some elseBranch) =>
    obtain ⟨hcondition,⟨hnone,hthen⟩,hnone',helse⟩ := hscoped
    simp only [Stmt.refs,List.mem_append] at hbelow
    refine Simulates.andThen (ih.expr condition h hcurrent.fits hcondition) ?_
    rintro w₁ v v' m₁ l₁ hgrow₁ hlinked₁ hv
    rw [hv.alike.truthy]
    have hcurrent₁ := hcurrent.grow hgrow₁
    cases v.truthy with
    | false =>
      have hbranch := ih.stmt elseBranch hlinked₁ hcurrent₁ hsettled helse
        fun x hx => hbelow x (.inr (.inr hx))
      rw [Scopes.after,hnone'] at hbranch
      exact hbranch
    | true =>
      have hbranch := ih.stmt thenBranch hlinked₁ hcurrent₁ hsettled hthen
        fun x hx => hbelow x (.inr (.inl hx))
      rw [Scopes.after,hnone] at hbranch
      exact hbranch
  | .while_ condition body =>
    have hwhole := hscoped
    have hrefs := hbelow
    obtain ⟨hcondition,hnone,hbody⟩ := hscoped
    simp only [Stmt.refs,List.mem_append] at hbelow
    refine Simulates.andThen (ih.expr condition h hcurrent.fits hcondition) ?_
    rintro w₁ v v' m₁ l₁ hgrow₁ hlinked₁ hv
    rw [hv.alike.truthy]
    have hcurrent₁ := hcurrent.grow hgrow₁
    cases v.truthy with
    | false => exact .pure hlinked₁ ⟨.normal,hcurrent₁⟩
    | true =>
      refine Simulates.bind (ih.stmt body hlinked₁ hcurrent₁ hsettled hbody
        fun x hx => hbelow x (.inr hx)) ?_
      rintro w₂ o ⟨o',scope'⟩ m₂ l₂ hgrow₂ hlinked₂ ⟨houtcome,hcurrent₂⟩
      rw [Scopes.after,hnone] at hcurrent₂
      have hagain := hcurrent₁.renew hgrow₂ hcurrent₂
      cases houtcome with
      | normal => exact ih.stmt (.while_ condition body) hlinked₂ hagain hsettled hwhole hrefs
      | returned hv => exact .pure hlinked₂ ⟨.returned hv,hagain⟩
  | .return_ _ none => exact .pure h ⟨.returned (.scalar .nil),hcurrent⟩
  | .return_ _ (some value) =>
    refine Simulates.andThen (ih.expr value h hcurrent.fits hscoped) ?_
    rintro w₁ v v' m₁ l₁ hgrow₁ hlinked₁ hv
    exact .pure hlinked₁ ⟨.returned hv,hcurrent.grow hgrow₁⟩
  | .funDecl decl =>
    obtain ⟨⟨hplain,hopen⟩,hdecl⟩ := hscoped
    obtain ⟨w₁,scope',slot,l₁,hdeclare,hgrow₁,hlinked₁,hcurrent₁,hslot⟩ :=
      exists_declare h hcurrent hopen
    refine (Simulates.bind_right hdeclare ?_).grow hgrow₁
    refine Simulates.bind_get ?_
    rw [h.current]
    refine Simulates.andThen (simulates_newFunction hlinked₁ _ _) ?_
    rintro w₂ _ _ m₂ l₂ hgrow₂ hlinked₂ ⟨i,rfl,rfl⟩
    have hsame : ∀ w', w₂.Grows none w' → Current w' here scope' (scopes.bind decl.name.lexeme true) →
        SameValue p w' (.function i ⟨decl,here,false⟩) (.function i ⟨decl,scope'.names,false⟩) :=
      fun w' _ hcurrent' => .function i ⟨_,⟨rfl,rfl,hcurrent'.fits,hsettled.bind,hdecl,hbelow⟩,by simp⟩
    refine Simulates.andThen (simulates_define hlinked₂ (hcurrent₁.grow hgrow₂)
      (hslot.grow hgrow₂) hplain hsame) ?_
    rintro w₃ _ _ m₃ l₃ hgrow₃ hlinked₃ ⟨hcurrent₃,-⟩
    exact .pure hlinked₃ ⟨.normal,hcurrent₃⟩
  | .classDecl name superclass methods =>
    simp only [Stmt.refs,List.mem_append] at hbelow
    refine Simulates.bind (simulates_declareClass h hcurrent hsettled hscoped
      fun x hx => hbelow x (.inr hx)) ?_
    rintro w₁ _ scope' m₁ l₁ hgrow₁ hlinked₁ hcurrent₁
    exact .pure hlinked₁ ⟨.normal,hcurrent₁⟩

theorem succ_stmts (ih : Matching p vars n) (ss : List Stmt) (h : Linked p w here m l)
    (hcurrent : Current w here scope scopes) (hsettled : scopes.Settled)
    (hscoped : Stmt.AllScoped p.table scopes ss) (hbelow : ∀ x ∈ Stmt.allRefs ss, x.index < p.limit) :
    Simulates p w (some here) here (SameOutcome p)
      (Scriptlet.Eval.stmts ⟨p.table,vars⟩ (n + 1) ss m) (Eval.stmts vars (n + 1) scope ss l) := by
  cases ss with
  | nil => exact .pure h .normal
  | cons s rest =>
    simp only [Stmt.allRefs,List.mem_append] at hbelow
    refine Simulates.bind (ih.stmt s h hcurrent hsettled hscoped.1
      fun x hx => hbelow x (.inl hx)) ?_
    rintro w₁ o ⟨o',scope'⟩ m₁ l₁ hgrow₁ hlinked₁ ⟨houtcome,hcurrent₁⟩
    cases houtcome with
    | normal =>
      exact ih.stmts rest hlinked₁ hcurrent₁ (hsettled.after s) hscoped.2
        fun x hx => hbelow x (.inr hx)
    | returned hv => exact .pure hlinked₁ (.returned hv)

theorem succ (ih : Matching p vars n) : Matching p vars (n + 1) where
  expr e _ _ _ _ _ _ := ih.succ_expr e
  exprs es _ _ _ _ _ _ := ih.succ_exprs es
  call paren _ _ _ _ _ _ _ _ := ih.succ_call paren
  invoke paren _ _ _ _ _ _ _ _ := ih.succ_invoke paren
  stmt s _ _ _ _ _ _ := ih.succ_stmt s
  stmts ss _ _ _ _ _ _ := ih.succ_stmts ss

/-- Both evaluators match with every budget. -/
theorem all (p : Places) (vars : NameMap Bytes) : ∀ n, Matching p vars n
  | 0 => zero
  | n + 1 => succ (all p vars n)

end Matching

/-- A program at the top level, where nothing but globals is declared. -/
theorem simulates_program {p : Places} (vars : NameMap Bytes) (budget : Nat) (ss : List Stmt) {w : World}
    {m : Scriptlet.Machine} {l : Machine} (h : Linked p w globalScope m l)
    (hscoped : Stmt.AllScoped p.table [] ss) (hbelow : ∀ x ∈ Stmt.allRefs ss, x.index < p.limit) :
    Simulates p w (some globalScope) globalScope (fun _ _ _ => True)
      (Scriptlet.Eval.program ⟨p.table,vars⟩ budget ss m) (Eval.program vars budget ss l) := by
  induction ss generalizing w m l with
  | nil => exact .pure h trivial
  | cons s rest ih =>
    obtain ⟨hfirst,hrest⟩ := hscoped
    rw [Scopes.after_nil] at hrest
    simp only [Stmt.allRefs,List.mem_append] at hbelow
    refine Simulates.bind ((Matching.all p vars budget).stmt s h .global .nil hfirst
      fun x hx => hbelow x (.inl hx)) ?_
    rintro w' o r m' l' hgrow hlinked -
    exact ih hlinked hrest fun x hx => hbelow x (.inr hx)

end Scriptlet.Lexical
