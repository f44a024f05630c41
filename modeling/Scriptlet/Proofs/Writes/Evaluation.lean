import Scriptlet.Proofs.Writes.Recorded

/-! # Evaluation keeps the record

Every task that is begun in a recorded machine with proper values ends in one that is recorded with
the writes of the task, and gives proper values. This is proved by induction on the budget, with one
case for each form of expression and statement.
-/
namespace Scriptlet

/-- The value of a return is proper. -/
def Outcome.Proper (size : Extent) : Outcome → Prop
  | .normal => True
  | .returned value => value.Proper size

theorem Outcome.Proper.result {size : Extent} {outcome : Outcome} (h : outcome.Proper size) :
    outcome.result.Proper size := by
  cases outcome with
  | normal => trivial
  | returned value => exact h

/-- Every task with the given budget leaves a recorded machine and gives proper values, if it is
given proper values. -/
structure Recording (ctx : Context) (n : Nat) : Prop where
  expr (e : Expr) {m : Machine} {log : List Write} : m.Recorded log →
    Leaves (log ++ (Task.expr e).writes ctx n m) m (fun size x => x.Proper size) (Eval.expr ctx n e m)
  exprs (es : List Expr) {m : Machine} {log : List Write} : m.Recorded log →
    Leaves (log ++ (Task.exprs es).writes ctx n m) m (fun size xs => ∀ x ∈ xs, x.Proper size)
      (Eval.exprs ctx n es m)
  call (paren : Token) {callee : Value} {args : List Value} {m : Machine} {log : List Write} :
    m.Recorded log → callee.Proper m.extent → (∀ x ∈ args, x.Proper m.extent) →
    Leaves (log ++ (Task.call paren callee args).writes ctx n m) m (fun size x => x.Proper size)
      (Eval.call ctx n paren callee args m)
  invoke (paren : Token) {f : Function} {args : List Value} {m : Machine} {log : List Write} :
    m.Recorded log → f.closure < m.size → (∀ x ∈ args, x.Proper m.extent) →
    Leaves (log ++ (Task.invoke paren f args).writes ctx n m) m (fun size x => x.Proper size)
      (Eval.invoke ctx n paren f args m)
  stmt (s : Stmt) {m : Machine} {log : List Write} : m.Recorded log →
    Leaves (log ++ (Task.stmt s).writes ctx n m) m (fun size outcome => outcome.Proper size)
      (Eval.stmt ctx n s m)
  stmts (ss : List Stmt) {m : Machine} {log : List Write} : m.Recorded log →
    Leaves (log ++ (Task.stmts ss).writes ctx n m) m (fun size outcome => outcome.Proper size)
      (Eval.stmts ctx n ss m)

namespace Recording

variable {ctx : Context} {n : Nat} {m : Machine} {log : List Write}

/-- Without a budget nothing is done. -/
theorem zero (ctx : Context) : Recording ctx 0 where
  expr _ _ _ hm := .idle hm
  exprs _ _ _ hm := .idle hm
  call _ _ _ _ _ hm _ _ := .idle hm
  invoke _ _ _ _ _ hm _ _ := .idle hm
  stmt _ _ _ hm := .idle hm
  stmts _ _ _ hm := .idle hm

theorem expr_succ (h : Recording ctx n) (e : Expr) (hm : m.Recorded log) :
    Leaves (log ++ (Task.expr e).writes ctx (n + 1) m) m (fun size x => x.Proper size)
      (Eval.expr ctx (n + 1) e m) := by
  cases e <;> simp only [Task.writes,Task.callees,Task.ownWrites,List.flatMap_cons,List.flatMap_nil,
    flatMap_onResult,List.append_nil,← List.append_assoc]
  case literal value => exact .pure hm trivial
  case variable_ name => exact leaves_lookUp hm
  case self keyword => exact leaves_lookUp hm
  case superMethod keyword method => exact leaves_superMethod hm
  case grouping inner => exact h.expr inner hm
  case unary op token operand =>
    refine (h.expr operand hm).next fun x m₁ _ hm₁ _ _ => ?_
    have happly : Leaves _ m₁ (fun _ _ => True) (Steps.orFault token (op.apply x) m₁) :=
      leaves_orFault hm₁ fun _ _ => trivial
    exact happly.next fun s m₂ _ hm₂ _ _ => .pure hm₂ trivial
  case binary op token left right =>
    refine (h.expr left hm).bind fun l m₁ _ hm₁ _ _ => ?_
    refine (h.expr right hm₁).next fun r m₂ _ hm₂ _ _ => ?_
    have happly : Leaves _ m₂ (fun _ _ => True) (Steps.orFault token (op.apply l r) m₂) :=
      leaves_orFault hm₂ fun _ _ => trivial
    exact happly.next fun s m₃ _ hm₃ _ _ => .pure hm₃ trivial
  case logical op left right =>
    refine (h.expr left hm).bind fun l m₁ _ hm₁ _ hl => ?_
    split
    · rw [List.flatMap_nil,List.append_nil]
      exact .pure hm₁ hl
    · rw [List.flatMap_singleton]
      exact h.expr right hm₁
  case assign name value =>
    -- The value may write too, and does so before the name is looked for.
    refine (h.expr value hm).bind fun x m₁ _ hm₁ _ hx => ?_
    refine Leaves.next (P := fun _ _ => True) ?_ fun _ m₂ _ hm₂ hle _ => .pure hm₂ (hx.mono hle)
    refine (leaves_holder hm₁).bind fun holder m₂ _ hm₂ hle hholder => ?_
    exact leaves_write (w := ⟨holder,name.lexeme,some x⟩) hm₂ hholder
      fun _ hy => Option.some.inj hy ▸ hx.mono hle
  case get object name =>
    exact (h.expr object hm).next fun o m₁ _ hm₁ _ ho => leaves_property hm₁ ho
  case set object name value =>
    refine (h.expr value hm).bind fun x m₁ _ hm₁ _ hx => ?_
    refine (h.expr object hm₁).next fun o m₂ _ hm₂ hle ho => ?_
    cases o with
    | object c id =>
      exact (leaves_setField hm₂ (hx.mono hle)).next fun _ m₃ _ hm₃ hle' _ =>
        .pure hm₃ ((hx.mono hle).mono hle')
    | _ => exact .error hm₂
  case call callee paren arguments =>
    refine (h.expr callee hm).bind fun f m₁ _ hm₁ _ hf => ?_
    rw [← List.append_assoc]
    refine (h.exprs arguments hm₁).bind fun args m₂ _ hm₂ hle hargs => ?_
    exact h.call paren hm₂ (hf.mono hle) hargs

theorem exprs_succ (h : Recording ctx n) (es : List Expr) (hm : m.Recorded log) :
    Leaves (log ++ (Task.exprs es).writes ctx (n + 1) m) m (fun size xs => ∀ x ∈ xs, x.Proper size)
      (Eval.exprs ctx (n + 1) es m) := by
  cases es with
  | nil =>
    simp only [Task.writes,Task.callees,Task.ownWrites,List.flatMap_nil,List.append_nil]
    exact .pure hm fun _ hx => absurd hx List.not_mem_nil
  | cons e rest =>
    simp only [Task.writes,Task.callees,Task.ownWrites,List.flatMap_cons,List.flatMap_nil,
      flatMap_onResult,List.append_nil,← List.append_assoc]
    refine (h.expr e hm).bind fun x m₁ _ hm₁ _ hx => ?_
    refine (h.exprs rest hm₁).next fun xs m₂ _ hm₂ hle hxs => .pure hm₂ ?_
    intro y hy
    rcases List.mem_cons.1 hy with rfl | hy
    · exact hx.mono hle
    · exact hxs y hy

theorem call_succ (h : Recording ctx n) (paren : Token) {callee : Value} {args : List Value}
    (hm : m.Recorded log) (hcallee : callee.Proper m.extent) (hargs : ∀ x ∈ args, x.Proper m.extent) :
    Leaves (log ++ (Task.call paren callee args).writes ctx (n + 1) m) m
      (fun size x => x.Proper size) (Eval.call ctx (n + 1) paren callee args m) := by
  simp only [Task.writes,Task.callees,Task.ownWrites,List.append_nil]
  by_cases harity : callee.arity? = some args.length
  · rw [if_pos harity]
    cases callee with
    | builtin b =>
      simp only [Eval.call,harity,ne_eq,not_true_eq_false,if_false,List.flatMap_nil,List.append_nil]
      exact leaves_callBuiltin hm
    | function id f =>
      simp only [Eval.call,harity,ne_eq,not_true_eq_false,if_false,List.flatMap_singleton]
      exact h.invoke paren hm hcallee hargs
    | class_ c =>
      cases hmethod : c.findMethod? initializerName with
      | none =>
        simp only [Eval.call,harity,hmethod,ne_eq,not_true_eq_false,if_false,List.flatMap_nil,
          List.append_nil]
        exact (leaves_newObject hm hcallee).next fun object m₁ _ hm₁ _ hobject => .pure hm₁ hobject
      | some method =>
        simp only [Eval.call,harity,hmethod,ne_eq,not_true_eq_false,if_false,flatMap_onResult,
          List.flatMap_singleton]
        refine (leaves_newObject hm hcallee).bind fun object m₁ _ hm₁ hle₁ hobject => ?_
        have hclosure := Nat.lt_of_lt_of_le (Class.Proper.findMethod? hcallee hmethod) hle₁.1
        refine (leaves_bind hm₁ hclosure hobject).bind fun f m₂ _ hm₂ hle₂ hf => ?_
        have hargs₂ : ∀ x ∈ args, x.Proper m₂.extent :=
          fun x hx => ((hargs x hx).mono hle₁).mono hle₂
        refine (h.invoke paren hm₂ hf hargs₂).next fun _ m₃ _ hm₃ hle₃ _ => ?_
        exact .pure hm₃ ((hobject.mono hle₂).mono hle₃)
    | scalar s => cases harity
    | object c id => cases harity
    | uninitialized => cases harity
  · rw [if_neg harity,List.flatMap_nil,List.append_nil]
    cases hcallable : callee.arity? with
    | none =>
      simp only [Eval.call,hcallable]
      exact .error hm
    | some arity =>
      rw [hcallable] at harity
      have hlength : args.length ≠ arity := fun heq => harity (by rw [heq])
      simp only [Eval.call,hcallable,if_pos hlength]
      exact .error hm

theorem invoke_succ (h : Recording ctx n) (paren : Token) {f : Function} {args : List Value}
    (hm : m.Recorded log) (hclosure : f.closure < m.size) (hargs : ∀ x ∈ args, x.Proper m.extent) :
    Leaves (log ++ (Task.invoke paren f args).writes ctx (n + 1) m) m
      (fun size x => x.Proper size) (Eval.invoke ctx (n + 1) paren f args m) := by
  simp only [Task.writes,Task.callees,Task.ownWrites,List.append_nil]
  cases hparams : Eval.bindParameters f.decl.params args .empty with
  | none =>
    simp only [Eval.invoke,hparams,List.flatMap_nil,List.append_nil]
    exact .error hm
  | some bindings =>
    simp only [Eval.invoke,hparams,Steps.orLost,pure_bind,flatMap_onResult,List.flatMap_singleton]
    have hbindings := Eval.of_bindParameters hargs (fun _ _ hget => by cases hget) hparams
    refine (leaves_newEnv hm hclosure hbindings).bind fun scope m₁ _ hm₁ hle hscope => ?_
    refine (Leaves.inScope hm₁ (h.stmts f.decl.body (hm₁.enter hscope))).next
      fun outcome m₂ _ hm₂ _ houtcome => ?_
    split
    · exact leaves_readAt hm₂
    · exact .pure hm₂ houtcome.result

theorem stmts_succ (h : Recording ctx n) (ss : List Stmt) (hm : m.Recorded log) :
    Leaves (log ++ (Task.stmts ss).writes ctx (n + 1) m) m (fun size outcome => outcome.Proper size)
      (Eval.stmts ctx (n + 1) ss m) := by
  cases ss with
  | nil =>
    simp only [Task.writes,Task.callees,Task.ownWrites,List.flatMap_nil,List.append_nil]
    exact .pure hm trivial
  | cons s rest =>
    simp only [Task.writes,Task.callees,Task.ownWrites,List.flatMap_cons,
      flatMap_onResult,List.append_nil,← List.append_assoc]
    refine (h.stmt s hm).bind fun outcome m₁ _ hm₁ _ houtcome => ?_
    cases outcome with
    | normal =>
      rw [List.flatMap_singleton]
      exact h.stmts rest hm₁
    | returned value =>
      rw [List.flatMap_nil,List.append_nil]
      exact .pure hm₁ houtcome

theorem stmt_succ (h : Recording ctx n) (s : Stmt) (hm : m.Recorded log) :
    Leaves (log ++ (Task.stmt s).writes ctx (n + 1) m) m (fun size outcome => outcome.Proper size)
      (Eval.stmt ctx (n + 1) s m) := by
  cases s
  case expression value =>
    simp only [Task.writes,Task.callees,Task.ownWrites,List.flatMap_singleton,List.append_nil]
    exact (h.expr value hm).next fun _ m₁ _ hm₁ _ _ => .pure hm₁ trivial
  case print value =>
    simp only [Task.writes,Task.callees,Task.ownWrites,List.flatMap_singleton,List.append_nil]
    refine (h.expr value hm).next fun x m₁ _ hm₁ _ _ => ?_
    exact (leaves_print hm₁).next fun _ m₂ _ hm₂ _ _ => .pure hm₂ trivial
  case varDecl name initial =>
    cases initial with
    | none =>
      simp only [Task.writes,Task.callees,Task.ownWrites,List.flatMap_nil,List.nil_append]
      have hdeclared := leaves_write (w := ⟨m.memory.scope,name.lexeme,none⟩) hm hm.scope
        fun _ hy => by cases hy
      exact hdeclared.next fun _ m₁ _ hm₁ _ _ => .pure hm₁ trivial
    | some value =>
      simp only [Task.writes,Task.callees,Task.ownWrites,List.flatMap_singleton,← List.append_assoc]
      refine (h.expr value hm).bind fun x m₁ _ hm₁ _ hx => ?_
      exact (leaves_define hm₁ hx).next fun _ m₂ _ hm₂ _ _ => .pure hm₂ trivial
  case block body =>
    simp only [Task.writes,Task.callees,Task.ownWrites,flatMap_onResult,List.flatMap_singleton,
      List.append_nil]
    refine Leaves.get ((leaves_newEnv_empty hm).bind fun scope m₁ _ hm₁ _ hscope => ?_)
    exact .inScope hm₁ (h.stmts body (hm₁.enter hscope))
  case ifElse condition thenBranch elseBranch =>
    simp only [Task.writes,Task.callees,Task.ownWrites,List.flatMap_cons,flatMap_onResult,
      List.append_nil,← List.append_assoc]
    refine (h.expr condition hm).bind fun c m₁ _ hm₁ _ _ => ?_
    split
    · rw [List.flatMap_singleton]
      exact h.stmt thenBranch hm₁
    · cases elseBranch with
      | none =>
        simp only [Option.toList_none,List.map_nil,List.flatMap_nil,List.append_nil]
        exact .pure hm₁ trivial
      | some branch =>
        simp only [Option.toList_some,List.map_cons,List.map_nil,List.flatMap_singleton]
        exact h.stmt branch hm₁
  case while_ condition body =>
    simp only [Task.writes,Task.callees,Task.ownWrites,List.flatMap_cons,flatMap_onResult,
      List.append_nil,← List.append_assoc]
    refine (h.expr condition hm).bind fun c m₁ _ hm₁ _ _ => ?_
    split
    · simp only [List.flatMap_cons,flatMap_onResult,← List.append_assoc]
      refine (h.stmt body hm₁).bind fun outcome m₂ _ hm₂ _ houtcome => ?_
      cases outcome with
      | normal =>
        rw [List.flatMap_singleton]
        exact h.stmt (.while_ condition body) hm₂
      | returned value =>
        rw [List.flatMap_nil,List.append_nil]
        exact .pure hm₂ houtcome
    · rw [List.flatMap_nil,List.append_nil]
      exact .pure hm₁ trivial
  case return_ keyword value =>
    cases value with
    | none =>
      simp only [Task.writes,Task.callees,Task.ownWrites,List.flatMap_nil,List.append_nil]
      exact .pure hm trivial
    | some value =>
      simp only [Task.writes,Task.callees,Task.ownWrites,List.flatMap_singleton,List.append_nil]
      exact (h.expr value hm).next fun x m₁ _ hm₁ _ hx => .pure hm₁ hx
  case funDecl decl =>
    simp only [Task.writes,Task.callees,Task.ownWrites,List.flatMap_nil,List.nil_append]
    have hfunction := leaves_newFunction (f := ⟨decl,m.memory.scope,false⟩) hm hm.scope
    refine Leaves.get (hfunction.bind fun f m₁ _ hm₁ _ hf => ?_)
    exact (leaves_define hm₁ hf).next fun _ m₂ _ hm₂ _ _ => .pure hm₂ trivial
  case classDecl name superclass methods =>
    simp only [Task.writes,Task.callees,List.flatMap_nil,List.nil_append]
    exact (leaves_declareClass hm).next fun _ m₁ _ hm₁ _ _ => .pure hm₁ trivial

/-- Every task keeps the machine recorded, by induction on the budget. -/
theorem all (ctx : Context) (n : Nat) : Recording ctx n := by
  induction n with
  | zero => exact zero ctx
  | succ n ih =>
    exact ⟨fun e _ _ => ih.expr_succ e,fun es _ _ => ih.exprs_succ es,
      fun paren _ _ _ _ => ih.call_succ paren,fun paren _ _ _ _ => ih.invoke_succ paren,
      fun s _ _ => ih.stmt_succ s,fun ss _ _ => ih.stmts_succ ss⟩

end Recording

end Scriptlet
