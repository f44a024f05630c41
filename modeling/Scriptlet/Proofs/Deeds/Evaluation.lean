import Scriptlet.Proofs.Deeds.Followed

/-! # Evaluation keeps the log

Every task that is begun in a machine that follows a log, with values that are known from it, ends in
one that follows the log with the deeds of the task, and gives known values. This is proved by induction
on the budget, with one case for each form of expression and statement. From the tasks it goes on to all
visits of a run, and from one run to the next.
-/
namespace Scriptlet

theorem onResult_append {α β : Type} {r : EStateM.Result Abort Machine α}
    {f g : α → Machine → List β} :
    onResult r f ++ onResult r g = onResult r fun a m => f a m ++ g a m := by
  cases r <;> rfl

/-- The value of a return is known. -/
def Outcome.Known (log : List Deed) : Outcome → Prop
  | .normal => True
  | .returned value => value.Known log

theorem Outcome.Known.result {log : List Deed} {outcome : Outcome} (h : outcome.Known log) :
    outcome.result.Known log := by
  cases outcome with
  | normal => trivial
  | returned value => exact h

/-- Every task with the given budget leaves a machine that follows the log and gives known values, if it
is given known values. -/
structure Logging (ctx : Context) (n : Nat) : Prop where
  expr (e : Expr) {m : Machine} {log : List Deed} : m.Follows log →
    Logs (log ++ (Task.expr e).deeds ctx n m) (fun log x => x.Known log) (Eval.expr ctx n e m)
  exprs (es : List Expr) {m : Machine} {log : List Deed} : m.Follows log →
    Logs (log ++ (Task.exprs es).deeds ctx n m) (fun log xs => ∀ x ∈ xs, x.Known log)
      (Eval.exprs ctx n es m)
  call (paren : Token) {callee : Value} {args : List Value} {m : Machine} {log : List Deed} :
    m.Follows log → callee.Known log → (∀ x ∈ args, x.Known log) →
    Logs (log ++ (Task.call paren callee args).deeds ctx n m) (fun log x => x.Known log)
      (Eval.call ctx n paren callee args m)
  invoke (paren : Token) (f : Function) {args : List Value} {m : Machine} {log : List Deed} :
    m.Follows log → (∀ x ∈ args, x.Known log) →
    Logs (log ++ (Task.invoke paren f args).deeds ctx n m) (fun log x => x.Known log)
      (Eval.invoke ctx n paren f args m)
  stmt (s : Stmt) {m : Machine} {log : List Deed} : m.Follows log →
    Logs (log ++ (Task.stmt s).deeds ctx n m) (fun log outcome => outcome.Known log)
      (Eval.stmt ctx n s m)
  stmts (ss : List Stmt) {m : Machine} {log : List Deed} : m.Follows log →
    Logs (log ++ (Task.stmts ss).deeds ctx n m) (fun log outcome => outcome.Known log)
      (Eval.stmts ctx n ss m)

namespace Logging

variable {ctx : Context} {n : Nat} {m : Machine} {log : List Deed}

/-- Without a budget nothing is done. -/
theorem zero (ctx : Context) : Logging ctx 0 where
  expr _ _ _ hm := .idle hm
  exprs _ _ _ hm := .idle hm
  call _ _ _ _ _ hm _ _ := .idle hm
  invoke _ _ _ _ _ hm _ := .idle hm
  stmt _ _ _ hm := .idle hm
  stmts _ _ _ hm := .idle hm

theorem expr_succ (h : Logging ctx n) (e : Expr) (hm : m.Follows log) :
    Logs (log ++ (Task.expr e).deeds ctx (n + 1) m) (fun log x => x.Known log)
      (Eval.expr ctx (n + 1) e m) := by
  cases e <;> simp only [Task.deeds,Task.firstDeeds,Task.callees,Task.lastDeeds,List.nil_append,
    List.flatMap_cons,List.flatMap_nil,flatMap_onResult,List.append_nil,← List.append_assoc]
  case literal value => exact .pure hm trivial
  case variable_ name => exact logs_lookUp hm
  case self keyword => exact logs_lookUp hm
  case superMethod keyword method => exact logs_superMethod hm
  case grouping inner => exact h.expr inner hm
  case unary op token operand =>
    apply (h.expr operand hm).next
    intro x m₁ _ hm₁ _
    have happly : Logs _ (fun _ _ => True) (Steps.orFault token (op.apply x) m₁) :=
      logs_orFault hm₁ fun _ _ => trivial
    exact happly.next fun s m₂ _ hm₂ _ => .pure hm₂ trivial
  case binary op token left right =>
    apply (h.expr left hm).bind
    intro l m₁ _ hm₁ _
    apply (h.expr right hm₁).next
    intro r m₂ _ hm₂ _
    have happly : Logs _ (fun _ _ => True) (Steps.orFault token (op.apply l r) m₂) :=
      logs_orFault hm₂ fun _ _ => trivial
    exact happly.next fun s m₃ _ hm₃ _ => .pure hm₃ trivial
  case logical op left right =>
    apply (h.expr left hm).bind
    intro l m₁ _ hm₁ hl
    split
    · rw [List.flatMap_nil,List.append_nil]
      exact .pure hm₁ hl
    · rw [List.flatMap_singleton]
      exact h.expr right hm₁
  case assign name value =>
    apply (h.expr value hm).next
    intro x m₁ _ hm₁ hx
    exact (logs_assign hm₁ hx).next fun _ m₂ _ hm₂ _ => .pure hm₂ hx
  case get object name =>
    apply (h.expr object hm).next
    intro o m₁ _ hm₁ ho
    exact logs_property hm₁ ho
  case set object name value =>
    -- the entry comes last, so both results have to be known before it can be added
    rw [List.append_assoc,onResult_append]
    apply (h.expr value hm).bind
    intro x m₁ _ hm₁ hx
    rw [← List.append_assoc]
    apply (h.expr object hm₁).bind
    intro o m₂ _ hm₂ ho
    cases o with
    | object c id =>
      have hset : Logs (log ++ (Task.expr value).deeds ctx n m ++ (Task.expr object).deeds ctx n m₁ ++
          [.set id name.lexeme x]) (fun _ _ => True) (Steps.setField id name.lexeme x m₂) :=
        ⟨hm₂.setField ho hx.append,trivial⟩
      exact hset.next fun _ m₃ _ hm₃ _ => .pure hm₃ hx.append.append
    | _ =>
      rw [List.append_nil]
      exact .error hm₂
  case call callee paren arguments =>
    apply (h.expr callee hm).bind
    intro f m₁ _ hm₁ hf
    rw [← List.append_assoc]
    apply (h.exprs arguments hm₁).bind
    intro args m₂ _ hm₂ hargs
    exact h.call paren hm₂ hf.append hargs

theorem exprs_succ (h : Logging ctx n) (es : List Expr) (hm : m.Follows log) :
    Logs (log ++ (Task.exprs es).deeds ctx (n + 1) m) (fun log xs => ∀ x ∈ xs, x.Known log)
      (Eval.exprs ctx (n + 1) es m) := by
  cases es with
  | nil =>
    simp only [Task.deeds,Task.firstDeeds,Task.callees,Task.lastDeeds,List.flatMap_nil,List.append_nil]
    exact .pure hm fun _ hx => absurd hx List.not_mem_nil
  | cons e rest =>
    simp only [Task.deeds,Task.firstDeeds,Task.callees,Task.lastDeeds,List.nil_append,
      List.flatMap_cons,List.flatMap_nil,flatMap_onResult,List.append_nil,← List.append_assoc]
    apply (h.expr e hm).bind
    intro x m₁ _ hm₁ hx
    apply (h.exprs rest hm₁).next
    intro xs m₂ _ hm₂ hxs
    exact .pure hm₂ (List.forall_mem_cons.2 ⟨hx.append,hxs⟩)

/-- The instance that a call of a class gives is created first. -/
theorem call_succ (h : Logging ctx n) (paren : Token) {callee : Value} {args : List Value}
    (hm : m.Follows log) (hcallee : callee.Known log) (hargs : ∀ x ∈ args, x.Known log) :
    Logs (log ++ (Task.call paren callee args).deeds ctx (n + 1) m) (fun log x => x.Known log)
      (Eval.call ctx (n + 1) paren callee args m) := by
  by_cases harity : callee.arity? = some args.length
  · cases callee with
    | builtin b =>
      simp only [Task.deeds,Task.firstDeeds,Task.callees,Task.lastDeeds,Eval.call,harity,ne_eq,
        not_true_eq_false,if_false,if_true,List.flatMap_nil,List.append_nil]
      exact logs_callBuiltin hm
    | function id f =>
      simp only [Task.deeds,Task.firstDeeds,Task.callees,Task.lastDeeds,Eval.call,harity,ne_eq,
        not_true_eq_false,if_false,if_true,List.flatMap_singleton,List.nil_append,List.append_nil]
      exact h.invoke paren f hm hargs
    | class_ c =>
      have hcreated : Logs (log ++ [.created c]) (fun log x => x.Known log) (Steps.newObject c m) :=
        hm.newObject hcallee
      cases hmethod : c.findMethod? initializerName with
      | none =>
        simp only [Task.deeds,Task.firstDeeds,Task.callees,Task.lastDeeds,Eval.call,harity,hmethod,
          ne_eq,not_true_eq_false,if_false,if_true,List.flatMap_nil,List.append_nil]
        exact hcreated.next fun object m₁ _ hm₁ hobject => .pure hm₁ hobject
      | some method =>
        simp only [Task.deeds,Task.firstDeeds,Task.callees,Task.lastDeeds,Eval.call,harity,hmethod,
          ne_eq,not_true_eq_false,if_false,if_true,flatMap_onResult,List.flatMap_singleton,
          List.append_nil,← List.append_assoc]
        apply hcreated.bind
        intro object m₁ _ hm₁ hobject
        apply (logs_bind hm₁ hobject).bind
        intro f m₂ _ hm₂ _
        apply (h.invoke paren f hm₂ fun x hx => (hargs x hx).append).next
        intro _ m₃ _ hm₃ _
        exact .pure hm₃ hobject.append
    | scalar s => cases harity
    | object c id => cases harity
    | uninitialized => cases harity
  · -- with a wrong number of arguments a class is not instantiated
    have hfirst : (Task.call paren callee args).firstDeeds = [] := by
      cases callee <;> simp [Task.firstDeeds,harity]
    simp only [Task.deeds,Task.callees,Task.lastDeeds,hfirst,if_neg harity,List.flatMap_nil,
      List.append_nil]
    cases hcallable : callee.arity? with
    | none =>
      simp only [Eval.call,hcallable]
      exact .error hm
    | some arity =>
      rw [hcallable] at harity
      have hlength : args.length ≠ arity := fun heq => harity (by rw [heq])
      simp only [Eval.call,hcallable,if_pos hlength]
      exact .error hm

theorem invoke_succ (h : Logging ctx n) (paren : Token) (f : Function) {args : List Value}
    (hm : m.Follows log) (hargs : ∀ x ∈ args, x.Known log) :
    Logs (log ++ (Task.invoke paren f args).deeds ctx (n + 1) m) (fun log x => x.Known log)
      (Eval.invoke ctx (n + 1) paren f args m) := by
  cases hparams : Eval.bindParameters f.decl.params args .empty with
  | none =>
    simp only [Task.deeds,Task.firstDeeds,Task.callees,Task.lastDeeds,Eval.invoke,hparams,
      List.flatMap_nil,List.append_nil]
    exact .error hm
  | some bindings =>
    simp only [Task.deeds,Task.firstDeeds,Task.callees,Task.lastDeeds,Eval.invoke,hparams,
      Steps.orLost,pure_bind,flatMap_onResult,List.flatMap_singleton,List.nil_append,List.append_nil]
    have hbindings := Eval.of_bindParameters hargs (fun _ _ hget => by cases hget) hparams
    apply (logs_newEnv hm hbindings).bind
    intro scope m₁ _ hm₁ _
    apply (Logs.inScope (h.stmts f.decl.body (hm₁.enter scope))).next
    intro outcome m₂ _ hm₂ houtcome
    split
    · exact logs_readAt hm₂
    · exact .pure hm₂ houtcome.result

theorem stmts_succ (h : Logging ctx n) (ss : List Stmt) (hm : m.Follows log) :
    Logs (log ++ (Task.stmts ss).deeds ctx (n + 1) m) (fun log outcome => outcome.Known log)
      (Eval.stmts ctx (n + 1) ss m) := by
  cases ss with
  | nil =>
    simp only [Task.deeds,Task.firstDeeds,Task.callees,Task.lastDeeds,List.flatMap_nil,List.append_nil]
    exact .pure hm trivial
  | cons s rest =>
    simp only [Task.deeds,Task.firstDeeds,Task.callees,Task.lastDeeds,List.nil_append,
      List.flatMap_cons,flatMap_onResult,List.append_nil,← List.append_assoc]
    apply (h.stmt s hm).bind
    intro outcome m₁ _ hm₁ houtcome
    cases outcome with
    | normal =>
      rw [List.flatMap_singleton]
      exact h.stmts rest hm₁
    | returned value =>
      rw [List.flatMap_nil,List.append_nil]
      exact .pure hm₁ houtcome

theorem stmt_succ (h : Logging ctx n) (s : Stmt) (hm : m.Follows log) :
    Logs (log ++ (Task.stmt s).deeds ctx (n + 1) m) (fun log outcome => outcome.Known log)
      (Eval.stmt ctx (n + 1) s m) := by
  cases s
  case expression value =>
    simp only [Task.deeds,Task.firstDeeds,Task.callees,Task.lastDeeds,List.nil_append,
      List.flatMap_singleton,List.append_nil]
    exact (h.expr value hm).next fun _ m₁ _ hm₁ _ => .pure hm₁ trivial
  case print value =>
    simp only [Task.deeds,Task.firstDeeds,Task.callees,Task.lastDeeds,List.nil_append,
      List.flatMap_singleton,List.append_nil]
    apply (h.expr value hm).next
    intro x m₁ _ hm₁ _
    exact ⟨hm₁.congr rfl rfl (Nat.le_refl _),trivial⟩
  case varDecl name initial =>
    cases initial with
    | none =>
      simp only [Task.deeds,Task.firstDeeds,Task.callees,Task.lastDeeds,List.flatMap_nil,
        List.append_nil]
      have hdefine : Logs log (fun _ _ => True) (Eval.define name.lexeme .uninitialized m) :=
        logs_define hm trivial
      exact hdefine.next fun _ m₁ _ hm₁ _ => .pure hm₁ trivial
    | some value =>
      simp only [Task.deeds,Task.firstDeeds,Task.callees,Task.lastDeeds,List.nil_append,
        List.flatMap_singleton,List.append_nil]
      apply (h.expr value hm).next
      intro x m₁ _ hm₁ hx
      exact (logs_define hm₁ hx).next fun _ m₂ _ hm₂ _ => .pure hm₂ trivial
  case block body =>
    simp only [Task.deeds,Task.firstDeeds,Task.callees,Task.lastDeeds,flatMap_onResult,
      List.flatMap_singleton,List.nil_append,List.append_nil]
    apply Logs.get
    apply (logs_newEnv hm fun _ _ hget => by cases hget).bind
    intro scope m₁ _ hm₁ _
    exact .inScope (h.stmts body (hm₁.enter scope))
  case ifElse condition thenBranch elseBranch =>
    simp only [Task.deeds,Task.firstDeeds,Task.callees,Task.lastDeeds,List.nil_append,
      List.flatMap_cons,flatMap_onResult,List.append_nil,← List.append_assoc]
    apply (h.expr condition hm).bind
    intro c m₁ _ hm₁ _
    split
    · rw [List.flatMap_singleton]
      exact h.stmt thenBranch hm₁
    · cases elseBranch with
      | none =>
        simp only [Option.toList_none,List.map_nil,List.flatMap_nil,List.append_nil]
        exact .pure hm₁ trivial
      | some branch =>
        simp only [Option.toList_some,List.map_cons,List.map_nil,List.flatMap_singleton]
        exact h.stmt branch hm₁
  case while_ condition body =>
    simp only [Task.deeds,Task.firstDeeds,Task.callees,Task.lastDeeds,List.nil_append,
      List.flatMap_cons,flatMap_onResult,List.append_nil,← List.append_assoc]
    apply (h.expr condition hm).bind
    intro c m₁ _ hm₁ _
    split
    · simp only [List.flatMap_cons,flatMap_onResult,← List.append_assoc]
      apply (h.stmt body hm₁).bind
      intro outcome m₂ _ hm₂ houtcome
      cases outcome with
      | normal =>
        rw [List.flatMap_singleton]
        exact h.stmt (.while_ condition body) hm₂
      | returned value =>
        rw [List.flatMap_nil,List.append_nil]
        exact .pure hm₂ houtcome
    · rw [List.flatMap_nil,List.append_nil]
      exact .pure hm₁ trivial
  case return_ keyword value =>
    cases value with
    | none =>
      simp only [Task.deeds,Task.firstDeeds,Task.callees,Task.lastDeeds,List.flatMap_nil,
        List.append_nil]
      exact .pure hm trivial
    | some value =>
      simp only [Task.deeds,Task.firstDeeds,Task.callees,Task.lastDeeds,List.nil_append,
        List.flatMap_singleton,List.append_nil]
      exact (h.expr value hm).next fun x m₁ _ hm₁ hx => .pure hm₁ hx
  case funDecl decl =>
    simp only [Task.deeds,Task.firstDeeds,Task.callees,Task.lastDeeds,List.flatMap_nil,List.append_nil]
    apply Logs.get
    apply (logs_newFunction hm ⟨decl,m.memory.scope,false⟩).next
    intro f m₁ _ hm₁ hf
    exact (logs_define hm₁ hf).next fun _ m₂ _ hm₂ _ => .pure hm₂ trivial
  case classDecl name superclass methods =>
    simp only [Task.deeds,Task.firstDeeds,Task.callees,List.flatMap_nil,List.nil_append]
    exact (logs_declareClass hm).next fun _ m₁ _ hm₁ _ => .pure hm₁ trivial

/-- Every task keeps the log, by induction on the budget. -/
theorem all (ctx : Context) (n : Nat) : Logging ctx n := by
  induction n with
  | zero => exact zero ctx
  | succ n ih =>
    exact ⟨fun e _ _ => ih.expr_succ e,fun es _ _ => ih.exprs_succ es,
      fun paren _ _ _ _ => ih.call_succ paren,fun paren f _ _ _ => ih.invoke_succ paren f,
      fun s _ _ => ih.stmt_succ s,fun ss _ _ => ih.stmts_succ ss⟩

end Logging

/-! ## Visits -/

/-- The values that a task is given are known. -/
def Task.Known (log : List Deed) (t : Task) : Prop := ∀ x ∈ t.arguments, x.Known log

section

variable {ctx : Context} {n : Nat} {m : Machine} {log : List Deed}

theorem logs_task (t : Task) (hm : m.Follows log) (ht : t.Known log) :
    Logs (log ++ t.deeds ctx n m) (fun log a => ∀ x ∈ t.values a, x.Known log) (t.run ctx n m) := by
  have hall := Logging.all ctx n
  have hsingle : ∀ log (x : Value), x.Known log → ∀ y ∈ [x], y.Known log := by
    intro log x hx y hy
    obtain rfl := List.mem_singleton.1 hy
    exact hx
  cases t with
  | expr e => exact (hall.expr e hm).weaken (hsingle _)
  | exprs es => exact hall.exprs es hm
  | call paren callee args =>
    obtain ⟨hcallee,hargs⟩ := List.forall_mem_cons.1 ht
    exact (hall.call paren hm hcallee hargs).weaken (hsingle _)
  | invoke paren f args => exact (hall.invoke paren f hm ht).weaken (hsingle _)
  | stmt s =>
    apply (hall.stmt s hm).weaken
    intro outcome houtcome
    cases outcome with
    | normal => exact fun x hx => absurd hx List.not_mem_nil
    | returned value => exact hsingle _ value houtcome
  | stmts ss =>
    apply (hall.stmts ss hm).weaken
    intro outcome houtcome
    cases outcome with
    | normal => exact fun x hx => absurd hx List.not_mem_nil
    | returned value => exact hsingle _ value houtcome

/-- Tasks that are begun one after the other, each in a machine that follows the log. -/
def Consecutive (ctx : Context) (n : Nat) : List Deed → List (Task × Machine) → Prop
  | _, [] => True
  | log, (t,m) :: rest => m.Follows log ∧ t.Known log ∧ Consecutive ctx n (log ++ t.deeds ctx n m) rest

namespace Consecutive

theorem single {t : Task} (hm : m.Follows log) (ht : t.Known log) : Consecutive ctx n log [(t,m)] :=
  ⟨hm,ht,trivial⟩

theorem onResult {α : Type} {P : List Deed → α → Prop} {r : EStateM.Result Abort Machine α}
    {next : α → Machine → List (Task × Machine)} (h : Logs log P r)
    (hnext : ∀ a m', m'.Follows log → P log a → Consecutive ctx n log (next a m')) :
    Consecutive ctx n log (Scriptlet.onResult r next) := by
  cases r with
  | ok a m' => exact hnext a m' h.1 h.2
  | error e m' => trivial

theorem split {before rest : List (Task × Machine)} {t : Task}
    (h : Consecutive ctx n log (before ++ (t,m) :: rest)) :
    m.Follows (log ++ before.flatMap fun c => c.1.deeds ctx n c.2) ∧
      t.Known (log ++ before.flatMap fun c => c.1.deeds ctx n c.2) := by
  induction before generalizing log with
  | nil =>
    rw [List.flatMap_nil,List.append_nil]
    exact ⟨h.1,h.2.1⟩
  | cons first before ih =>
    rw [List.flatMap_cons,← List.append_assoc]
    exact ih h.2.2

end Consecutive

/-- A task that is given no values. -/
theorem Task.known_nil {t : Task} (h : t.arguments = []) : t.Known log := by
  rw [Task.Known,h]
  exact fun x hx => absurd hx List.not_mem_nil

theorem consecutive_expr (e : Expr) (hm : m.Follows log) :
    Consecutive ctx n log ((Task.expr e).callees ctx n m) := by
  have hall := Logging.all ctx n
  cases e with
  | literal | variable_ | self | superMethod => trivial
  | grouping inner => exact .single hm (Task.known_nil rfl)
  | unary op token operand => exact .single hm (Task.known_nil rfl)
  | assign name value => exact .single hm (Task.known_nil rfl)
  | get object name => exact .single hm (Task.known_nil rfl)
  | binary op token left right =>
    refine ⟨hm,Task.known_nil rfl,.onResult (hall.expr left hm) fun l m₁ hm₁ _ => ?_⟩
    exact .single hm₁ (Task.known_nil rfl)
  | logical op left right =>
    refine ⟨hm,Task.known_nil rfl,.onResult (hall.expr left hm) fun l m₁ hm₁ _ => ?_⟩
    split
    · trivial
    · exact .single hm₁ (Task.known_nil rfl)
  | set object name value =>
    refine ⟨hm,Task.known_nil rfl,.onResult (hall.expr value hm) fun x m₁ hm₁ _ => ?_⟩
    exact .single hm₁ (Task.known_nil rfl)
  | call callee paren arguments =>
    refine ⟨hm,Task.known_nil rfl,.onResult (hall.expr callee hm) fun f m₁ hm₁ hf => ?_⟩
    refine ⟨hm₁,Task.known_nil rfl,.onResult (hall.exprs arguments hm₁) fun args m₂ hm₂ hargs => ?_⟩
    exact .single hm₂ (List.forall_mem_cons.2 ⟨hf.append,hargs⟩)

theorem consecutive_call {paren : Token} {callee : Value} {args : List Value} (hm : m.Follows log)
    (hcallee : callee.Known log) (hargs : ∀ x ∈ args, x.Known log) :
    Consecutive ctx n (log ++ (Task.call paren callee args).firstDeeds)
      ((Task.call paren callee args).callees ctx n m) := by
  simp only [Task.callees]
  split
  · next harity =>
    cases callee with
    | function id f =>
      simp only [Task.firstDeeds,List.append_nil]
      exact .single hm hargs
    | class_ c =>
      cases hmethod : c.findMethod? initializerName with
      | none =>
        simp only [hmethod]
        trivial
      | some method =>
        have hcreated : Logs (log ++ [.created c]) (fun log x => x.Known log) (Steps.newObject c m) :=
          hm.newObject hcallee
        simp only [Task.firstDeeds,if_pos harity,hmethod]
        refine .onResult hcreated fun object m₁ hm₁ hobject => ?_
        refine .onResult (logs_bind hm₁ hobject) fun f m₂ hm₂ _ => ?_
        exact .single hm₂ fun x hx => (hargs x hx).append
    | _ => trivial
  · trivial

theorem consecutive_stmt (s : Stmt) (hm : m.Follows log) :
    Consecutive ctx n log ((Task.stmt s).callees ctx n m) := by
  have hall := Logging.all ctx n
  cases s with
  | expression value => exact .single hm (Task.known_nil rfl)
  | print value => exact .single hm (Task.known_nil rfl)
  | varDecl name initial =>
    cases initial with
    | none => trivial
    | some value => exact .single hm (Task.known_nil rfl)
  | return_ keyword value =>
    cases value with
    | none => trivial
    | some value => exact .single hm (Task.known_nil rfl)
  | block body =>
    rw [Task.callees]
    refine .onResult (logs_newEnv hm fun _ _ hget => by cases hget) fun scope m₁ hm₁ _ => ?_
    exact .single (hm₁.enter scope) (Task.known_nil rfl)
  | ifElse condition thenBranch elseBranch =>
    refine ⟨hm,Task.known_nil rfl,.onResult (hall.expr condition hm) fun c m₁ hm₁ _ => ?_⟩
    split
    · exact .single hm₁ (Task.known_nil rfl)
    · cases elseBranch with
      | none => trivial
      | some branch => exact .single hm₁ (Task.known_nil rfl)
  | while_ condition body =>
    refine ⟨hm,Task.known_nil rfl,.onResult (hall.expr condition hm) fun c m₁ hm₁ _ => ?_⟩
    split
    · refine ⟨hm₁,Task.known_nil rfl,.onResult (hall.stmt body hm₁) fun outcome m₂ hm₂ _ => ?_⟩
      cases outcome with
      | normal => exact .single hm₂ (Task.known_nil rfl)
      | returned value => trivial
    · trivial
  | funDecl | classDecl => trivial

/-- The tasks that a task calls are begun in machines that follow the log, with known values. -/
theorem consecutive_callees (t : Task) (hm : m.Follows log) (ht : t.Known log) :
    Consecutive ctx n (log ++ t.firstDeeds) (t.callees ctx n m) := by
  have hall := Logging.all ctx n
  cases t with
  | call paren callee args =>
    obtain ⟨hcallee,hargs⟩ := List.forall_mem_cons.1 ht
    exact consecutive_call hm hcallee hargs
  | expr e =>
    simp only [Task.firstDeeds,List.append_nil]
    exact consecutive_expr e hm
  | exprs es =>
    simp only [Task.firstDeeds,List.append_nil]
    cases es with
    | nil => trivial
    | cons e rest =>
      refine ⟨hm,Task.known_nil rfl,.onResult (hall.expr e hm) fun x m₁ hm₁ _ => ?_⟩
      exact .single hm₁ (Task.known_nil rfl)
  | invoke paren f args =>
    simp only [Task.firstDeeds,List.append_nil]
    rw [Task.callees]
    cases hparams : Eval.bindParameters f.decl.params args .empty with
    | none => trivial
    | some bindings =>
      have hbindings := Eval.of_bindParameters ht (fun _ _ hget => by cases hget) hparams
      refine .onResult (logs_newEnv hm hbindings) fun scope m₁ hm₁ _ => ?_
      exact .single (hm₁.enter scope) (Task.known_nil rfl)
  | stmt s =>
    simp only [Task.firstDeeds,List.append_nil]
    exact consecutive_stmt s hm
  | stmts ss =>
    simp only [Task.firstDeeds,List.append_nil]
    cases ss with
    | nil => trivial
    | cons s rest =>
      refine ⟨hm,Task.known_nil rfl,.onResult (hall.stmt s hm) fun outcome m₁ hm₁ _ => ?_⟩
      cases outcome with
      | normal => exact .single hm₁ (Task.known_nil rfl)
      | returned value => trivial

/-- Every visit is begun in a machine that follows the log of what was done before. -/
theorem Visit.BeginsAfter.follows {top v : Visit} {ds : List Deed} (h : BeginsAfter ctx top ds v)
    (hm : top.machine.Follows log) (ht : top.task.Known log) :
    v.machine.Follows (log ++ ds) ∧ v.task.Known (log ++ ds) := by
  induction h with
  | self =>
    rw [List.append_nil]
    exact ⟨hm,ht⟩
  | @call n t t' m m' ds before rest _ hsplit ih =>
    have hcallees : Consecutive ctx n (log ++ ds ++ t.firstDeeds) (t.callees ctx n m) :=
      consecutive_callees t ih.1 ih.2
    rw [hsplit] at hcallees
    have hbegun := hcallees.split
    rwa [List.append_assoc,List.append_assoc,← List.append_assoc ds] at hbegun

theorem logs_program (budget : Nat) (ss : List Stmt) (hm : m.Follows log) :
    Logs (log ++ Eval.programDeeds ctx budget ss m) (fun _ _ => True)
      (Eval.program ctx budget ss m) := by
  induction ss generalizing m log with
  | nil =>
    rw [Eval.programDeeds,List.append_nil]
    exact .pure hm trivial
  | cons s rest ih =>
    rw [Eval.programDeeds,← List.append_assoc]
    exact ((Logging.all ctx budget).stmt s hm).bind fun _ m₁ _ hm₁ _ => ih hm₁

end

/-! ## Sessions -/

namespace Session

variable {s : Session} {log : List Deed}

theorem follows_perform (h : s.machine.Follows log) (r : Request) :
    (s.perform r).2.machine.Follows (log ++ s.deeds (.run r)) := by
  by_cases hload : (load s.nextIndex r.source).diagnostics = []
  · by_cases hclean : (resolve s.table (load s.nextIndex r.source).statements).faults = []
    · rw [(perform_of_resolved hload hclean).2,deeds,if_pos ⟨hload,hclean⟩]
      have hready : Machine.Follows log { s.machine with printed := [] } :=
        h.congr rfl rfl (Nat.le_refl _)
      exact (logs_program r.budget _ hready).follows
    · rw [(perform_of_unresolved hload hclean).2,deeds,if_neg fun hboth => hclean hboth.2,
        List.append_nil]
      exact h
  · rw [(perform_of_unreadable hload).2,deeds,if_neg fun hboth => hload hboth.1,List.append_nil]
    exact h

theorem follows_afterCalls (h : s.machine.Follows log) (calls : List Call) :
    (s.afterCalls calls).machine.Follows (log ++ s.allDeeds calls) := by
  induction calls generalizing s log with
  | nil =>
    rw [allDeeds,List.append_nil]
    exact h
  | cons c rest ih =>
    rw [allDeeds,← List.append_assoc]
    apply ih
    cases c with
    | run r => exact follows_perform h r
    | showTree source =>
      have hnext : (s.obey (.showTree source)).2 = _ := showTree_snd source
      rw [hnext,deeds,List.append_nil]
      exact h

/-- After some calls the machine follows the log of the session. -/
theorem follows_log (clock : Clock) (calls : List Call) :
    ((start clock).afterCalls calls).machine.Follows ((start clock).allDeeds calls) := by
  have hstart : (start clock).machine.Follows [] := Machine.follows_start clock
  exact follows_afterCalls hstart calls

/-- Every visit of a run is begun in a machine that follows the log of what was done before. -/
theorem MakesWith.follows {r : Request} {ds : List Deed} {v : Visit} (h : s.MakesWith r ds v)
    (hs : s.machine.Follows log) : v.machine.Follows (log ++ ds) ∧ v.task.Known (log ++ ds) := by
  obtain ⟨-,-,before,statement,rest,m,inner,-,hbefore,hbegins,rfl⟩ := h
  have hready : Machine.Follows log { s.machine with printed := [] } :=
    hs.congr rfl rfl (Nat.le_refl _)
  obtain ⟨hm,-⟩ := (logs_program r.budget before hready).of_ok hbefore
  rw [← List.append_assoc]
  exact hbegins.follows hm (Task.known_nil rfl)

end Session

end Scriptlet
