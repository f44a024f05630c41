import Scriptlet.Proofs.Histories

/-! # The evaluations inside of a run

Which evaluations a run is made of. A visit is a task together with the state of the machine in
which it is begun. Visits call others directly, one rule for each place where the evaluator calls
itself; what a run visits is what its statements reach that way.
-/
namespace Scriptlet

/-- What the evaluator can be asked to do. -/
inductive Task where
  | expr (e : Expr)
  | exprs (es : List Expr)
  | call (paren : Token) (callee : Value) (args : List Value)
  | invoke (paren : Token) (f : Function) (args : List Value)
  | stmt (s : Stmt)
  | stmts (ss : List Stmt)

/-- A task that is begun with a budget in a state of the machine. -/
structure Visit where
  budget : Nat
  task : Task
  machine : Machine

/-- Steps that abort from a state of the machine. -/
def Aborts {α : Type} (steps : Eval α) (m : Machine) (e : Abort) : Prop := ∃ m', steps m = .error e m'

def Visit.Fails (ctx : Context) (v : Visit) (e : Abort) : Prop :=
  match v.task with
  | .expr expr => Aborts (Eval.expr ctx v.budget expr) v.machine e
  | .exprs es => Aborts (Eval.exprs ctx v.budget es) v.machine e
  | .call paren callee args => Aborts (Eval.call ctx v.budget paren callee args) v.machine e
  | .invoke paren f args => Aborts (Eval.invoke ctx v.budget paren f args) v.machine e
  | .stmt s => Aborts (Eval.stmt ctx v.budget s) v.machine e
  | .stmts ss => Aborts (Eval.stmts ctx v.budget ss) v.machine e

/-- The first visit calls the second directly. -/
inductive Visit.Calls (ctx : Context) : Visit → Visit → Prop
  | grouping {n m inner} : Calls ctx ⟨n + 1,.expr (.grouping inner),m⟩ ⟨n,.expr inner,m⟩
  | operand {n m op token operand} :
      Calls ctx ⟨n + 1,.expr (.unary op token operand),m⟩ ⟨n,.expr operand,m⟩
  | binaryLeft {n m op token left right} :
      Calls ctx ⟨n + 1,.expr (.binary op token left right),m⟩ ⟨n,.expr left,m⟩
  | binaryRight {n m op token left right v m'} : Eval.expr ctx n left m = .ok v m' →
      Calls ctx ⟨n + 1,.expr (.binary op token left right),m⟩ ⟨n,.expr right,m'⟩
  | logicalLeft {n m op left right} :
      Calls ctx ⟨n + 1,.expr (.logical op left right),m⟩ ⟨n,.expr left,m⟩
  | logicalRight {n m op left right v m'} : Eval.expr ctx n left m = .ok v m' →
      v.truthy ≠ (op == .or) →
      Calls ctx ⟨n + 1,.expr (.logical op left right),m⟩ ⟨n,.expr right,m'⟩
  | assigned {n m name value} : Calls ctx ⟨n + 1,.expr (.assign name value),m⟩ ⟨n,.expr value,m⟩
  | getObject {n m object name} : Calls ctx ⟨n + 1,.expr (.get object name),m⟩ ⟨n,.expr object,m⟩
  | setValue {n m object name value} :
      Calls ctx ⟨n + 1,.expr (.set object name value),m⟩ ⟨n,.expr value,m⟩
  | setObject {n m object name value v m'} : Eval.expr ctx n value m = .ok v m' →
      Calls ctx ⟨n + 1,.expr (.set object name value),m⟩ ⟨n,.expr object,m'⟩
  | callee {n m callee paren arguments} :
      Calls ctx ⟨n + 1,.expr (.call callee paren arguments),m⟩ ⟨n,.expr callee,m⟩
  | arguments {n m callee paren arguments f m'} : Eval.expr ctx n callee m = .ok f m' →
      Calls ctx ⟨n + 1,.expr (.call callee paren arguments),m⟩ ⟨n,.exprs arguments,m'⟩
  | application {n m callee paren arguments f m' args m''} :
      Eval.expr ctx n callee m = .ok f m' → Eval.exprs ctx n arguments m' = .ok args m'' →
      Calls ctx ⟨n + 1,.expr (.call callee paren arguments),m⟩ ⟨n,.call paren f args,m''⟩
  | firstExpr {n m e rest} : Calls ctx ⟨n + 1,.exprs (e :: rest),m⟩ ⟨n,.expr e,m⟩
  | restExprs {n m e rest v m'} : Eval.expr ctx n e m = .ok v m' →
      Calls ctx ⟨n + 1,.exprs (e :: rest),m⟩ ⟨n,.exprs rest,m'⟩
  | function {n m paren id f args} : args.length = f.arity →
      Calls ctx ⟨n + 1,.call paren (.function id f) args,m⟩ ⟨n,.invoke paren f args,m⟩
  | initializer {n m paren c args method object m' f m''} :
      c.findMethod? initializerName = some method → args.length = method.arity →
      Steps.newObject c m = .ok object m' → Eval.bind method object m' = .ok f m'' →
      Calls ctx ⟨n + 1,.call paren (.class_ c) args,m⟩ ⟨n,.invoke paren f args,m''⟩
  | body {n m paren f args bindings scope m'} :
      Eval.bindParameters f.decl.params args .empty = some bindings →
      Eval.newEnv f.closure bindings m = .ok scope m' →
      Calls ctx ⟨n + 1,.invoke paren f args,m⟩
        ⟨n,.stmts f.decl.body,{ m' with memory.scope := scope }⟩
  | expression {n m value} : Calls ctx ⟨n + 1,.stmt (.expression value),m⟩ ⟨n,.expr value,m⟩
  | print {n m value} : Calls ctx ⟨n + 1,.stmt (.print value),m⟩ ⟨n,.expr value,m⟩
  | initial {n m name value} :
      Calls ctx ⟨n + 1,.stmt (.varDecl name (some value)),m⟩ ⟨n,.expr value,m⟩
  | block {n m body scope m'} : Eval.newEnv m.memory.scope .empty m = .ok scope m' →
      Calls ctx ⟨n + 1,.stmt (.block body),m⟩ ⟨n,.stmts body,{ m' with memory.scope := scope }⟩
  | ifCondition {n m condition thenBranch elseBranch} :
      Calls ctx ⟨n + 1,.stmt (.ifElse condition thenBranch elseBranch),m⟩ ⟨n,.expr condition,m⟩
  | thenBranch {n m condition thenBranch elseBranch v m'} :
      Eval.expr ctx n condition m = .ok v m' → v.truthy = true →
      Calls ctx ⟨n + 1,.stmt (.ifElse condition thenBranch elseBranch),m⟩ ⟨n,.stmt thenBranch,m'⟩
  | elseBranch {n m condition thenBranch elseBranch v m'} :
      Eval.expr ctx n condition m = .ok v m' → v.truthy = false →
      Calls ctx ⟨n + 1,.stmt (.ifElse condition thenBranch (some elseBranch)),m⟩
        ⟨n,.stmt elseBranch,m'⟩
  | whileCondition {n m condition body} :
      Calls ctx ⟨n + 1,.stmt (.while_ condition body),m⟩ ⟨n,.expr condition,m⟩
  | whileBody {n m condition body v m'} :
      Eval.expr ctx n condition m = .ok v m' → v.truthy = true →
      Calls ctx ⟨n + 1,.stmt (.while_ condition body),m⟩ ⟨n,.stmt body,m'⟩
  | whileAgain {n m condition body v m' m''} :
      Eval.expr ctx n condition m = .ok v m' → v.truthy = true →
      Eval.stmt ctx n body m' = .ok .normal m'' →
      Calls ctx ⟨n + 1,.stmt (.while_ condition body),m⟩ ⟨n,.stmt (.while_ condition body),m''⟩
  | returned {n m keyword value} :
      Calls ctx ⟨n + 1,.stmt (.return_ keyword (some value)),m⟩ ⟨n,.expr value,m⟩
  | firstStmt {n m s rest} : Calls ctx ⟨n + 1,.stmts (s :: rest),m⟩ ⟨n,.stmt s,m⟩
  | restStmts {n m s rest m'} : Eval.stmt ctx n s m = .ok .normal m' →
      Calls ctx ⟨n + 1,.stmts (s :: rest),m⟩ ⟨n,.stmts rest,m'⟩

/-- The second visit is made while the first one is. -/
inductive Visit.Reaches (ctx : Context) (v : Visit) : Visit → Prop
  | self : Reaches ctx v v
  | call {u u' : Visit} : Reaches ctx v u → Visit.Calls ctx u u' → Reaches ctx v u'

/-- A task that evaluates expressions. -/
def Task.IsExpr : Task → Prop
  | .expr _ | .exprs _ => True
  | _ => False

/-- The second visit evaluates a part of an expression of the first one, with no call of a function
in between. -/
inductive Visit.Within (ctx : Context) (u : Visit) : Visit → Prop
  | whole {v : Visit} : Visit.Calls ctx u v → v.task.IsExpr → Within ctx u v
  | part {v v' : Visit} : Within ctx u v → Visit.Calls ctx v v' → v'.task.IsExpr → Within ctx u v'

/-- The run of a source makes a visit, while it evaluates one of the statements. -/
def Session.Makes (s : Session) (r : Request) (v : Visit) : Prop :=
  let loaded := load s.nextIndex r.source
  let resolved := resolve s.table loaded.statements
  let ctx : Context := ⟨resolved.table,r.processVars⟩
  loaded.diagnostics = [] ∧ resolved.faults = [] ∧
    ∃ before statement rest m, loaded.statements = before ++ statement :: rest ∧
      Eval.program ctx r.budget before { s.machine with printed := [] } = .ok () m ∧
      Visit.Reaches ctx ⟨r.budget,.stmt statement,m⟩ v

/-! ## Expressions in statements -/

namespace Visit

variable {ctx : Context} {u v : Visit}

/-- Nothing but a statement and an expression evaluates expressions directly. -/
theorem Calls.statement (h : Calls ctx u v) (hv : v.task.IsExpr) (hu : ¬ u.task.IsExpr) :
    ∃ s, u.task = .stmt s := by
  cases h with
  | function | initializer | body | restStmts => exact hv.elim
  | firstStmt => exact hv.elim
  | grouping | operand | binaryLeft | binaryRight | logicalLeft | logicalRight | assigned | getObject
  | setValue | setObject | callee | arguments | application | firstExpr | restExprs =>
    exact absurd trivial hu
  | _ => exact ⟨_,rfl⟩

/-- Every expression that is evaluated while a statement runs belongs to a statement that runs. -/
theorem Reaches.statement (h : Reaches ctx u v) (hv : v.task.IsExpr) (hu : ¬ u.task.IsExpr) :
    ∃ top s, Reaches ctx u top ∧ top.task = .stmt s ∧ Within ctx top v := by
  induction h with
  | self => exact absurd hv hu
  | @call caller v hreach hcall ih =>
    by_cases hcaller : caller.task.IsExpr
    · obtain ⟨top,s,htop,hs,hwithin⟩ := ih hcaller
      exact ⟨top,s,htop,hs,.part hwithin hcall hv⟩
    · obtain ⟨s,hs⟩ := hcall.statement hv hcaller
      exact ⟨caller,s,hreach,hs,.whole hcall hv⟩

end Visit

/-! ## Visits are made

A visit that aborts takes along the visits that it was called from, so it is really a part of the
run.
-/

namespace Aborts

variable {α β : Type} {x : Eval α} {f : α → Eval β} {m m' : Machine} {a : α} {e : Abort}

theorem first (h : Aborts x m e) : Aborts (x >>= f) m e := by
  obtain ⟨m',hx⟩ := h
  exact ⟨m',by simp [bind,EStateM.bind,hx]⟩

theorem second (hx : x m = .ok a m') (h : Aborts (f a) m' e) : Aborts (x >>= f) m e := by
  obtain ⟨m'',hf⟩ := h
  exact ⟨m'',by simp [bind,EStateM.bind,hx,hf]⟩

theorem inScope {scope : EnvId} (h : Aborts x { m with memory.scope := scope } e) :
    Aborts (Eval.inScope scope x) m e := by
  obtain ⟨m',hx⟩ := h
  unfold Aborts Eval.inScope
  rw [hx]
  exact ⟨_,rfl⟩

end Aborts

namespace Visit

variable {ctx : Context} {u v : Visit} {e : Abort}

theorem Calls.fails (h : Calls ctx u v) (hv : v.Fails ctx e) : u.Fails ctx e := by
  cases h with
  | grouping => exact hv
  | binaryRight hl => exact .second hl (.first hv)
  | logicalRight hl htruthy =>
    refine Aborts.second hl ?_
    rw [if_neg htruthy]
    exact hv
  | setObject hvalue => exact .second hvalue (.first hv)
  | arguments hf => exact .second hf (.first hv)
  | application hf hargs => exact .second hf (.second hargs hv)
  | restExprs hfirst => exact .second hfirst (.first hv)
  | function hlength =>
    simpa [Visit.Fails,Eval.call,Value.arity?,hlength] using hv
  | initializer hmethod hlength hobject hbind =>
    simp only [Visit.Fails,Eval.call,Value.arity?,hmethod,hlength,Option.map_some,Option.getD_some,
      ne_eq,not_true_eq_false,if_false]
    refine Aborts.second hobject ?_
    exact Aborts.second hbind (.first hv)
  | body hparams henv =>
    simp only [Visit.Fails,Eval.invoke,hparams]
    exact Aborts.second rfl (.second henv (.first (.inScope hv)))
  | block henv => exact .second rfl (.second henv (.inScope hv))
  | thenBranch hc htruthy =>
    refine Aborts.second hc ?_
    rw [htruthy]
    exact hv
  | elseBranch hc htruthy =>
    refine Aborts.second hc ?_
    rw [htruthy]
    exact hv
  | whileBody hc htruthy =>
    refine Aborts.second hc ?_
    rw [htruthy]
    exact Aborts.first hv
  | whileAgain hc htruthy hbody =>
    refine Aborts.second hc ?_
    rw [htruthy]
    exact Aborts.second hbody hv
  | restStmts hfirst => exact .second hfirst hv
  | _ => exact .first hv

theorem Reaches.fails (h : Reaches ctx u v) (hv : v.Fails ctx e) : u.Fails ctx e := by
  induction h with
  | self => exact hv
  | call _ hcall ih => exact ih (hcall.fails hv)

end Visit

/-- A visit that fails ends the run that makes it. -/
theorem Session.Makes.fails {s : Session} {r : Request} {v : Visit} {e : Abort} (h : s.Makes r v)
    (hv : v.Fails ⟨(s.perform r).2.table,r.processVars⟩ e) : ∃ m, s.evaluation r = .error e m := by
  obtain ⟨hload,hclean,before,statement,rest,m,hsplit,hbefore,hreach⟩ := h
  rw [(perform_of_resolved hload hclean).2] at hv
  have hstatement := hreach.fails hv
  rw [evaluation,hsplit,Eval.program_append]
  rw [hsplit] at hbefore hstatement
  exact Aborts.second hbefore (.first hstatement)

end Scriptlet
