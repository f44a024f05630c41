import Scriptlet.Proofs.Environments
import Scriptlet.Proofs.Writes

/-! # The current environment is given back

Blocks, calls of functions and the bodies of derived classes are run in an environment of their own.
However they end, with a result, by a return or by an error at any depth, the environment that was
current before is current again, and it still is the environment that it was: environments are only
added, never taken away or moved. So a session stands at the globals whenever a run has ended.
-/
namespace Scriptlet

/-- A later machine has the same current environment, and all environments that there were. -/
structure Machine.Restored (m m' : Machine) : Prop where
  scope : m'.memory.scope = m.memory.scope
  store : m.memory.store.Extends m'.memory.store

namespace Machine.Restored

variable {m m' m'' : Machine}

theorem refl (m : Machine) : m.Restored m := ⟨rfl,.refl _⟩

theorem trans (h : m.Restored m') (h' : m'.Restored m'') : m.Restored m'' :=
  ⟨h'.scope.trans h.scope,h.store.trans h'.store⟩

/-- Only the memory counts. -/
theorem of_memory (h : m'.memory = m.memory) : m.Restored m' :=
  ⟨congrArg Memory.scope h,h ▸ .refl _⟩

end Machine.Restored

/-- Steps that give the current environment back, however they end. -/
def Restores {α : Type} (steps : Eval α) : Prop :=
  ∀ m : Machine, m.Restored (machineAfter (steps m))

namespace Restores

variable {α β : Type} {x : Eval α} {f : α → Eval β}

theorem pure (a : α) : Restores (pure a : Eval α) := fun m => .refl m

theorem throw (e : Abort) : Restores (throw e : Eval α) := fun m => .refl m

theorem get : Restores (get : Eval Machine) := fun m => .refl m

theorem bind (hx : Restores x) (hf : ∀ a, Restores (f a)) : Restores (x >>= f) := by
  intro m
  have hfirst := hx m
  change m.Restored (machineAfter (EStateM.bind x f m))
  unfold EStateM.bind
  cases hresult : x m with
  | error e m' =>
    rw [hresult] at hfirst
    exact hfirst
  | ok a m' =>
    rw [hresult] at hfirst
    exact hfirst.trans (hf a m')

/-- Going to another environment and back, however the steps end that are run there. -/
theorem inScope (hx : Restores x) (scope : EnvId) : Restores (Eval.inScope scope x) := by
  intro m
  have hinner := hx { m with memory.scope := scope }
  unfold Eval.inScope
  cases hresult : x { m with memory.scope := scope } with
  | error e m' =>
    rw [hresult] at hinner
    exact ⟨rfl,hinner.store⟩
  | ok a m' =>
    rw [hresult] at hinner
    exact ⟨rfl,hinner.store⟩

/-- Steps that change no environment. -/
theorem modifyGet {g : Machine → α × Machine} (h : ∀ m, (g m).2.memory = m.memory) :
    Restores (modifyGet g : Eval α) :=
  fun m => .of_memory (h m)

end Restores

section Steps

open Steps

variable {α : Type}

theorem restores_fault (error : EvalError) (token : Token) : Restores (fault error token : Eval α) :=
  .throw _

theorem restores_orFault (token : Token) (result : Except EvalError α) :
    Restores (orFault token result : Eval α) := by
  cases result with
  | ok a => exact .pure a
  | error e => exact restores_fault e token

theorem restores_orLost (result : Option α) : Restores (orLost result : Eval α) := by
  cases result with
  | some a => exact .pure a
  | none => exact .throw _

theorem restores_print (line : Bytes) : Restores (print line : Eval Unit) :=
  .modifyGet fun _ => rfl

theorem restores_newIdentity : Restores (newIdentity : Eval Nat) := .modifyGet fun _ => rfl

theorem restores_newFunction (f : Function) : Restores (newFunction f : Eval Value) :=
  restores_newIdentity.bind fun _ => .pure _

theorem restores_newObject (c : Class) : Restores (newObject c : Eval Value) :=
  .modifyGet fun _ => rfl

theorem restores_field? (object : Nat) (name : Bytes) :
    Restores (field? object name : Eval (Option Value)) :=
  Restores.get.bind fun _ => .pure _

theorem restores_setField (object : Nat) (name : Bytes) (value : Value) :
    Restores (setField object name value : Eval Unit) :=
  .modifyGet fun _ => rfl

theorem restores_callBuiltin (vars : NameMap Bytes) (paren : Token) (b : Builtin) (args : List Value) :
    Restores (callBuiltin vars paren b args : Eval Value) := by
  unfold callBuiltin
  split
  · exact .modifyGet fun _ => rfl
  · exact .pure _
  · exact .pure _
  · split
    · exact .pure _
    · exact .pure _
  · exact restores_fault _ _
  · exact .throw _

theorem restores_newEnv (enclosing : EnvId) (bindings : NameMap Value) :
    Restores (Eval.newEnv enclosing bindings) :=
  fun m => ⟨rfl,.push m.memory.store ⟨some enclosing,bindings⟩⟩

theorem restores_store (holder : EnvId) (name : Bytes) (value : Value) :
    Restores (Eval.store holder name value) :=
  fun m => ⟨rfl,.define m.memory.store holder name value⟩

theorem restores_define (name : Bytes) (value : Value) : Restores (Eval.define name value) :=
  Restores.get.bind fun m => restores_store m.memory.scope name value

theorem restores_bind (method : Function) (object : Value) : Restores (Eval.bind method object) :=
  (restores_newEnv _ _).bind fun _ => .pure _

theorem restores_readAt (scope : EnvId) (distance : Nat) (name : Bytes) (token : Token) :
    Restores (Eval.readAt scope distance name token) :=
  Restores.get.bind fun _ => (restores_orLost _).bind fun found => restores_orFault token found

variable (ctx : Context)

theorem restores_lookUp (name : Token) : Restores (Eval.lookUp ctx name) := by
  refine Restores.get.bind fun m => ?_
  split
  · exact restores_readAt _ _ _ _
  · exact restores_orFault _ _

theorem restores_holder (name : Token) : Restores (Eval.holder ctx name) := by
  refine Restores.get.bind fun m => ?_
  split
  · exact restores_orLost _
  · split
    · exact .pure _
    · exact restores_fault _ _

theorem restores_assign (name : Token) (value : Value) : Restores (Eval.assign ctx name value) :=
  (restores_holder ctx name).bind fun holder => restores_store holder name.lexeme value

theorem restores_methodFor (c : Class) (name : Token) (object : Value) :
    Restores (Eval.methodFor c name object) := by
  unfold Eval.methodFor
  split
  · exact (restores_bind _ object).bind fun f => restores_newFunction f
  · exact restores_fault _ _

theorem restores_property (object : Value) (name : Token) : Restores (Eval.property object name) := by
  unfold Eval.property
  split
  · refine (restores_field? _ _).bind fun found => ?_
    split
    · exact .pure _
    · exact restores_methodFor _ _ _
  · exact restores_fault _ _

theorem restores_superMethod (keyword method : Token) :
    Restores (Eval.superMethod ctx keyword method) := by
  refine Restores.get.bind fun m => ?_
  dsimp only
  split
  · exact restores_fault _ _
  · refine (restores_readAt _ _ _ _).bind fun parent => ?_
    refine (restores_readAt _ _ _ _).bind fun object => ?_
    split
    · exact restores_methodFor _ _ _
    · exact restores_fault _ _
    · exact restores_fault _ _

theorem restores_superclass? (superclass : Option Token) :
    Restores (Eval.superclass? ctx superclass) := by
  cases superclass with
  | none => exact .pure _
  | some token =>
    refine (restores_lookUp ctx token).bind fun value => ?_
    split
    · exact .pure _
    · exact restores_fault _ _

theorem restores_methodScope (scope : EnvId) (parent : Option Class) :
    Restores (Eval.methodScope scope parent) := by
  cases parent with
  | none => exact .pure _
  | some c => exact restores_newEnv _ _

end Steps

/-! ## Classes -/

/-- The methods of a class are created in the environment that is current then. -/
def Eval.createBody (name : Bytes) (methods : List FunctionDecl) : Eval ClassBody := do
  return .declared (← Steps.newIdentity) name (← get).memory.scope methods

theorem restores_createBody (name : Bytes) (methods : List FunctionDecl) :
    Restores (Eval.createBody name methods) :=
  restores_newIdentity.bind fun _ => Restores.get.bind fun _ => .pure _

/-- A class is declared in the environment of its methods, which the declaration enters and
leaves. -/
theorem declareClass_eq_inScope (ctx : Context) (name : Token) (superclass : Option Token)
    (methods : List FunctionDecl) :
    Eval.declareClass ctx name superclass methods = (do
      let parent ← Eval.superclass? ctx superclass
      Eval.define name.lexeme .nil
      let scope := (← get).memory.scope
      let closure ← Eval.methodScope scope parent
      let own ← Eval.inScope closure (Eval.createBody name.lexeme methods)
      Eval.store scope name.lexeme (.class_ (own.extending parent))) := rfl

theorem restores_declareClass (ctx : Context) (name : Token) (superclass : Option Token)
    (methods : List FunctionDecl) : Restores (Eval.declareClass ctx name superclass methods) := by
  rw [declareClass_eq_inScope]
  refine (restores_superclass? ctx superclass).bind fun parent => ?_
  refine (restores_define _ _).bind fun _ => Restores.get.bind fun m => ?_
  refine (restores_methodScope _ parent).bind fun closure => ?_
  refine ((restores_createBody _ _).inScope closure).bind fun own => ?_
  exact restores_store _ _ _

/-! ## Evaluation -/

/-- Every task with the given budget gives the current environment back. -/
structure Restoring (ctx : Context) (n : Nat) : Prop where
  expr : ∀ e, Restores (Eval.expr ctx n e)
  exprs : ∀ es, Restores (Eval.exprs ctx n es)
  call : ∀ paren callee args, Restores (Eval.call ctx n paren callee args)
  invoke : ∀ paren f args, Restores (Eval.invoke ctx n paren f args)
  stmt : ∀ s, Restores (Eval.stmt ctx n s)
  stmts : ∀ ss, Restores (Eval.stmts ctx n ss)

namespace Restoring

variable {ctx : Context} {n : Nat}

theorem zero (ctx : Context) : Restoring ctx 0 where
  expr _ := .throw _
  exprs _ := .throw _
  call _ _ _ := .throw _
  invoke _ _ _ := .throw _
  stmt _ := .throw _
  stmts _ := .throw _

theorem expr_succ (h : Restoring ctx n) (e : Expr) : Restores (Eval.expr ctx (n + 1) e) := by
  cases e with
  | literal value => exact .pure _
  | variable_ name => exact restores_lookUp ctx name
  | self keyword => exact restores_lookUp ctx keyword
  | superMethod keyword method => exact restores_superMethod ctx keyword method
  | grouping inner => exact h.expr inner
  | unary op token operand =>
    exact (h.expr operand).bind fun _ => (restores_orFault token _).bind fun _ => .pure _
  | binary op token left right =>
    refine (h.expr left).bind fun _ => (h.expr right).bind fun _ => ?_
    exact (restores_orFault token _).bind fun _ => .pure _
  | logical op left right =>
    refine (h.expr left).bind fun l => ?_
    split
    · exact .pure _
    · exact h.expr right
  | assign name value =>
    exact (h.expr value).bind fun v => (restores_assign ctx name v).bind fun _ => .pure _
  | get object name => exact (h.expr object).bind fun o => restores_property o name
  | set object name value =>
    refine (h.expr value).bind fun v => (h.expr object).bind fun o => ?_
    split
    · exact (restores_setField _ _ _).bind fun _ => .pure _
    · exact restores_fault _ _
  | call callee paren arguments =>
    exact (h.expr callee).bind fun f => (h.exprs arguments).bind fun args => h.call paren f args

theorem exprs_succ (h : Restoring ctx n) (es : List Expr) : Restores (Eval.exprs ctx (n + 1) es) := by
  cases es with
  | nil => exact .pure _
  | cons e rest => exact (h.expr e).bind fun _ => (h.exprs rest).bind fun _ => .pure _

theorem call_succ (h : Restoring ctx n) (paren : Token) (callee : Value) (args : List Value) :
    Restores (Eval.call ctx (n + 1) paren callee args) := by
  unfold Eval.call
  split
  · exact restores_fault _ _
  split
  · exact restores_fault _ _
  · cases callee with
    | builtin b => exact restores_callBuiltin _ paren b args
    | function id f => exact h.invoke paren f args
    | class_ c =>
      refine (restores_newObject c).bind fun object => ?_
      split
      · exact .pure _
      · refine (restores_bind _ object).bind fun f => ?_
        exact (h.invoke paren f args).bind fun _ => .pure _
    | _ => exact restores_fault _ _

theorem invoke_succ (h : Restoring ctx n) (paren : Token) (f : Function) (args : List Value) :
    Restores (Eval.invoke ctx (n + 1) paren f args) := by
  rw [Eval.invoke]
  refine (restores_orLost _).bind fun bindings => (restores_newEnv _ _).bind fun scope => ?_
  refine ((h.stmts f.decl.body).inScope scope).bind fun outcome => ?_
  split
  · exact restores_readAt _ _ _ _
  · exact .pure _

theorem stmt_succ (h : Restoring ctx n) (s : Stmt) : Restores (Eval.stmt ctx (n + 1) s) := by
  cases s with
  | expression value => exact (h.expr value).bind fun _ => .pure _
  | print value =>
    exact (h.expr value).bind fun v => (restores_print _).bind fun _ => .pure _
  | varDecl name initial =>
    cases initial with
    | none => exact (restores_define _ _).bind fun _ => .pure _
    | some value =>
      exact (h.expr value).bind fun v => (restores_define _ v).bind fun _ => .pure _
  | block body =>
    refine Restores.get.bind fun m => (restores_newEnv _ _).bind fun scope => ?_
    exact (h.stmts body).inScope scope
  | ifElse condition thenBranch elseBranch =>
    refine (h.expr condition).bind fun c => ?_
    split
    · exact h.stmt thenBranch
    split
    · exact h.stmt _
    · exact .pure _
  | while_ condition body =>
    refine (h.expr condition).bind fun c => ?_
    split
    · refine (h.stmt body).bind fun outcome => ?_
      split
      · exact h.stmt (.while_ condition body)
      · exact .pure _
    · exact .pure _
  | return_ keyword value =>
    cases value with
    | none => exact .pure _
    | some value => exact (h.expr value).bind fun _ => .pure _
  | funDecl decl =>
    refine Restores.get.bind fun m => (restores_newFunction _).bind fun f => ?_
    exact (restores_define _ f).bind fun _ => .pure _
  | classDecl name superclass methods =>
    exact (restores_declareClass ctx name superclass methods).bind fun _ => .pure _

theorem stmts_succ (h : Restoring ctx n) (ss : List Stmt) : Restores (Eval.stmts ctx (n + 1) ss) := by
  cases ss with
  | nil => exact .pure _
  | cons s rest =>
    refine (h.stmt s).bind fun outcome => ?_
    split
    · exact h.stmts rest
    · exact .pure _

theorem all (ctx : Context) (n : Nat) : Restoring ctx n := by
  induction n with
  | zero => exact zero ctx
  | succ n ih =>
    exact ⟨ih.expr_succ,ih.exprs_succ,ih.call_succ,ih.invoke_succ,ih.stmt_succ,ih.stmts_succ⟩

end Restoring

theorem restores_task (ctx : Context) (n : Nat) (t : Task) : Restores (t.run ctx n) := by
  have hall := Restoring.all ctx n
  cases t with
  | expr e => exact hall.expr e
  | exprs es => exact hall.exprs es
  | call paren callee args => exact hall.call paren callee args
  | invoke paren f args => exact hall.invoke paren f args
  | stmt s => exact hall.stmt s
  | stmts ss => exact hall.stmts ss

/-- A program is left at its first error, with the environment that was current before. -/
theorem restores_program (ctx : Context) (budget : Nat) (program : List Stmt) :
    Restores (Eval.program ctx budget program) := by
  induction program with
  | nil => exact .pure _
  | cons s rest ih => exact ((Restoring.all ctx budget).stmt s).bind fun _ => ih

/-! ## Sessions -/

theorem Session.scope_perform (s : Session) (r : Request) :
    (s.perform r).2.machine.memory.scope = s.machine.memory.scope := by
  by_cases hload : (load s.nextIndex r.source).diagnostics = []
  · by_cases hclean : (resolve s.table (load s.nextIndex r.source).statements).faults = []
    · rw [(perform_of_resolved hload hclean).2]
      exact (restores_program _ _ _ { s.machine with printed := [] }).scope
    · rw [(perform_of_unresolved hload hclean).2]
      rfl
  · rw [(perform_of_unreadable hload).2]
    rfl

/-- Whatever is evaluated, and however that ends, the current environment is the one it was before:
for every task of the evaluator, for a block in any environment, and for the declaration of a class.
So after all calls of a session the globals are current. -/
theorem current_environment_restored :
    (∀ (ctx : Context) (n : Nat) (t : Task) (m : Machine),
      m.Restored (machineAfter (t.run ctx n m))) ∧
    (∀ (ctx : Context) (n : Nat) (scope : EnvId) (ss : List Stmt) (m : Machine),
      m.Restored (machineAfter (Eval.inScope scope (Eval.stmts ctx n ss) m))) ∧
    (∀ (ctx : Context) (name : Token) (superclass : Option Token) (methods : List FunctionDecl)
      (m : Machine), m.Restored (machineAfter (Eval.declareClass ctx name superclass methods m))) ∧
    ∀ (clock : Clock) (calls : List Session.Call),
      ((Session.start clock).afterCalls calls).machine.memory.scope = globalScope := by
  refine ⟨restores_task,fun ctx n scope ss => ?_,restores_declareClass,fun clock calls => ?_⟩
  · exact ((Restoring.all ctx n).stmts ss).inScope scope
  · exact Session.afterCalls_induction (P := fun s => s.machine.memory.scope = globalScope) rfl
      (fun s r hs => (s.scope_perform r).trans hs) (fun _ _ hs => hs) calls

end Scriptlet
