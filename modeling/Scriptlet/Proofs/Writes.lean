import Scriptlet.Proofs.Calls
import Scriptlet.Proofs.Visits

/-! # What a run writes

Declarations and assignments bind names in environments that exist already. A task calls others, in
a fixed order, and only after them binds names itself; so the writes of a run are those of its visits
in the order in which the visits end. The names that a new environment is created with are not
writes.
-/
namespace Scriptlet

/-- What follows on steps that have a result. -/
def onResult {α β : Type} (result : EStateM.Result Abort Machine α) (next : α → Machine → List β) :
    List β :=
  match result with
  | .ok a m => next a m
  | .error _ _ => []

section

variable {α β γ : Type} {result : EStateM.Result Abort Machine α}

@[simp] theorem onResult_ok {a : α} {m : Machine} {next : α → Machine → List β} :
    onResult (.ok a m) next = next a m := rfl

@[simp] theorem onResult_error {e : Abort} {m : Machine} {next : α → Machine → List β} :
    onResult (.error e m) next = [] := rfl

@[simp] theorem onResult_nil : onResult result (fun _ _ => ([] : List β)) = [] := by
  cases result <;> rfl

@[simp] theorem flatMap_onResult {next : α → Machine → List β} {f : β → List γ} :
    (onResult result next).flatMap f = onResult result fun a m => (next a m).flatMap f := by
  cases result <;> rfl

end

/-- Steps with a result are steps that have results one after the other. -/
theorem Eval.of_bind_ok {α β : Type} {x : Eval α} {f : α → Eval β} {m m' : Machine} {b : β}
    (h : (x >>= f) m = .ok b m') : ∃ a m₁, x m = .ok a m₁ ∧ f a m₁ = .ok b m' := by
  change EStateM.bind x f m = .ok b m' at h
  unfold EStateM.bind at h
  cases hx : x m with
  | error e m₁ =>
    rw [hx] at h
    cases h
  | ok a m₁ =>
    rw [hx] at h
    exact ⟨a,m₁,rfl,h⟩

theorem Eval.of_inScope_ok {α : Type} {x : Eval α} {scope : EnvId} {m m' : Machine} {a : α}
    (h : Eval.inScope scope x m = .ok a m') :
    ∃ m₁, x { m with memory.scope := scope } = .ok a m₁ ∧
      m' = { m₁ with memory.scope := m.memory.scope } := by
  unfold Eval.inScope at h
  cases hx : x { m with memory.scope := scope } with
  | error e m₁ =>
    rw [hx] at h
    cases h
  | ok b m₁ =>
    rw [hx] at h
    cases h
    exact ⟨m₁,rfl,rfl⟩

/-! ## Writes -/

/-- A name is bound in an environment, to a value or by a declaration that gives it none. -/
structure Write where
  env : EnvId
  name : Bytes
  value? : Option Value

namespace Write

/-- What the name is bound to by it. -/
def bound (w : Write) : Value := w.value?.getD .uninitialized

/-- The last one of some writes to a name of an environment. -/
def last? (ws : List Write) (env : EnvId) (name : Bytes) : Option Write :=
  (ws.filter fun w => w.env = env ∧ w.name = name).getLast?

variable {ws : List Write} {w : Write} {env : EnvId} {name : Bytes}

theorem last?_append_singleton :
    last? (ws ++ [w]) env name = if w.env = env ∧ w.name = name then some w else last? ws env name := by
  by_cases h : w.env = env ∧ w.name = name
  · simp [last?,h,List.getLast?_append]
  · simp [last?,h]

theorem of_last? (h : last? ws env name = some w) : w ∈ ws ∧ w.env = env ∧ w.name = name := by
  simpa using List.mem_filter.1 (List.mem_of_getLast? h)

end Write

/-! ## Tasks -/

namespace Task

/-- What a task gives. -/
def Result : Task → Type
  | .expr _ | .call _ _ _ | .invoke _ _ _ => Value
  | .exprs _ => List Value
  | .stmt _ | .stmts _ => Outcome

variable (ctx : Context)

def run (n : Nat) : (t : Task) → Eval t.Result
  | .expr e => Eval.expr ctx n e
  | .exprs es => Eval.exprs ctx n es
  | .call paren callee args => Eval.call ctx n paren callee args
  | .invoke paren f args => Eval.invoke ctx n paren f args
  | .stmt s => Eval.stmt ctx n s
  | .stmts ss => Eval.stmts ctx n ss

/-- The values that a task is given. -/
def arguments : Task → List Value
  | .call _ callee args => callee :: args
  | .invoke _ _ args => args
  | _ => []

/-- The values in what a task gives. -/
def values : (t : Task) → t.Result → List Value
  | .expr _, value | .call _ _ _, value | .invoke _ _ _, value => [value]
  | .exprs _, values => values
  | .stmt _, .returned value | .stmts _, .returned value => [value]
  | .stmt _, .normal | .stmts _, .normal => []

/-- The tasks that a task calls directly, in order and each with the state in which it is begun. The
budget is that of the called tasks. -/
def callees (n : Nat) : Task → Machine → List (Task × Machine)
  | .expr e, m =>
    match e with
    | .grouping inner => [(.expr inner,m)]
    | .unary _ _ operand => [(.expr operand,m)]
    | .binary _ _ left right =>
      (.expr left,m) :: onResult (Eval.expr ctx n left m) fun _ m => [(.expr right,m)]
    | .logical op left right =>
      (.expr left,m) :: onResult (Eval.expr ctx n left m) fun l m =>
        if l.truthy = (op == .or) then [] else [(.expr right,m)]
    | .assign _ value => [(.expr value,m)]
    | .get object _ => [(.expr object,m)]
    | .set object _ value =>
      (.expr value,m) :: onResult (Eval.expr ctx n value m) fun _ m => [(.expr object,m)]
    | .call callee paren arguments =>
      (.expr callee,m) :: onResult (Eval.expr ctx n callee m) fun f m =>
        (.exprs arguments,m) :: onResult (Eval.exprs ctx n arguments m) fun args m =>
          [(.call paren f args,m)]
    | _ => []
  | .exprs [], _ => []
  | .exprs (e :: rest), m =>
    (.expr e,m) :: onResult (Eval.expr ctx n e m) fun _ m => [(.exprs rest,m)]
  | .call paren callee args, m =>
    if callee.arity? = some args.length then
      match callee with
      | .function _ f => [(.invoke paren f args,m)]
      | .class_ c =>
        match c.findMethod? initializerName with
        | some method =>
          onResult (Steps.newObject c m) fun object m =>
            onResult (Eval.bind method object m) fun f m => [(.invoke paren f args,m)]
        | none => []
      | _ => []
    else []
  | .invoke _ f args, m =>
    match Eval.bindParameters f.decl.params args .empty with
    | some bindings =>
      onResult (Eval.newEnv f.closure bindings m) fun scope m =>
        [(.stmts f.decl.body,{ m with memory.scope := scope })]
    | none => []
  | .stmt s, m =>
    match s with
    | .expression value | .print value | .varDecl _ (some value) | .return_ _ (some value) =>
      [(.expr value,m)]
    | .block body =>
      onResult (Eval.newEnv m.memory.scope .empty m) fun scope m =>
        [(.stmts body,{ m with memory.scope := scope })]
    | .ifElse condition thenBranch elseBranch =>
      (.expr condition,m) :: onResult (Eval.expr ctx n condition m) fun c m =>
        if c.truthy then [(.stmt thenBranch,m)]
        else elseBranch.toList.map fun branch => (.stmt branch,m)
    | .while_ condition body =>
      (.expr condition,m) :: onResult (Eval.expr ctx n condition m) fun c m =>
        if c.truthy then
          (.stmt body,m) :: onResult (Eval.stmt ctx n body m) fun outcome m =>
            match outcome with
            | .normal => [(.stmt (.while_ condition body),m)]
            | .returned _ => []
        else []
    | _ => []
  | .stmts [], _ => []
  | .stmts (s :: rest), m =>
    (.stmt s,m) :: onResult (Eval.stmt ctx n s m) fun outcome m =>
      match outcome with
      | .normal => [(.stmts rest,m)]
      | .returned _ => []

end Task

namespace Eval

variable (ctx : Context) (name : Token) (superclass : Option Token) (methods : List FunctionDecl)

/-- All of the declaration of a class but its last step, which binds the name to the class. -/
def createClass : Eval Class := do
  let parent ← superclass? ctx superclass
  define name.lexeme .nil
  let closure ← methodScope (← get).memory.scope parent
  return (ClassBody.declared (← Steps.newIdentity) name.lexeme closure methods).extending parent

theorem declareClass_eq : declareClass ctx name superclass methods = (do
    let c ← createClass ctx name superclass methods
    define name.lexeme (.class_ c)) := by
  funext m
  simp only [declareClass,createClass,Bind.bind,EStateM.bind]
  cases superclass? ctx superclass m with
  | error e m' => rfl
  | ok parent m' => cases parent <;> rfl

end Eval

namespace Task

variable (ctx : Context)

/-- What a task writes itself, after the tasks that it calls. -/
def ownWrites (n : Nat) : Task → Machine → List Write
  | .expr (.assign name value), m =>
    onResult (Eval.expr ctx n value m) fun v m =>
      onResult (Eval.holder ctx name m) fun holder _ => [⟨holder,name.lexeme,some v⟩]
  | .stmt (.varDecl name none), m => [⟨m.memory.scope,name.lexeme,none⟩]
  | .stmt (.varDecl name (some value)), m =>
    onResult (Eval.expr ctx n value m) fun v m => [⟨m.memory.scope,name.lexeme,some v⟩]
  | .stmt (.funDecl decl), m =>
    onResult (Steps.newFunction ⟨decl,m.memory.scope,false⟩ m) fun f m =>
      [⟨m.memory.scope,decl.name.lexeme,some f⟩]
  | .stmt (.classDecl name superclass methods), m =>
    (onResult (Eval.superclass? ctx superclass m) fun _ m => [⟨m.memory.scope,name.lexeme,some .nil⟩]) ++
      onResult (Eval.createClass ctx name superclass methods m) fun c m =>
        [⟨m.memory.scope,name.lexeme,some (.class_ c)⟩]
  | _, _ => []

/-- All that is written while a task runs. -/
def writes : Nat → Task → Machine → List Write
  | 0, _, _ => []
  | n + 1, t, m => (t.callees ctx n m).flatMap (fun c => writes n c.1 c.2) ++ t.ownWrites ctx n m

end Task

/-- The second visit is begun while the first one is made, after the given writes. -/
inductive Visit.Begins (ctx : Context) (top : Visit) : List Write → Visit → Prop
  | self : Begins ctx top [] top
  | call {n : Nat} {t t' : Task} {m m' : Machine} {ws : List Write}
      {before rest : List (Task × Machine)} : Begins ctx top ws ⟨n + 1,t,m⟩ →
      t.callees ctx n m = before ++ (t',m') :: rest →
      Begins ctx top (ws ++ before.flatMap fun c => c.1.writes ctx n c.2) ⟨n,t',m'⟩

/-- All that is written while a program runs. -/
def Eval.programWrites (ctx : Context) (budget : Nat) : List Stmt → Machine → List Write
  | [], _ => []
  | s :: rest, m => (Task.stmt s).writes ctx budget m ++
      onResult (Eval.stmt ctx budget s m) fun _ m => programWrites ctx budget rest m

namespace Session

/-- All that is written during a call. -/
def writes (s : Session) : Call → List Write
  | .run r =>
    let loaded := load s.nextIndex r.source
    let resolved := resolve s.table loaded.statements
    if loaded.diagnostics = [] ∧ resolved.faults = [] then
      Eval.programWrites ⟨resolved.table,r.processVars⟩ r.budget loaded.statements
        { s.machine with printed := [] }
    else []
  | .showTree _ => []

/-- All that is written during some calls. -/
def allWrites (s : Session) : List Call → List Write
  | [] => []
  | c :: rest => s.writes c ++ (s.obey c).2.allWrites rest

/-- The run of a source makes a visit, which is begun after the given writes of the run. -/
def MakesAfter (s : Session) (r : Request) (ws : List Write) (v : Visit) : Prop :=
  let loaded := load s.nextIndex r.source
  let resolved := resolve s.table loaded.statements
  let ctx : Context := ⟨resolved.table,r.processVars⟩
  loaded.diagnostics = [] ∧ resolved.faults = [] ∧
    ∃ before statement rest m inner, loaded.statements = before ++ statement :: rest ∧
      Eval.program ctx r.budget before { s.machine with printed := [] } = .ok () m ∧
      Visit.Begins ctx ⟨r.budget,.stmt statement,m⟩ inner v ∧
      ws = Eval.programWrites ctx r.budget before { s.machine with printed := [] } ++ inner

end Session

/-! ## Every visit has its place among the writes -/

theorem Visit.Calls.mem_callees {ctx : Context} {u v : Visit} (h : Calls ctx u v) :
    u.budget = v.budget + 1 ∧ (v.task,v.machine) ∈ u.task.callees ctx v.budget u.machine := by
  cases h with
  | binaryRight hl | setObject hl | arguments hl | restExprs hl => simp [Task.callees,hl]
  | logicalRight hl htruthy => simp [Task.callees,hl,htruthy]
  | application hf hargs => simp [Task.callees,hf,hargs]
  | function hlength => simp [Task.callees,Value.arity?,hlength]
  | initializer hmethod hlength hobject hbind =>
    simp [Task.callees,Value.arity?,hmethod,hlength,hobject,hbind]
  | body hparams henv => simp [Task.callees,hparams,henv]
  | block henv => simp [Task.callees,henv]
  | thenBranch hc htruthy | elseBranch hc htruthy => simp [Task.callees,hc,htruthy]
  | whileBody hc htruthy => simp [Task.callees,hc,htruthy]
  | whileAgain hc htruthy hbody => simp [Task.callees,hc,htruthy,hbody]
  | restStmts hs => simp [Task.callees,hs]
  | _ => simp [Task.callees]

theorem Visit.Reaches.begins {ctx : Context} {u v : Visit} (h : Reaches ctx u v) :
    ∃ ws, Begins ctx u ws v := by
  induction h with
  | self => exact ⟨[],.self⟩
  | @call caller v _ hcall ih =>
    obtain ⟨ws,hbegins⟩ := ih
    obtain ⟨hbudget,hmem⟩ := hcall.mem_callees
    obtain ⟨before,rest,hsplit⟩ := List.append_of_mem hmem
    obtain ⟨budget,task,machine⟩ := caller
    obtain rfl : budget = v.budget + 1 := hbudget
    exact ⟨_,.call hbegins hsplit⟩

/-- Every visit that a run makes is begun after some of the writes. -/
theorem Session.Makes.after {s : Session} {r : Request} {v : Visit} (h : s.Makes r v) :
    ∃ ws, s.MakesAfter r ws v := by
  obtain ⟨hload,hclean,before,statement,rest,m,hsplit,hbefore,hreach⟩ := h
  obtain ⟨inner,hbegins⟩ := hreach.begins
  exact ⟨_,hload,hclean,before,statement,rest,m,inner,hsplit,hbefore,hbegins,rfl⟩

end Scriptlet
