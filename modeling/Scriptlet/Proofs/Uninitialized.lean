import Scriptlet.Proofs.Writes.Evaluation

/-! # Variables without a value

A variable that is declared without initializer is bound to a mark until it is given a value. The
mark never gets out: no evaluation gives it, and no argument, field or result holds it. It is found
only where the last write was such a declaration, and reading the variable fails then. All of this
follows from the machine being recorded whenever a visit begins.
-/
namespace Scriptlet

/-! ## Visits -/

/-- What a task is given is proper. -/
def Task.Fits (size : Extent) : Task → Prop
  | .call _ callee args => callee.Proper size ∧ ∀ x ∈ args, x.Proper size
  | .invoke _ f args => f.closure < size.envs ∧ ∀ x ∈ args, x.Proper size
  | _ => True

/-- A visit looks at a value: it prints or tests it, or applies an operator or a built-in function to
it. -/
inductive Visit.Sees (ctx : Context) : Visit → Value → Prop
  | operand {n m op token operand x m'} : Eval.expr ctx n operand m = .ok x m' →
      Sees ctx ⟨n + 1,.expr (.unary op token operand),m⟩ x
  | left {n m op token left right x m'} : Eval.expr ctx n left m = .ok x m' →
      Sees ctx ⟨n + 1,.expr (.binary op token left right),m⟩ x
  | right {n m op token left right l m' x m''} : Eval.expr ctx n left m = .ok l m' →
      Eval.expr ctx n right m' = .ok x m'' → Sees ctx ⟨n + 1,.expr (.binary op token left right),m⟩ x
  | first {n m op left right x m'} : Eval.expr ctx n left m = .ok x m' →
      Sees ctx ⟨n + 1,.expr (.logical op left right),m⟩ x
  | ifCondition {n m condition thenBranch elseBranch x m'} : Eval.expr ctx n condition m = .ok x m' →
      Sees ctx ⟨n + 1,.stmt (.ifElse condition thenBranch elseBranch),m⟩ x
  | whileCondition {n m condition body x m'} : Eval.expr ctx n condition m = .ok x m' →
      Sees ctx ⟨n + 1,.stmt (.while_ condition body),m⟩ x
  | printed {n m value x m'} : Eval.expr ctx n value m = .ok x m' →
      Sees ctx ⟨n + 1,.stmt (.print value),m⟩ x
  | argument {n m paren b args x} : x ∈ args → Sees ctx ⟨n + 1,.call paren (.builtin b) args,m⟩ x

section

variable {ctx : Context} {n : Nat} {m : Machine} {log : List Write}

theorem Task.Fits.arguments {size : Extent} {t : Task} (h : t.Fits size) :
    Value.uninitialized ∉ t.arguments := by
  intro hmem
  cases t with
  | call paren callee args =>
    rcases List.mem_cons.1 hmem with rfl | hmem
    · exact h.1.ne rfl
    · exact (h.2 _ hmem).ne rfl
  | invoke paren f args => exact (h.2 _ hmem).ne rfl
  | _ => exact absurd hmem List.not_mem_nil

theorem leaves_task (t : Task) (hm : m.Recorded log) (ht : t.Fits m.extent) :
    Leaves (log ++ t.writes ctx n m) m (fun size a => ∀ x ∈ t.values a, x.Proper size)
      (t.run ctx n m) := by
  have hall := Recording.all ctx n
  have hsingle : ∀ size (x : Value), x.Proper size → ∀ y ∈ [x], y.Proper size := by
    intro size x hx y hy
    obtain rfl := List.mem_singleton.1 hy
    exact hx
  cases t with
  | expr e => exact (hall.expr e hm).weaken hsingle
  | exprs es => exact hall.exprs es hm
  | call paren callee args => exact (hall.call paren hm ht.1 ht.2).weaken hsingle
  | invoke paren f args => exact (hall.invoke paren hm ht.1 ht.2).weaken hsingle
  | stmt s =>
    refine (hall.stmt s hm).weaken fun size outcome houtcome => ?_
    cases outcome with
    | normal => exact fun x hx => absurd hx List.not_mem_nil
    | returned value => exact hsingle size value houtcome
  | stmts ss =>
    refine (hall.stmts ss hm).weaken fun size outcome houtcome => ?_
    cases outcome with
    | normal => exact fun x hx => absurd hx List.not_mem_nil
    | returned value => exact hsingle size value houtcome

theorem Visit.Sees.ne {v : Visit} {x : Value} (h : v.Sees ctx x) (hm : v.machine.Recorded log)
    (ht : v.task.Fits v.machine.extent) : x ≠ .uninitialized := by
  have hexpr : ∀ {n e m m'} {x : Value} {log : List Write}, m.Recorded log →
      Eval.expr ctx n e m = .ok x m' → x ≠ .uninitialized :=
    fun hm hx => (((Recording.all ctx _).expr _ hm).of_ok hx).2.ne
  cases h with
  | operand hx => exact hexpr hm hx
  | left hx => exact hexpr hm hx
  | right hl hx => exact hexpr (((Recording.all ctx _).expr _ hm).of_ok hl).1 hx
  | first hx => exact hexpr hm hx
  | ifCondition hx => exact hexpr hm hx
  | whileCondition hx => exact hexpr hm hx
  | printed hx => exact hexpr hm hx
  | argument hx => exact (ht.2 x hx).ne

/-- Tasks that are begun one after the other, each in a recorded machine. -/
def Orderly (ctx : Context) (n : Nat) : List Write → List (Task × Machine) → Prop
  | _, [] => True
  | log, (t,m) :: rest => m.Recorded log ∧ t.Fits m.extent ∧ Orderly ctx n (log ++ t.writes ctx n m) rest

namespace Orderly

theorem single {t : Task} (hm : m.Recorded log) (ht : t.Fits m.extent) : Orderly ctx n log [(t,m)] :=
  ⟨hm,ht,trivial⟩

theorem onResult {α : Type} {P : Extent → α → Prop} {r : EStateM.Result Abort Machine α}
    {next : α → Machine → List (Task × Machine)} (h : Leaves log m P r)
    (hnext : ∀ a m', r = .ok a m' → m'.Recorded log → m.extent ≤ m'.extent → P m'.extent a →
      Orderly ctx n log (next a m')) : Orderly ctx n log (Scriptlet.onResult r next) := by
  cases r with
  | ok a m' => exact hnext a m' rfl h.1 h.2.1 h.2.2
  | error e m' => trivial

theorem split {before rest : List (Task × Machine)} {t : Task}
    (h : Orderly ctx n log (before ++ (t,m) :: rest)) :
    m.Recorded (log ++ before.flatMap fun c => c.1.writes ctx n c.2) ∧ t.Fits m.extent := by
  induction before generalizing log with
  | nil =>
    rw [List.flatMap_nil,List.append_nil]
    exact ⟨h.1,h.2.1⟩
  | cons first before ih =>
    rw [List.flatMap_cons,← List.append_assoc]
    exact ih h.2.2

end Orderly

theorem orderly_expr (e : Expr) (hm : m.Recorded log) :
    Orderly ctx n log ((Task.expr e).callees ctx n m) := by
  have hall := Recording.all ctx n
  cases e with
  | literal | variable_ | self | superMethod => trivial
  | grouping inner => exact .single hm trivial
  | unary op token operand => exact .single hm trivial
  | assign name value => exact .single hm trivial
  | get object name => exact .single hm trivial
  | binary op token left right =>
    refine ⟨hm,trivial,.onResult (hall.expr left hm) fun l m₁ _ hm₁ _ _ => ?_⟩
    exact .single hm₁ trivial
  | logical op left right =>
    refine ⟨hm,trivial,.onResult (hall.expr left hm) fun l m₁ _ hm₁ _ _ => ?_⟩
    split
    · trivial
    · exact .single hm₁ trivial
  | set object name value =>
    refine ⟨hm,trivial,.onResult (hall.expr value hm) fun x m₁ _ hm₁ _ _ => ?_⟩
    exact .single hm₁ trivial
  | call callee paren arguments =>
    refine ⟨hm,trivial,.onResult (hall.expr callee hm) fun f m₁ _ hm₁ _ hf => ?_⟩
    refine ⟨hm₁,trivial,.onResult (hall.exprs arguments hm₁) fun args m₂ _ hm₂ hle hargs => ?_⟩
    exact .single hm₂ ⟨hf.mono hle,hargs⟩

theorem orderly_call {paren : Token} {callee : Value} {args : List Value} (hm : m.Recorded log)
    (hcallee : callee.Proper m.extent) (hargs : ∀ x ∈ args, x.Proper m.extent) :
    Orderly ctx n log ((Task.call paren callee args).callees ctx n m) := by
  simp only [Task.callees]
  split
  · cases callee with
    | function id f => exact .single hm ⟨hcallee,hargs⟩
    | class_ c =>
      cases hmethod : c.findMethod? initializerName with
      | none =>
        simp only [hmethod]
        trivial
      | some method =>
        simp only [hmethod]
        refine .onResult (leaves_newObject hm hcallee) fun object m₁ _ hm₁ hle₁ hobject => ?_
        have hclosure := Nat.lt_of_lt_of_le (Class.Proper.findMethod? hcallee hmethod) hle₁.1
        refine .onResult (leaves_bind hm₁ hclosure hobject) fun f m₂ _ hm₂ hle₂ hf => ?_
        exact .single hm₂ ⟨hf,fun x hx => ((hargs x hx).mono hle₁).mono hle₂⟩
    | _ => trivial
  · trivial

theorem orderly_stmt (s : Stmt) (hm : m.Recorded log) :
    Orderly ctx n log ((Task.stmt s).callees ctx n m) := by
  have hall := Recording.all ctx n
  cases s with
  | expression value => exact .single hm trivial
  | print value => exact .single hm trivial
  | varDecl name initial =>
    cases initial with
    | none => trivial
    | some value => exact .single hm trivial
  | return_ keyword value =>
    cases value with
    | none => trivial
    | some value => exact .single hm trivial
  | block body =>
    rw [Task.callees]
    refine .onResult (leaves_newEnv_empty hm) fun scope m₁ _ hm₁ _ hscope => ?_
    exact .single (hm₁.enter hscope) trivial
  | ifElse condition thenBranch elseBranch =>
    refine ⟨hm,trivial,.onResult (hall.expr condition hm) fun c m₁ _ hm₁ _ _ => ?_⟩
    split
    · exact .single hm₁ trivial
    · cases elseBranch with
      | none => trivial
      | some branch => exact .single hm₁ trivial
  | while_ condition body =>
    refine ⟨hm,trivial,.onResult (hall.expr condition hm) fun c m₁ _ hm₁ _ _ => ?_⟩
    split
    · refine ⟨hm₁,trivial,.onResult (hall.stmt body hm₁) fun outcome m₂ _ hm₂ _ _ => ?_⟩
      cases outcome with
      | normal => exact .single hm₂ trivial
      | returned value => trivial
    · trivial
  | funDecl | classDecl => trivial

/-- The tasks that a task calls are begun in recorded machines, with proper values. -/
theorem orderly_callees (t : Task) (hm : m.Recorded log) (ht : t.Fits m.extent) :
    Orderly ctx n log (t.callees ctx n m) := by
  have hall := Recording.all ctx n
  cases t with
  | expr e => exact orderly_expr e hm
  | exprs es =>
    cases es with
    | nil => trivial
    | cons e rest =>
      refine ⟨hm,trivial,.onResult (hall.expr e hm) fun x m₁ _ hm₁ _ _ => ?_⟩
      exact .single hm₁ trivial
  | call paren callee args => exact orderly_call hm ht.1 ht.2
  | invoke paren f args =>
    rw [Task.callees]
    cases hparams : Eval.bindParameters f.decl.params args .empty with
    | none => trivial
    | some bindings =>
      have hbindings := Eval.of_bindParameters ht.2 (fun _ _ hget => by cases hget) hparams
      refine .onResult (leaves_newEnv hm ht.1 hbindings) fun scope m₁ _ hm₁ _ hscope => ?_
      exact .single (hm₁.enter hscope) trivial
  | stmt s => exact orderly_stmt s hm
  | stmts ss =>
    cases ss with
    | nil => trivial
    | cons s rest =>
      refine ⟨hm,trivial,.onResult (hall.stmt s hm) fun outcome m₁ _ hm₁ _ _ => ?_⟩
      cases outcome with
      | normal => exact .single hm₁ trivial
      | returned value => trivial

/-- Every visit is begun in a recorded machine. -/
theorem Visit.Begins.recorded {top v : Visit} {ws : List Write} (h : Begins ctx top ws v)
    (hm : top.machine.Recorded log) (ht : top.task.Fits top.machine.extent) :
    v.machine.Recorded (log ++ ws) ∧ v.task.Fits v.machine.extent := by
  induction h with
  | self =>
    rw [List.append_nil]
    exact ⟨hm,ht⟩
  | @call n t t' m m' ws before rest _ hsplit ih =>
    have horderly : Orderly ctx n (log ++ ws) (t.callees ctx n m) := orderly_callees t ih.1 ih.2
    rw [hsplit] at horderly
    rw [← List.append_assoc]
    exact horderly.split

theorem leaves_program (budget : Nat) (ss : List Stmt) (hm : m.Recorded log) :
    Leaves (log ++ Eval.programWrites ctx budget ss m) m (fun _ _ => True)
      (Eval.program ctx budget ss m) := by
  induction ss generalizing m log with
  | nil =>
    rw [Eval.programWrites,List.append_nil]
    exact .pure hm trivial
  | cons s rest ih =>
    rw [Eval.programWrites,← List.append_assoc]
    exact ((Recording.all ctx budget).stmt s hm).bind fun _ m₁ _ hm₁ _ _ => ih hm₁

end

/-! ## Sessions -/

namespace Session

variable {s : Session} {log : List Write}

theorem recorded_perform (h : s.machine.Recorded log) (r : Request) :
    (s.perform r).2.machine.Recorded (log ++ s.writes (.run r)) := by
  by_cases hload : (load s.nextIndex r.source).diagnostics = []
  · by_cases hclean : (resolve s.table (load s.nextIndex r.source).statements).faults = []
    · rw [(perform_of_resolved hload hclean).2,writes,if_pos ⟨hload,hclean⟩]
      have hclear : Machine.Recorded log { s.machine with printed := [] } := h.congr rfl rfl
      exact (leaves_program r.budget (load s.nextIndex r.source).statements hclear).recorded
    · rw [(perform_of_unresolved hload hclean).2,writes,if_neg fun hboth => hclean hboth.2,
        List.append_nil]
      exact h
  · rw [(perform_of_unreadable hload).2,writes,if_neg fun hboth => hload hboth.1,List.append_nil]
    exact h

theorem recorded_afterCalls (h : s.machine.Recorded log) (calls : List Call) :
    (s.afterCalls calls).machine.Recorded (log ++ s.allWrites calls) := by
  induction calls generalizing s log with
  | nil =>
    rw [allWrites,List.append_nil]
    exact h
  | cons c rest ih =>
    rw [allWrites,← List.append_assoc]
    apply ih
    cases c with
    | run r => exact recorded_perform h r
    | showTree source =>
      have hnext : (s.obey (.showTree source)).2 = _ := showTree_snd source
      rw [hnext,writes,List.append_nil]
      exact h

/-- Every visit of a run is begun in a recorded machine. -/
theorem MakesAfter.recorded {r : Request} {ws : List Write} {v : Visit} (h : s.MakesAfter r ws v)
    (hs : s.machine.Recorded log) :
    v.machine.Recorded (log ++ ws) ∧ v.task.Fits v.machine.extent := by
  obtain ⟨-,-,before,statement,rest,m,inner,-,hbefore,hbegins,rfl⟩ := h
  have hclear : Machine.Recorded log { s.machine with printed := [] } := hs.congr rfl rfl
  obtain ⟨hm,-⟩ := (leaves_program r.budget before hclear).of_ok hbefore
  rw [← List.append_assoc]
  exact hbegins.recorded hm trivial

end Session

/-! ## Reading -/

/-- The mark of a variable without value stands exactly where the last write was a declaration
without value, and in no field. Where a name was given a value last, reading it gives that value;
where it was declared without one, reading it fails. Variables and the names of superclasses are
both read by `Eval.lookUp`. -/
structure Machine.Faithful (ctx : Context) (log : List Write) (m : Machine) : Prop where
  fields : ∀ object name, m.fieldOf? object name ≠ some .uninitialized
  marked : ∀ id name, m.memory.store.bound? id name = some .uninitialized ↔
    ∃ w, Write.last? log id name = some w ∧ w.value? = none
  unset : ∀ name holder m' w, Eval.holder ctx name m = .ok holder m' →
    Write.last? log holder name.lexeme = some w → w.value? = none →
    Eval.lookUp ctx name m = .error (.fault (.uninitializedVariable name.lexeme) name) m
  set : ∀ name holder m' w x, Eval.holder ctx name m = .ok holder m' →
    Write.last? log holder name.lexeme = some w → w.value? = some x →
    x ≠ .uninitialized ∧ Eval.lookUp ctx name m = .ok x m

theorem Machine.Recorded.marked {log : List Write} {m : Machine} (h : m.Recorded log) (id : EnvId)
    (name : Bytes) : m.memory.store.bound? id name = some .uninitialized ↔
      ∃ w, Write.last? log id name = some w ∧ w.value? = none := by
  constructor
  · intro hbound
    rcases h.bound hbound with hproper | ⟨-,hlast⟩
    · exact absurd rfl hproper.ne
    · exact hlast
  · rintro ⟨w,hlast,hvalue⟩
    rw [h.written hlast,Write.bound,hvalue]
    rfl

theorem Machine.Recorded.faithful {log : List Write} {m : Machine} (h : m.Recorded log)
    (ctx : Context) : m.Faithful ctx log := by
  constructor
  · intro object name hfield
    exact (h.fields hfield).ne rfl
  · exact h.marked
  · intro name holder m' w hholder hlast hvalue
    have hbound := h.written hlast
    rw [Write.bound,hvalue] at hbound
    rw [Eval.lookUp_of_holder hholder hbound]
    rfl
  · intro name holder m' w x hholder hlast hvalue
    have hbound := h.written hlast
    rw [Write.bound,hvalue] at hbound
    have hx : x ≠ .uninitialized := by
      rintro rfl
      obtain ⟨w',hlast',hnone⟩ := (h.marked holder name.lexeme).1 hbound
      rw [hlast] at hlast'
      obtain rfl := Option.some.inj hlast'
      rw [hvalue] at hnone
      cases hnone
    refine ⟨hx,?_⟩
    rw [Eval.lookUp_of_holder hholder hbound]
    cases x with
    | uninitialized => exact absurd rfl hx
    | _ => rfl

/-- The mark of a variable without value never becomes a value. This holds after all calls of a
session, and wherever a run begins or ends a visit: the mark is bound exactly to the variables whose
last write was a declaration without value, and reading those fails, while all others read as they
were written last. No visit is given the mark, gives it, or looks at it. -/
theorem Session.uninitialized_never_a_value (clock : Clock) (calls : List Call) (r : Request) :
    let s := (start clock).afterCalls calls
    let ctx : Context := ⟨(s.perform r).2.table,r.processVars⟩
    let log := (start clock).allWrites calls
    s.machine.Faithful ctx log ∧
      (∀ v, s.Makes r v → ∃ ws, s.MakesAfter r ws v) ∧
      ∀ ws v, s.MakesAfter r ws v →
        v.machine.Faithful ctx (log ++ ws) ∧
        (machineAfter (v.task.run ctx v.budget v.machine)).Faithful ctx
          (log ++ ws ++ v.task.writes ctx v.budget v.machine) ∧
        .uninitialized ∉ v.task.arguments ∧
        (∀ a m, v.task.run ctx v.budget v.machine = .ok a m → .uninitialized ∉ v.task.values a) ∧
        ∀ x, v.Sees ctx x → x ≠ .uninitialized := by
  intro s ctx log
  have hstart : (start clock).machine.Recorded [] := Machine.recorded_start clock
  have hsession : s.machine.Recorded log := recorded_afterCalls hstart calls
  refine ⟨hsession.faithful ctx,fun v hmakes => hmakes.after,?_⟩
  intro ws v hmakes
  obtain ⟨hm,hfits⟩ := hmakes.recorded hsession
  have hleaves : Leaves (log ++ ws ++ v.task.writes ctx v.budget v.machine) v.machine _
      (v.task.run ctx v.budget v.machine) := leaves_task v.task hm hfits
  refine ⟨hm.faithful ctx,hleaves.recorded.faithful ctx,hfits.arguments,?_,fun x hx => hx.ne hm hfits⟩
  intro a m ha hmem
  exact ((hleaves.of_ok ha).2 _ hmem).ne rfl

/-- Of two variables the first is declared only, and the second is set to nil. -/
theorem Session.uninitialized_beside_nil :
    let s := start {}
    let r : Request := ⟨utf8 "var a; var b = nil; print b; print a;",9,.empty⟩
    let ctx : Context := ⟨(s.perform r).2.table,r.processVars⟩
    let a : Token := ⟨.identifier,utf8 "a",1,12⟩
    let b : Token := ⟨.identifier,utf8 "b",1,9⟩
    ∃ ws m, s.MakesAfter r ws ⟨9,.stmt (.print (.variable_ b)),m⟩ ∧
      m.memory.store.bound? globalScope a.lexeme = some .uninitialized ∧
      Eval.lookUp ctx a m = .error (.fault (.uninitializedVariable a.lexeme) a) m ∧
      Eval.lookUp ctx b m = .ok .nil m := by
  intro s r ctx a b
  have hload : (load 0 r.source).diagnostics = [] := by decide +kernel
  have hclean : (resolve s.table (load 0 r.source).statements).faults = [] := by decide +kernel
  let declarations : List Stmt := [.varDecl ⟨.identifier,utf8 "a",1,1⟩ none,
    .varDecl ⟨.identifier,utf8 "b",1,4⟩ (some (.literal .nil))]
  have hstatements : (load 0 r.source).statements =
      declarations ++ .print (.variable_ b) :: [.print (.variable_ a)] := by
    with_unfolding_all rfl
  let start : Machine := { s.machine with printed := [] }
  let m : Machine := { start with memory.store :=
    (start.memory.store.define globalScope (utf8 "a") .uninitialized).define globalScope (utf8 "b") .nil }
  have hmakes : s.MakesAfter r [⟨globalScope,utf8 "a",none⟩,⟨globalScope,utf8 "b",some .nil⟩]
      ⟨9,.stmt (.print (.variable_ b)),m⟩ :=
    ⟨hload,hclean,declarations,_,_,m,[],hstatements,rfl,.self,rfl⟩
  have hglobals : m.memory.store.get? globalScope = some ⟨none,_⟩ := rfl
  have ha : Eval.holder ctx a m = .ok globalScope m :=
    (Eval.holder_of_global (by decide +kernel) hglobals).trans rfl
  have hb : Eval.holder ctx b m = .ok globalScope m :=
    (Eval.holder_of_global (by decide +kernel) hglobals).trans rfl
  obtain ⟨-,-,hvisits⟩ := uninitialized_never_a_value {} [] r
  obtain ⟨hfaithful,-⟩ := hvisits _ _ hmakes
  refine ⟨_,m,hmakes,(hfaithful.marked _ _).2 ⟨_,rfl,rfl⟩,?_,?_⟩
  · exact hfaithful.unset a globalScope m _ ha rfl rfl
  · exact (hfaithful.set b globalScope m _ _ hb rfl rfl).2

end Scriptlet
