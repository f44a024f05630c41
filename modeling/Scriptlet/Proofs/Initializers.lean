import Scriptlet.Proofs.Dispatch
import Scriptlet.Proofs.Uninitialized

/-! # Initializers

A call of a class gives a new instance, whatever its initializer does, and an initializer that is called
by itself gives the instance that it was bound to. It finds the instance in its closure, so what it
gives depends on where closures come from: the log of environments tells for each function whether it
was bound, to which instance, and as which method. All other functions give what their bodies return.
-/
namespace Scriptlet

open Lexical (Places)

/-! ## Calls -/

/-- Runs the body of a function with its parameters bound to the arguments. -/
def Eval.runBody (ctx : Context) (n : Nat) (f : Function) (args : List Value) : Eval Outcome := do
  let bindings ← Steps.orLost (bindParameters f.decl.params args .empty)
  let scope ← newEnv f.closure bindings
  inScope scope (stmts ctx n f.decl.body)

/-- The instance that an initializer was bound to, if this is what the environment was created for. -/
def Origin.initialized? : Origin → Option Value
  | .bound method c id =>
    if method.decl.name.lexeme = initializerName then some (.object c id) else none
  | _ => none

/-- What a call of a function gives when its body ends so, by what the environment that the function
keeps was created for. -/
def Origin.callResult (outcome : Outcome) (origin : Origin) : Value :=
  match origin.initialized?, outcome with
  | some x, _ => x
  | none, .normal => .nil
  | none, .returned x => x

/-- How many arguments a class takes: as many as the nearest initializer in its lineage, and none if
there is no initializer. -/
def Class.arity (c : Class) : Nat := ((c.findMethod? initializerName).map Function.arity).getD 0

/-- A name is bound to the value, or a field holds it. -/
def Machine.Holds (m : Machine) (x : Value) : Prop :=
  (∃ e name, m.memory.store.bound? e name = some x) ∨ ∃ object name, m.fieldOf? object name = some x

section

variable {ctx : Context} {n : Nat} {paren : Token} {m m' : Machine} {args : List Value} {x : Value}

theorem Eval.invoke_eq (f : Function) : Eval.invoke ctx (n + 1) paren f args = (do
    let outcome ← Eval.runBody ctx n f args
    if f.isInitializer then Eval.readAt f.closure 0 thisName paren else return outcome.result) := by
  simp only [Eval.invoke,Eval.runBody,bind_assoc]

theorem Eval.call_class_of_ne {c : Class} (h : args.length ≠ c.arity) :
    Eval.call ctx (n + 1) paren (.class_ c) args m =
      .error (.fault (.argumentCount c.arity args.length) paren) m := by
  have harity : (Value.class_ c).arity? = some c.arity := rfl
  simp only [Eval.call,harity,if_pos h]
  rfl

theorem Eval.of_call_class {c : Class}
    (h : Eval.call ctx (n + 1) paren (.class_ c) args m = .ok x m') :
    args.length = c.arity ∧ x = .object c m.objects.size := by
  by_cases hlength : args.length = c.arity
  · refine ⟨hlength,?_⟩
    have harity : (Value.class_ c).arity? = some args.length := by
      rw [hlength]
      rfl
    simp only [Eval.call,harity,ne_eq,not_true_eq_false,if_false] at h
    obtain ⟨object,m₁,hobject,h⟩ := Eval.of_bind_ok h
    cases hobject
    cases hmethod : c.findMethod? initializerName with
    | none =>
      rw [hmethod] at h
      cases h
      rfl
    | some method =>
      rw [hmethod] at h
      obtain ⟨initializer,m₂,-,h⟩ := Eval.of_bind_ok h
      obtain ⟨_,m₃,-,h⟩ := Eval.of_bind_ok h
      cases h
      rfl
  · rw [Eval.call_class_of_ne hlength] at h
    cases h

theorem Eval.of_call_function {id : Nat} {f : Function}
    (h : Eval.call ctx n paren (.function id f) args m = .ok x m') :
    ∃ k, n = k + 2 ∧ Eval.invoke ctx (k + 1) paren f args m = .ok x m' := by
  cases n with
  | zero => cases h
  | succ n =>
    have harity : (Value.function id f).arity? = some f.arity := rfl
    simp only [Eval.call,harity] at h
    split at h
    · cases h
    · cases n with
      | zero => cases h
      | succ n => exact ⟨n,rfl,h⟩

end

/-! ## Functions against the log -/

section

variable {p : Places} {vars : NameMap Bytes} {os : List Origin} {here : EnvId} {n : Nat}
  {paren : Token} {f : Function} {args : List Value} {m m' : Machine} {x : Value}

/-- Running a body only adds to the log. -/
theorem Machine.Rooted.runBody (hm : m.Rooted p os here) (hf : f.Rooted p os)
    (hargs : ∀ x ∈ args, x.Rooted p os) {outcome : Outcome}
    (h : Eval.runBody ⟨p.table,vars⟩ n f args m = .ok outcome m') :
    ∃ more, m'.Rooted p (os ++ more) here := by
  cases hparams : Eval.bindParameters f.decl.params args .empty with
  | none =>
    rw [Eval.runBody,hparams] at h
    cases h
  | some bindings =>
    rw [Eval.runBody,hparams,Steps.orLost,pure_bind] at h
    have hbindings := Eval.of_bindParameters hargs (fun _ _ hget => by cases hget) hparams
    obtain ⟨scope,m₁,hscope,hbody⟩ := Eval.of_bind_ok h
    obtain ⟨hm₁,hentry⟩ := (roots_newEnv hm (.call f) rfl trivial
      (fun _ _ => trivial) hbindings).of_ok hscope
    have htask := Task.Rooted.body hf (List.prefix_append os [.call f]) hentry
    have hroots := Roots.inScope hm₁.scope
      ((Rooting.all p vars n).stmts f.decl.body (hm₁.enter scope) htask)
    obtain ⟨hm',-⟩ := hroots.of_ok hbody
    rw [List.append_assoc] at hm'
    exact ⟨_,hm'⟩

/-- What a call of a function gives is decided by the entry of its closure. -/
theorem Machine.Rooted.of_invoke (hm : m.Rooted p os here) (hf : f.Rooted p os)
    (hargs : ∀ x ∈ args, x.Rooted p os)
    (h : Eval.invoke ⟨p.table,vars⟩ (n + 1) paren f args m = .ok x m') :
    ∃ origin outcome, os[f.closure]? = some origin ∧
      (∀ method c id, origin = .bound method c id → f.decl = method.decl) ∧
      Eval.runBody ⟨p.table,vars⟩ n f args m = .ok outcome m' ∧ x = origin.callResult outcome := by
  obtain ⟨origin,horigin,hkeeps⟩ := hf.2
  rw [Eval.invoke_eq] at h
  obtain ⟨outcome,m₁,hbody,h⟩ := Eval.of_bind_ok h
  have hown : f.isInitializer = false → origin.initialized? = none →
      m₁ = m' ∧ x = origin.callResult outcome := by
    intro hplain hnone
    rw [hplain] at h
    cases h
    refine ⟨rfl,?_⟩
    cases outcome <;> simp only [Origin.callResult,hnone] <;> rfl
  refine ⟨origin,outcome,horigin,?_,?_⟩
  · rintro method c id rfl
    exact hkeeps.1
  cases origin with
  | bound method c id =>
    obtain ⟨-,hinitializer⟩ := hkeeps
    by_cases hname : method.decl.name.lexeme = initializerName
    · -- the binding of the instance outlives the body, since nothing binds `this` again
      obtain ⟨more,hm₁⟩ := hm.runBody hf hargs hbody
      obtain ⟨env,henv,-,hbinds⟩ :=
        hm₁.formed.envs (getElem?_of_isPrefix (List.prefix_append os more) horigin)
      have hbound : m₁.memory.store.bound? f.closure thisName = some (.object c id) :=
        Option.bind_eq_some_iff.2 ⟨env,henv,hbinds⟩
      have hancestor : m₁.memory.store.ancestor? f.closure 0 = some f.closure := rfl
      rw [hinitializer,decide_eq_true hname,if_pos rfl,
        Eval.readAt_of_ancestor paren hancestor hbound] at h
      cases h
      have hinstance : (Origin.bound method c id).initialized? = some (.object c id) := if_pos hname
      exact ⟨hbody,by simp only [Origin.callResult,hinstance]⟩
    · obtain ⟨rfl,hx⟩ := hown (hinitializer.trans (decide_eq_false hname)) (if_neg hname)
      exact ⟨hbody,hx⟩
  | globals | block | call | derived =>
    obtain ⟨rfl,hx⟩ := hown hkeeps rfl
    exact ⟨hbody,hx⟩

/-- A method that is looked up and bound to an instance has an entry that tells both. -/
theorem Machine.Rooted.methodFor (hm : m.Rooted p os here) {c : Class} (receiver : Class) (id : Nat)
    {name : Token} {method : Function} (hc : c.Rooted p os)
    (hmethod : c.findMethod? name.lexeme = some method) :
    method.decl.name.lexeme = name.lexeme ∧
    (os ++ Origin.ofMethod c name.lexeme receiver id)[m.size]? = some (.bound method receiver id) ∧
    ∃ fid m', Eval.methodFor c name (.object receiver id) m =
      .ok (.function fid { method with closure := m.size }) m' := by
  refine ⟨(hc.findMethod? hmethod).named,?_,?_⟩
  · rw [Origin.ofMethod,hmethod,hm.formed.size]
    exact List.getElem?_concat_length
  · rw [Eval.methodFor,hmethod]
    exact ⟨_,_,rfl⟩

/-- A property that is no field is the method of the object's class, bound to the object. -/
theorem Visit.Rooted.property {object : Expr} {name : Token} {c : Class} {id : Nat} {m₁ : Machine}
    {method : Function} (h : Visit.Rooted p os ⟨n + 1,.expr (.get object name),m⟩)
    (hobject : Eval.expr ⟨p.table,vars⟩ n object m = .ok (.object c id) m₁)
    (hfield : m₁.fieldOf? id name.lexeme = none)
    (hmethod : c.findMethod? name.lexeme = some method) :
    method.decl.name.lexeme = name.lexeme ∧
    (os ++ (Task.expr (.get object name)).environments ⟨p.table,vars⟩ (n + 1) m)[m₁.size]? =
      some (.bound method c id) ∧
    ∃ fid m', Eval.expr ⟨p.table,vars⟩ (n + 1) (.get object name) m =
      .ok (.function fid { method with closure := m₁.size }) m' := by
  have hoperand := h.task.operand object (by simp [Expr.operands])
  obtain ⟨hm₁,hrooted⟩ := ((Rooting.all p vars n).expr object h.machine hoperand).of_ok hobject
  obtain ⟨hname,hentry,fid,m',hresult⟩ := hm₁.methodFor c id hrooted hmethod
  refine ⟨hname,?_,fid,m',?_⟩
  · simp only [Task.environments,Task.opening,Task.callees,Task.closing,hobject,onResult_ok,
      Origin.ofProperty,hfield,Option.isSome_none,Bool.false_eq_true,if_false,List.nil_append,
      List.flatMap_singleton,← List.append_assoc]
    exact hentry
  · have hread : Steps.field? id name.lexeme m₁ = .ok (m₁.fieldOf? id name.lexeme) m₁ := rfl
    simp only [Eval.expr,Eval.property,bind,EStateM.bind,hobject,hread,hfield]
    exact hresult

/-- What `super` gives is bound to the instance of the method around it. -/
theorem Visit.Rooted.superProperty {keyword name : Token}
    (h : Visit.Rooted p os ⟨n + 1,.expr (.superMethod keyword name),m⟩) :
    ∃ method c id, Inside os m.memory.scope method c id ∧ ∀ x m',
      Eval.expr ⟨p.table,vars⟩ (n + 1) (.superMethod keyword name) m = .ok x m' →
      ∃ fid found, x = .function fid { found with closure := m.size } ∧
        found.decl.name.lexeme = name.lexeme ∧
        (os ++ (Task.expr (.superMethod keyword name)).environments ⟨p.table,vars⟩ (n + 1)
          m)[m.size]? = some (.bound found c id) := by
  obtain ⟨method,c,id,outer,methods,parent,d,hinside,-,-,-,hentry,hsuper,hthis,hmethod⟩ :=
    h.superReads
  refine ⟨method,c,id,hinside,?_⟩
  intro x m' hx
  obtain ⟨-,hparent⟩ := (roots_readAt h.machine).of_ok hsuper
  rw [Eval.expr,hmethod] at hx
  cases hfound : parent.findMethod? name.lexeme with
  | none =>
    rw [Eval.methodFor,hfound] at hx
    cases hx
  | some found =>
    obtain ⟨hname,hlog,fid,m₁,hresult⟩ := h.machine.methodFor c id hparent hfound
    rw [hresult] at hx
    cases hx
    refine ⟨fid,found,rfl,hname,?_⟩
    simp only [Task.environments,Task.opening,Task.callees,Task.closing,Origin.ofSuper,hentry,hsuper,
      Nat.add_sub_cancel,hthis,onResult_ok,List.flatMap_nil,List.nil_append]
    exact hlog

end

/-! ## New instances -/

/-- No value that is within reach is an instance that is still to be created. -/
theorem Machine.Recorded.same_eq_false {log : List Write} {m : Machine} (h : m.Recorded log)
    {y : Value} (hy : m.Holds y ∨ y.Proper m.extent) (c : Class) :
    y.same (.object c m.objects.size) = false := by
  have hproper : y.Proper m.extent ∨ y = .uninitialized := by
    rcases hy with (⟨e,name,hbound⟩ | ⟨object,name,hfield⟩) | hy
    · exact (h.bound hbound).imp_right And.left
    · exact .inl (h.fields hfield)
    · exact .inl hy
  rcases hproper with hproper | rfl
  · cases y with
    | object c' id => exact beq_eq_false_iff_ne.2 (Nat.ne_of_lt hproper.2)
    | _ => rfl
  · rfl

/-- A function that is declared by a statement keeps an environment in which no method was bound. -/
theorem Visit.Rooted.funDecl {p : Places} {vars : NameMap Bytes} {os : List Origin} {n : Nat}
    {m : Machine} {decl : FunctionDecl} {log : List Write}
    (h : Visit.Rooted p os ⟨n + 1,.stmt (.funDecl decl),m⟩) (hm : m.Recorded log) :
    ∃ fid f m' origin, Eval.stmt ⟨p.table,vars⟩ (n + 1) (.funDecl decl) m = .ok .normal m' ∧
      m'.memory.store.bound? m.memory.scope decl.name.lexeme = some (.function fid f) ∧
      f.decl = decl ∧ os[f.closure]? = some origin ∧ ∀ method c id, origin ≠ .bound method c id := by
  obtain ⟨-,scopes,home,hhosts,-⟩ := h
  obtain ⟨origin,horigin,-,hnot⟩ := hhosts.exists_origin
  refine ⟨m.fresh,⟨decl,m.memory.scope,false⟩,_,origin,rfl,?_,rfl,horigin,hnot⟩
  show (m.memory.store.define m.memory.scope decl.name.lexeme _).bound? m.memory.scope _ = _
  rw [Store.bound?_define hm.scope,if_pos ⟨rfl,rfl⟩]

/-- Initializers give instances, and nothing else does in their place. Take the log of all environments
of a session, and one of its runs. A call of a class with another number of arguments than its nearest
initializer takes does nothing but fail. Any call of a class that ends without error gives an instance
of this very class, which is none of the values that could be got hold of before. A call of a function
that ends without error gives what the body returns, unless the function is an initializer that was
bound: then it gives the instance that the entry of its closure tells. Such entries are made when a
method of an instance is looked up, for the instance, and when `super` is evaluated, for the instance of
the method around it. Functions that are declared by statements, also inside of an initializer or with
its name, never get one. -/
theorem initializer_contract (clock : Clock) (before : List Session.Call) (r : Request)
    (after : List Session.Call) :
    let origins := .globals :: (Session.start clock).allEnvironments (before ++ .run r :: after)
    let s := (Session.start clock).afterCalls before
    let ctx : Context := ⟨(s.perform r).2.table,r.processVars⟩
    (∀ n paren c args m, s.Makes r ⟨n + 1,.call paren (.class_ c) args,m⟩ →
      (args.length ≠ c.arity → Eval.call ctx (n + 1) paren (.class_ c) args m =
        .error (.fault (.argumentCount c.arity args.length) paren) m) ∧
      ∀ x m', Eval.call ctx (n + 1) paren (.class_ c) args m = .ok x m' →
        args.length = c.arity ∧ x = .object c m.objects.size ∧
        m.objects.size < m'.objects.size ∧ ∀ y, m.Holds y ∨ y ∈ args → y.same x = false) ∧
    (∀ n paren fid f args m x m', s.Makes r ⟨n,.call paren (.function fid f) args,m⟩ →
      Eval.call ctx n paren (.function fid f) args m = .ok x m' →
      ∃ k origin outcome, n = k + 2 ∧ origins[f.closure]? = some origin ∧
        (∀ method c id, origin = .bound method c id → f.decl = method.decl) ∧
        Eval.runBody ctx k f args m = .ok outcome m' ∧ x = origin.callResult outcome) ∧
    (∀ n object name m c id m₁ method, s.Makes r ⟨n + 1,.expr (.get object name),m⟩ →
      Eval.expr ctx n object m = .ok (.object c id) m₁ → m₁.fieldOf? id name.lexeme = none →
      c.findMethod? name.lexeme = some method →
      ∃ fid f m', Eval.expr ctx (n + 1) (.get object name) m = .ok (.function fid f) m' ∧
        f.decl = method.decl ∧ method.decl.name.lexeme = name.lexeme ∧
        origins[f.closure]? = some (.bound method c id)) ∧
    (∀ n keyword name m, s.Makes r ⟨n + 1,.expr (.superMethod keyword name),m⟩ →
      ∃ method c id, Inside origins m.memory.scope method c id ∧ ∀ x m',
        Eval.expr ctx (n + 1) (.superMethod keyword name) m = .ok x m' →
        ∃ fid f found, x = .function fid f ∧ f.decl = found.decl ∧
          found.decl.name.lexeme = name.lexeme ∧
          origins[f.closure]? = some (.bound found c id)) ∧
    ∀ n decl m, s.Makes r ⟨n + 1,.stmt (.funDecl decl),m⟩ →
      ∃ fid f m' origin, Eval.stmt ctx (n + 1) (.funDecl decl) m = .ok .normal m' ∧
        m'.memory.store.bound? m.memory.scope decl.name.lexeme = some (.function fid f) ∧
        f.decl = decl ∧ origins[f.closure]? = some origin ∧
        ∀ method c id, origin ≠ .bound method c id := by
  intro origins s ctx
  have hrooted : ∀ {v}, s.Makes r v → ∃ p os, ctx = ⟨p.table,r.processVars⟩ ∧ v.Rooted p os ∧
      os <+: origins ∧ os ++ v.task.environments ctx v.budget v.machine <+: origins := by
    intro v hmakes
    obtain ⟨p,os,htable,hvisit,hall⟩ := hmakes.logged after
    exact ⟨p,os,by rw [htable],hvisit,(List.prefix_append _ _).trans hall,hall⟩
  have hrecorded : ∀ {v}, s.Makes r v →
      ∃ log, v.machine.Recorded log ∧ v.task.Fits v.machine.extent := by
    intro v hmakes
    obtain ⟨ws,hafter⟩ := hmakes.after
    exact ⟨_,hafter.recorded (Session.recorded_afterCalls (Machine.recorded_start clock) before)⟩
  refine ⟨?_,?_,?_,?_,?_⟩
  · intro n paren c args m hmakes
    obtain ⟨log,hm,hfits⟩ := hrecorded hmakes
    refine ⟨Eval.call_class_of_ne,?_⟩
    intro x m' hx
    obtain ⟨hlength,rfl⟩ := Eval.of_call_class hx
    obtain ⟨-,hproper⟩ := ((Recording.all ctx (n + 1)).call paren hm hfits.1 hfits.2).of_ok hx
    refine ⟨hlength,rfl,hproper.2,?_⟩
    intro y hy
    exact hm.same_eq_false (hy.imp_right (hfits.2 y)) c
  · intro n paren fid f args m x m' hmakes hx
    obtain ⟨p,os,hctx,hvisit,hos,-⟩ := hrooted hmakes
    obtain ⟨k,rfl,hinvoke⟩ := Eval.of_call_function hx
    rw [hctx] at hinvoke ⊢
    obtain ⟨origin,outcome,horigin,hdecl,hbody,hresult⟩ :=
      hvisit.machine.of_invoke hvisit.task.1 hvisit.task.2 hinvoke
    exact ⟨k,origin,outcome,rfl,getElem?_of_isPrefix hos horigin,hdecl,hbody,hresult⟩
  · intro n object name m c id m₁ method hmakes hobject hfield hmethod
    obtain ⟨p,os,hctx,hvisit,-,hall⟩ := hrooted hmakes
    rw [hctx] at hobject hall ⊢
    obtain ⟨hname,hentry,fid,m',hresult⟩ := hvisit.property hobject hfield hmethod
    exact ⟨fid,_,m',hresult,rfl,hname,getElem?_of_isPrefix hall hentry⟩
  · intro n keyword name m hmakes
    obtain ⟨p,os,hctx,hvisit,hos,hall⟩ := hrooted hmakes
    rw [hctx] at hall ⊢
    obtain ⟨method,c,id,hinside,hsuper⟩ := hvisit.superProperty
    refine ⟨method,c,id,hinside.mono hos,?_⟩
    intro x m' hx
    obtain ⟨fid,found,rfl,hname,hentry⟩ := hsuper x m' hx
    exact ⟨fid,_,found,rfl,rfl,hname,getElem?_of_isPrefix hall hentry⟩
  · intro n decl m hmakes
    obtain ⟨p,os,hctx,hvisit,hos,-⟩ := hrooted hmakes
    obtain ⟨log,hm,-⟩ := hrecorded hmakes
    rw [hctx]
    obtain ⟨fid,f,m',origin,hresult,hbound,hdecl,horigin,hnot⟩ := hvisit.funDecl hm
    exact ⟨fid,f,m',origin,hresult,hbound,hdecl,getElem?_of_isPrefix hos horigin,hnot⟩

/-- An inherited initializer that returns from a loop, called by itself, beside a function of its name. -/
example :
    let source := "class A \x7b init(n) \x7b while (true) \x7b if (n == 0) return; n = n - 1; \x7d \x7d \x7d " ++
      "class B < A \x7b\x7d fun init() \x7b return 1; \x7d var b = B(1); var again = b.init; " ++
      "print again(0) == b; print B(0) == b; print init();"
    ((Session.start {}).perform ⟨utf8 source,40,.empty⟩).1.printed =
      [utf8 "true",utf8 "false",utf8 "1"] := by
  decide +kernel

end Scriptlet
