import Scriptlet.Proofs.Origins.Runs

/-! # What `this` and `super` stand for

The instance of a method is found in the environment in which the method was bound, the superclass
one environment further out, where the class declaration left it. Both are found by distances that
were fixed before the program ran. As closures are rooted, the distances lead to the innermost method
around the place, whatever functions are nested in it, through whatever instance it is called and
whatever became of the variables in the meantime.
-/
namespace Scriptlet

open Lexical (Places)

/-! ## Ways outwards -/

section

variable {os : List Origin} {e b : EnvId} {scopes : Scopes} {home : Option EnvId} {m : Machine}

/-- The method in whose scopes a place stands is the one that the environment is inside of. -/
theorem Backed.inside (h : Backed os e scopes home) (hhome : home = some b) {method : Function}
    {c : Class} {id : Nat} (hb : os[b]? = some (.bound method c id)) : Inside os e method c id := by
  induction h with
  | globals => cases hhome
  | body he hbody _ _ _ ih =>
    obtain ⟨houter,hnot⟩ := Origin.outer?_of_body? hbody
    exact .outward he hnot houter (ih hhome)
  | derived he _ ih => exact .outward he (fun _ _ _ => nofun) rfl (ih hhome)
  | bound =>
    obtain rfl := Option.some.inj hhome
    exact .here hb

/-- The instance is bound as far out as the environment of the method is. -/
theorem Backed.find?_this (h : Backed os e scopes home) (hm : m.FormedBy os) (hhome : home = some b) :
    ∃ d, scopes.find? thisName = some (d,true) ∧ m.memory.store.ancestor? e d = some b := by
  induction h with
  | globals => cases hhome
  | body he hbody hscope _ _ ih =>
    obtain ⟨d,hfind,hancestor⟩ := ih hhome
    refine ⟨d + 1,?_,?_⟩
    · simp [Scopes.find?,hscope.this_,hfind]
    · rw [hm.ancestor?_succ he (Origin.outer?_of_body? hbody).1,hancestor]
  | derived he _ ih =>
    obtain ⟨d,hfind,hancestor⟩ := ih hhome
    refine ⟨d + 1,?_,?_⟩
    · rw [Scopes.find?_ofList_cons,if_neg (by decide),hfind]
      rfl
    · rw [hm.ancestor?_succ he rfl,hancestor]
  | bound he _ _ _ =>
    obtain rfl := Option.some.inj hhome
    refine ⟨0,?_,rfl⟩
    simp [Scopes.find?_ofList_cons]

/-- The environment that binds a superclass is that of a class that extends another one. -/
theorem Backed.exists_derived (h : Backed os e scopes home)
    (hsuper : scopes.find? superName = some (0,true)) :
    ∃ outer methods parent, os[e]? = some (.derived outer methods parent) := by
  cases h with
  | globals => cases hsuper
  | body _ _ hscope _ _ => simp [Scopes.find?,hscope.super] at hsuper
  | derived he _ => exact ⟨_,_,_,he⟩
  | bound =>
    rw [Scopes.find?_ofList_cons,if_neg (by decide)] at hsuper
    simp at hsuper

/-- Where the superclass is bound next to the instance, the method was created by the declaration of a
class that extends another one. -/
theorem Backed.of_find?_super (h : Backed os e scopes home) (hhome : home = some b) {d : Nat}
    (hthis : scopes.find? thisName = some (d,true))
    (hsuper : scopes.find? superName = some (d + 1,true)) :
    ∃ method c id outer methods parent, os[b]? = some (.bound method c id) ∧
      os[method.closure]? = some (.derived outer methods parent) ∧ method.decl ∈ methods := by
  induction h generalizing d with
  | globals => cases hhome
  | body _ _ hscope _ _ ih =>
    simp only [Scopes.find?,hscope.this_,Option.map_eq_some_iff,Prod.mk.injEq] at hthis
    simp only [Scopes.find?,hscope.super,Option.map_eq_some_iff,Prod.mk.injEq] at hsuper
    obtain ⟨⟨d₁,f₁⟩,hthis,rfl,rfl⟩ := hthis
    obtain ⟨⟨d₂,f₂⟩,hsuper,hd,rfl⟩ := hsuper
    obtain rfl : d₂ = d₁ + 1 := Nat.succ.inj hd
    exact ih hhome hthis hsuper
  | derived =>
    rw [Scopes.find?_ofList_cons,if_pos (by simp)] at hsuper
    cases hsuper
  | @bound _ method c id scopes home he hdeclared hclosure _ =>
    obtain rfl := Option.some.inj hhome
    rw [Scopes.find?_ofList_cons,if_pos (by simp)] at hthis
    rw [Scopes.find?_ofList_cons,if_neg (by decide)] at hsuper
    cases hthis
    -- this scope has nothing but the instance, so it is the next one that binds the superclass
    have hnext : scopes.find? superName = some (0,true) := by
      simpa [Option.map_eq_some_iff] using hsuper
    obtain ⟨outer,methods,parent,hderived⟩ := hclosure.exists_derived hnext
    obtain ⟨origin,horigin,hdeclares⟩ := hdeclared
    rw [hderived] at horigin
    obtain rfl := Option.some.inj horigin
    exact ⟨method,c,id,outer,methods,parent,he,hderived,hdeclares⟩

end

/-! ## Visits -/

section

variable {p : Places} {vars : NameMap Bytes} {os : List Origin} {n : Nat} {m : Machine}
  {keyword : Token}

/-- The method that a use of `this` or `super` stands in. -/
theorem Visit.Rooted.receiver {e : Expr} (h : Visit.Rooted p os ⟨n,.expr e,m⟩)
    (hkeyword : keyword ∈ e.receivers) :
    ∃ scopes d b method c id, Backed os m.memory.scope scopes (some b) ∧ e.Scoped p.table scopes ∧
      os[b]? = some (.bound method c id) ∧ keyword ∈ method.decl.receivers ∧
      scopes.find? thisName = some (d,true) ∧ m.memory.store.ancestor? m.memory.scope d = some b ∧
      m.memory.store.bound? b thisName = some (.object c id) := by
  obtain ⟨hm,scopes,home,hbacked,hscoped,hbelongs⟩ := h
  obtain ⟨b,method,c,id,rfl,hb,hmem⟩ := hbelongs keyword hkeyword
  obtain ⟨d,hfind,hancestor⟩ := hbacked.find?_this hm.formed rfl
  obtain ⟨env,henv,-,hbinds⟩ := hm.formed.envs hb
  have hbound : m.memory.store.bound? b thisName = some (.object c id) :=
    Option.bind_eq_some_iff.2 ⟨env,henv,hbinds⟩
  exact ⟨scopes,d,b,method,c,id,hbacked,hscoped,hb,hmem,hfind,hancestor,hbound⟩

/-- Evaluating `this` gives the instance that the method around it was bound to. -/
theorem Visit.Rooted.self (h : Visit.Rooted p os ⟨n + 1,.expr (.self keyword),m⟩) :
    ∃ method c id, Inside os m.memory.scope method c id ∧ keyword ∈ method.decl.receivers ∧
      Eval.expr ⟨p.table,vars⟩ (n + 1) (.self keyword) m = .ok (.object c id) m := by
  obtain ⟨scopes,d,b,method,c,id,hbacked,hscoped,hb,hmem,hfind,hancestor,hbound⟩ :=
    h.receiver List.mem_cons_self
  obtain ⟨hname,hlocated,-⟩ := hscoped
  have hentry : p.table[keyword.index]? = some d := by
    rw [hlocated,hname,Scopes.distance?,hfind]
    rfl
  have hself : Eval.lookUp ⟨p.table,vars⟩ keyword m = .ok (.object c id) m := by
    rw [Eval.lookUp_of_distance hentry,hname,Eval.readAt_of_ancestor keyword hancestor hbound]
    rfl
  exact ⟨method,c,id,hbacked.inside rfl hb,hmem,hself⟩

/-- What is read to evaluate `super`: the class that the superclass evaluated to when the class of the
method around it was declared, and the instance of that method. -/
theorem Visit.Rooted.superReads {name : Token}
    (h : Visit.Rooted p os ⟨n + 1,.expr (.superMethod keyword name),m⟩) :
    ∃ method c id outer methods parent d, Inside os m.memory.scope method c id ∧
      keyword ∈ method.decl.receivers ∧
      os[method.closure]? = some (.derived outer methods parent) ∧ method.decl ∈ methods ∧
      p.table[keyword.index]? = some (d + 1) ∧
      Eval.readAt m.memory.scope (d + 1) superName keyword m = .ok (.class_ parent) m ∧
      Eval.readAt m.memory.scope d thisName keyword m = .ok (.object c id) m ∧
      Eval.superMethod ⟨p.table,vars⟩ keyword name m = Eval.methodFor parent name (.object c id) m := by
  obtain ⟨scopes,d,b,method,c,id,hbacked,hscoped,hb,hmem,hfind,hancestor,hbound⟩ :=
    h.receiver List.mem_cons_self
  obtain ⟨d',hentry,hsuper,hthis⟩ := hscoped
  obtain rfl : d = d' := by
    rw [hfind] at hthis
    cases hthis
    rfl
  obtain ⟨method',c',id',outer,methods,parent,hb',hderived,hdeclares⟩ :=
    hbacked.of_find?_super rfl hthis hsuper
  rw [hb] at hb'
  cases hb'
  have hformed := h.machine.formed
  obtain ⟨env,henv,hencloses,-⟩ := hformed.envs hb
  have houter : m.memory.store.ancestor? m.memory.scope (d + 1) = some method.closure :=
    Store.ancestor?_succ hancestor henv hencloses
  obtain ⟨around,haround,-,hbinds⟩ := hformed.envs hderived
  have hparent : m.memory.store.bound? method.closure superName = some (.class_ parent) :=
    Option.bind_eq_some_iff.2 ⟨around,haround,hbinds⟩
  have hthis : Eval.readAt m.memory.scope d thisName keyword m = .ok (.object c id) m :=
    (Eval.readAt_of_ancestor keyword hancestor hbound).trans rfl
  have hsuper : Eval.readAt m.memory.scope (d + 1) superName keyword m = .ok (.class_ parent) m :=
    (Eval.readAt_of_ancestor keyword houter hparent).trans rfl
  have hmethod : Eval.superMethod ⟨p.table,vars⟩ keyword name m =
      Eval.methodFor parent name (.object c id) m := by
    rw [Eval.superMethod_of_distance name hentry]
    simp only [bind,EStateM.bind,hsuper,Nat.add_sub_cancel,hthis]
  exact ⟨method,c,id,outer,methods,parent,d,hbacked.inside rfl hb,hmem,hderived,hdeclares,hentry,
    hsuper,hthis,hmethod⟩

/-- Evaluating `super` gives a method of the class that the superclass evaluated to when the class of
the method around it was declared, bound to the instance of that method. -/
theorem Visit.Rooted.superMethod {name : Token}
    (h : Visit.Rooted p os ⟨n + 1,.expr (.superMethod keyword name),m⟩) :
    ∃ method c id outer methods parent, Inside os m.memory.scope method c id ∧
      keyword ∈ method.decl.receivers ∧
      os[method.closure]? = some (.derived outer methods parent) ∧ method.decl ∈ methods ∧
      Eval.expr ⟨p.table,vars⟩ (n + 1) (.superMethod keyword name) m =
        match parent.findMethod? name.lexeme with
        | some found => (do Steps.newFunction (← Eval.bind found (.object c id)) : Eval Value) m
        | none => .error (.fault (.undefinedProperty name.lexeme) name) m := by
  obtain ⟨method,c,id,outer,methods,parent,d,hinside,hmem,hderived,hdeclares,-,-,-,hmethod⟩ :=
    h.superReads
  refine ⟨method,c,id,outer,methods,parent,hinside,hmem,hderived,hdeclares,?_⟩
  rw [Eval.expr,hmethod,Eval.methodFor]
  cases parent.findMethod? name.lexeme with
  | some found => rfl
  | none => rfl

/-- Declaring a class that extends another one adds its environment to the log. All methods of the
class are created in that environment. -/
theorem Visit.Rooted.classDecl {name : Token} {superclass : Option Token} {methods : List FunctionDecl}
    {parent : Class} {m' : Machine}
    (h : Visit.Rooted p os ⟨n + 1,.stmt (.classDecl name superclass methods),m⟩)
    (hparent : Eval.superclass? ⟨p.table,vars⟩ superclass m = .ok (some parent) m') :
    (os ++ (Task.stmt (.classDecl name superclass methods)).environments ⟨p.table,vars⟩ (n + 1)
        m)[m'.size]? = some (.derived m.memory.scope methods parent) ∧
      ∃ id m'', Eval.createClass ⟨p.table,vars⟩ name superclass methods m =
        .ok ((ClassBody.declared id name.lexeme m'.size methods).extending (some parent)) m'' := by
  obtain ⟨hm',-⟩ := (roots_superclass? h.machine).of_ok hparent
  constructor
  · simp only [Task.environments,Task.opening,Task.callees,Task.closing,hparent,onResult_ok,
      Origin.ofClass,hm'.scope,hm'.formed.size]
    exact List.getElem?_concat_length
  · have hsize : (m'.memory.store.define m'.memory.scope name.lexeme .nil).size = m'.size :=
      Store.size_define
    have hcreate : Eval.createClass ⟨p.table,vars⟩ name superclass methods m = (do
        Eval.define name.lexeme .nil
        let closure ← Eval.methodScope (← get).memory.scope (some parent)
        return (ClassBody.declared (← Steps.newIdentity) name.lexeme closure methods).extending
          (some parent) : Eval Class) m' := by
      simp only [Eval.createClass,bind,EStateM.bind,hparent]
    rw [hcreate,← hsize]
    exact ⟨m'.fresh,_,rfl⟩

end

/-- What `this` and `super` stand for is decided by the declarations around them. Take the log of all
environments of a session. Declaring a class whose superclass evaluates to a class leaves an entry, in
whose environment all methods of the new class are created. In all runs, also in later ones, `this`
gives the instance that the method around it was bound to. `super` gives the method that is found in
the class of the entry in which the method around it was created, bound to the same instance, and fails
only if no class in the lineage has one of that name. -/
theorem this_and_super_dispatch (clock : Clock) (history : List Session.Call) :
    let origins := .globals :: (Session.start clock).allEnvironments history
    (∀ e method c id method' c' id', Inside origins e method c id → Inside origins e method' c' id' →
      method' = method ∧ c' = c ∧ id' = id) ∧
    ∀ before r after, history = before ++ .run r :: after →
      let s := (Session.start clock).afterCalls before
      let ctx : Context := ⟨(s.perform r).2.table,r.processVars⟩
      (∀ v, s.Makes r v → ∃ os, os <+: origins ∧ v.machine.FormedBy os) ∧
      (∀ n name superclass methods m parent m',
        s.Makes r ⟨n + 1,.stmt (.classDecl name superclass methods),m⟩ →
        Eval.superclass? ctx superclass m = .ok (some parent) m' →
        origins[m'.size]? = some (.derived m.memory.scope methods parent) ∧
        ∃ id m'', Eval.createClass ctx name superclass methods m =
          .ok ((ClassBody.declared id name.lexeme m'.size methods).extending (some parent)) m'') ∧
      (∀ n keyword m, s.Makes r ⟨n + 1,.expr (.self keyword),m⟩ →
        ∃ method c id, Inside origins m.memory.scope method c id ∧
          keyword ∈ method.decl.receivers ∧
          Eval.expr ctx (n + 1) (.self keyword) m = .ok (.object c id) m) ∧
      ∀ n keyword name m, s.Makes r ⟨n + 1,.expr (.superMethod keyword name),m⟩ →
        ∃ method c id outer methods parent, Inside origins m.memory.scope method c id ∧
          keyword ∈ method.decl.receivers ∧
          origins[method.closure]? = some (.derived outer methods parent) ∧ method.decl ∈ methods ∧
          Eval.expr ctx (n + 1) (.superMethod keyword name) m =
            match parent.findMethod? name.lexeme with
            | some found => (do Steps.newFunction (← Eval.bind found (.object c id)) : Eval Value) m
            | none => .error (.fault (.undefinedProperty name.lexeme) name) m := by
  intro origins
  refine ⟨fun _ _ _ _ _ _ _ h h' => h.unique h',?_⟩
  intro before r after hsplit s ctx
  have hsession : s.Rooted (.globals :: (Session.start clock).allEnvironments before) :=
    (Session.rooted_start clock).afterCalls before
  have hrun : .globals :: (Session.start clock).allEnvironments before ++ s.environments (.run r) <+:
      origins := by
    show _ <+: Origin.globals :: (Session.start clock).allEnvironments history
    rw [hsplit,Session.allEnvironments_append,← List.append_assoc]
    exact List.prefix_append _ _
  -- a visit only knows the log up to its own beginning, which is a first part of the whole one
  have hvisit : ∀ {v}, s.Makes r v → ∃ p os, ctx = ⟨p.table,r.processVars⟩ ∧ v.Rooted p os ∧
      os <+: origins ∧ os ++ v.task.environments ctx v.budget v.machine <+: origins := by
    intro v hmakes
    obtain ⟨p,os,htable,hrooted,hpart⟩ := hmakes.rooted hsession
    have hall := hpart.trans hrun
    exact ⟨p,os,by rw [htable],hrooted,(List.prefix_append _ _).trans hall,hall⟩
  refine ⟨?_,?_,?_,?_⟩
  · intro v hmakes
    obtain ⟨p,os,-,hrooted,hos,-⟩ := hvisit hmakes
    exact ⟨os,hos,hrooted.machine.formed⟩
  · intro n name superclass methods m parent m' hmakes hparent
    obtain ⟨p,os,hctx,hrooted,-,hpart⟩ := hvisit hmakes
    rw [hctx] at hparent hpart ⊢
    obtain ⟨hentry,hclass⟩ := hrooted.classDecl hparent
    exact ⟨getElem?_of_isPrefix hpart hentry,hclass⟩
  · intro n keyword m hmakes
    obtain ⟨p,os,hctx,hrooted,hos,-⟩ := hvisit hmakes
    rw [hctx]
    obtain ⟨method,c,id,hinside,hkeyword,hresult⟩ := hrooted.self
    exact ⟨method,c,id,hinside.mono hos,hkeyword,hresult⟩
  · intro n keyword name m hmakes
    obtain ⟨p,os,hctx,hrooted,hos,-⟩ := hvisit hmakes
    rw [hctx]
    obtain ⟨method,c,id,outer,methods,parent,hinside,hkeyword,hderived,hdeclares,hresult⟩ :=
      hrooted.superMethod
    exact ⟨method,c,id,outer,methods,parent,hinside.mono hos,hkeyword,
      getElem?_of_isPrefix hos hderived,hdeclares,hresult⟩

end Scriptlet
