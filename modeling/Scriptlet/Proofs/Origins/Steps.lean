import Scriptlet.Proofs.Origins.Rooted

/-! # Steps that create environments

What each step of the machine adds to the log, and that it leaves a rooted machine. Environments are
created by blocks, calls, classes and bound methods only; all other steps leave the log alone.
-/
namespace Scriptlet

open Lexical (Places)

section

variable {α : Type} {p : Places} {os : List Origin} {here : EnvId} {m : Machine}
  {P : List Origin → α → Prop}

theorem roots_orFault (h : m.Rooted p os here) {token : Token} {result : Except EvalError α}
    (ha : ∀ a, result = .ok a → P os a) : Roots p os here P (Steps.orFault token result m) := by
  cases result with
  | ok a => exact .pure h (ha a rfl)
  | error e => exact .error h

theorem roots_orLost (h : m.Rooted p os here) {result : Option α}
    (ha : ∀ a, result = some a → P os a) : Roots p os here P (Steps.orLost result m) := by
  cases result with
  | some a => exact .pure h (ha a rfl)
  | none => exact .error h

theorem roots_newIdentity (h : m.Rooted p os here) :
    Roots p os here (fun _ _ => True) (Steps.newIdentity m) :=
  ⟨h.congr rfl rfl,trivial⟩

theorem roots_newFunction (h : m.Rooted p os here) {f : Function} (hf : f.Rooted p os) :
    Roots p os here (fun os x => x.Rooted p os) (Steps.newFunction f m) :=
  ⟨h.congr rfl rfl,hf⟩

theorem roots_callBuiltin (h : m.Rooted p os here) {vars : NameMap Bytes} {paren : Token} {b : Builtin}
    {args : List Value} :
    Roots p os here (fun os x => x.Rooted p os) (Steps.callBuiltin vars paren b args m) := by
  unfold Steps.callBuiltin
  split
  · exact ⟨h.congr rfl rfl,trivial⟩
  · exact .pure h trivial
  · exact .pure h trivial
  · next name =>
    cases vars.get? name with
    | some value => exact .pure h trivial
    | none => exact .pure h trivial
  · exact .error h
  · exact .error h

/-- A name of a program is bound in some environment. -/
theorem roots_store (h : m.Rooted p os here) {e : EnvId} {name : Bytes} {x : Value}
    (hname : IsPlain name) (hadmits : Admits os e name) (hx : x.Rooted p os) :
    Roots p os here (fun _ _ => True) (Eval.store e name x m) :=
  ⟨h.write hname hadmits hx,trivial⟩

theorem roots_define (h : m.Rooted p os here) {name : Bytes} {x : Value} (hname : IsPlain name)
    (hadmits : Admits os here name) (hx : x.Rooted p os) :
    Roots p os here (fun _ _ => True) (Eval.define name x m) := by
  apply Roots.get
  rw [h.scope]
  exact roots_store h hname hadmits hx

/-! ## Reading -/

theorem Machine.Rooted.initialized (h : m.Rooted p os here) {e : EnvId} {name : Bytes} {x y : Value}
    (hbound : m.memory.store.bound? e name = some x) (hread : Store.initialized name x = .ok y) :
    y.Rooted p os := by
  have hx := h.bound hbound
  cases x <;> cases hread <;> exact hx

theorem roots_readAt (h : m.Rooted p os here) {scope : EnvId} {distance : Nat} {name : Bytes}
    {token : Token} :
    Roots p os here (fun os x => x.Rooted p os) (Eval.readAt scope distance name token m) := by
  have hfound : Roots p os here (fun os (found : Except EvalError Value) =>
      ∀ y, found = .ok y → y.Rooted p os)
      (Steps.orLost (m.memory.store.readAt? scope distance name) m) := by
    apply roots_orLost h
    intro found hread y hy
    obtain ⟨holder,-,rfl⟩ := Option.map_eq_some_iff.1 hread
    split at hy
    · next x hx => exact h.initialized hx hy
    · cases hy
  exact hfound.next fun found m' _ hm' hrooted => roots_orFault hm' hrooted

theorem roots_lookUp (h : m.Rooted p os here) {ctx : Context} {name : Token} :
    Roots p os here (fun os x => x.Rooted p os) (Eval.lookUp ctx name m) := by
  cases hentry : ctx.table[name.index]? with
  | some distance =>
    rw [Eval.lookUp_of_distance hentry]
    exact roots_readAt h
  | none =>
    rw [Eval.lookUp_of_none hentry]
    apply roots_orFault h
    intro y hy
    unfold Store.read at hy
    split at hy
    · next x hx =>
      obtain ⟨holder,-,hbound⟩ := Option.bind_eq_some_iff.1 hx
      exact h.initialized hbound hy
    · cases hy

theorem roots_assign (h : m.Rooted p os here) {vars : NameMap Bytes} {name : Token} {x : Value}
    {scopes : Scopes} {home : Option EnvId} (hbacked : Backed os here scopes home)
    (hname : IsPlain name.lexeme) (hlocated : scopes.Located p.table name) (hx : x.Rooted p os) :
    Roots p os here (fun _ _ => True) (Eval.assign ⟨p.table,vars⟩ name x m) := by
  have hholder : Roots p os here (fun os holder => Admits os holder name.lexeme)
      (Eval.holder ⟨p.table,vars⟩ name m) := by
    cases hentry : p.table[name.index]? with
    | some distance =>
      rw [Eval.holder_of_distance hentry,h.scope]
      rw [Scopes.Located,hentry] at hlocated
      obtain ⟨⟨d,finished⟩,hfind,rfl⟩ := Option.map_eq_some_iff.1 hlocated.symm
      exact roots_orLost h fun holder hholder => hbacked.admits h.formed hfind hholder
    | none =>
      rw [Eval.holder_of_none hentry]
      cases hfound : m.memory.store.holder? globalScope name.lexeme with
      | some holder =>
        have hbound : (m.memory.store.bound? holder name.lexeme).isSome :=
          List.find?_some (p := fun e => (m.memory.store.bound? e name.lexeme).isSome) hfound
        obtain ⟨old,hold⟩ := Option.isSome_iff_exists.1 hbound
        exact .pure h (h.admitted hold)
      | none => exact .error h
  exact hholder.next fun holder m' _ hm' hadmits => roots_store hm' hname hadmits hx

/-! ## New environments -/

theorem Steps.newObject_eq (c : Class) (m : Machine) : Steps.newObject c m =
    .ok (.object c m.objects.size) { m with objects := m.objects.push .empty } := rfl

theorem roots_newEnv (h : m.Rooted p os here) (origin : Origin) {outer : EnvId}
    {bindings : NameMap Value} (houter : origin.outer? = some outer) (hbinds : origin.Binds bindings)
    (hadmits : ∀ name, (bindings.get? name).isSome → origin.Admits name)
    (hbindings : ∀ name x, bindings.get? name = some x → x.Rooted p os) :
    Roots p (os ++ [origin]) here (fun os e => os[e]? = some origin)
      (Eval.newEnv outer bindings m) := by
  refine ⟨h.push houter hbinds hadmits hbindings,?_⟩
  have hsize : m.memory.store.size = os.length := h.formed.size
  rw [hsize]
  exact List.getElem?_concat_length

/-- A method that is bound to an instance can be called. Its own uses of `this` and `super` stand in
it. -/
theorem roots_bind (h : m.Rooted p os here) {method : Function} {name : Bytes} {c : Class} {id : Nat}
    (hmethod : method.IsMethod p os name) (hc : c.Rooted p os) :
    Roots p (os ++ [.bound method c id]) here (fun os f => f.Rooted p os)
      (Eval.bind method (.object c id) m) := by
  obtain ⟨⟨scopes,home,hbacked,hcovers⟩,hdeclared,hnamed,hinitializer⟩ := hmethod
  have hobject : (Value.object c id).Rooted p os := hc
  have hbindings : ∀ name x, (NameMap.ofList [(thisName,Value.object c id)]).get? name = some x →
      x.Rooted p os := fun name x hget => NameMap.of_get?_single hobject hget
  have henv := roots_newEnv h (.bound method c id) rfl (NameMap.get?_single _ _) (fun _ _ => trivial)
    hbindings
  apply henv.next
  intro closure m' _ hm' hclosure
  have hgrows : os <+: os ++ [.bound method c id] := List.prefix_append _ _
  have hbound := Backed.bound hclosure (hdeclared.mono hgrows) (hbacked.mono hgrows)
  refine .pure hm' ⟨⟨_,_,hbound,hcovers,?_⟩,_,hclosure,rfl,?_⟩
  · intro x hx
    exact ⟨closure,method,c,id,rfl,hclosure,hx⟩
  · rw [hnamed]
    exact hinitializer

theorem roots_methodFor (h : m.Rooted p os here) {c receiver : Class} {id : Nat} {name : Token}
    (hc : c.Rooted p os) (hreceiver : receiver.Rooted p os) :
    Roots p (os ++ Origin.ofMethod c name.lexeme receiver id) here
      (fun os x => x.Rooted p os)
      (Eval.methodFor c name (.object receiver id) m) := by
  unfold Eval.methodFor Origin.ofMethod
  cases hmethod : c.findMethod? name.lexeme with
  | some method =>
    apply (roots_bind h (hc.findMethod? hmethod) hreceiver).next
    intro f m' _ hm' hf
    exact roots_newFunction hm' hf
  | none =>
    simp only [Option.toList_none,List.map_nil,List.append_nil]
    exact .error h

theorem roots_property (h : m.Rooted p os here) {object : Value} {name : Token}
    (hobject : object.Rooted p os) :
    Roots p (os ++ Origin.ofProperty name.lexeme object m) here
      (fun os x => x.Rooted p os)
      (Eval.property object name m) := by
  cases object with
  | object c id =>
    have hread : Steps.field? id name.lexeme m = .ok (m.fieldOf? id name.lexeme) m := rfl
    cases hfield : m.fieldOf? id name.lexeme with
    | some x =>
      have hlog : Origin.ofProperty name.lexeme (.object c id) m = [] := by
        simp [Origin.ofProperty,hfield]
      have hproperty : Eval.property (.object c id) name m = .ok x m := by
        simp [Eval.property,bind,EStateM.bind,hread,hfield,pure,EStateM.pure]
      rw [hlog,List.append_nil,hproperty]
      exact .pure h (h.fields hfield)
    | none =>
      have hlog : Origin.ofProperty name.lexeme (.object c id) m = Origin.ofMethod c name.lexeme c id := by
        simp [Origin.ofProperty,hfield]
      have hproperty : Eval.property (.object c id) name m =
          Eval.methodFor c name (.object c id) m := by
        simp [Eval.property,bind,EStateM.bind,hread,hfield]
      rw [hlog,hproperty]
      exact roots_methodFor h hobject hobject
  | _ =>
    unfold Origin.ofProperty
    rw [List.append_nil]
    exact .error h

theorem roots_superMethod (h : m.Rooted p os here) {ctx : Context} {keyword method : Token} :
    Roots p (os ++ Origin.ofSuper ctx keyword method m) here
      (fun os x => x.Rooted p os)
      (Eval.superMethod ctx keyword method m) := by
  unfold Origin.ofSuper
  cases hentry : ctx.table[keyword.index]? with
  | none =>
    simp only [List.append_nil]
    rw [Eval.superMethod_of_none method hentry]
    exact .error h
  | some distance =>
    rw [Eval.superMethod_of_distance method hentry]
    apply (roots_readAt h).bind
    intro parent m₁ _ hm₁ hparent
    apply (roots_readAt hm₁).bind
    intro object m₂ _ hm₂ hobject
    cases parent with
    | class_ c =>
      cases object with
      | object receiver id => exact roots_methodFor hm₂ hparent hobject
      | _ =>
        rw [List.append_nil]
        exact .error hm₂
    | _ =>
      rw [List.append_nil]
      exact .error hm₂

/-! ## Classes -/

theorem roots_superclass? (h : m.Rooted p os here) {ctx : Context} {superclass : Option Token} :
    Roots p os here
      (fun os parent => parent.isSome = superclass.isSome ∧ ∀ c, parent = some c → c.Rooted p os)
      (Eval.superclass? ctx superclass m) := by
  cases superclass with
  | none => exact .pure h ⟨rfl,fun c hc => by cases hc⟩
  | some token =>
    apply (roots_lookUp h).next
    intro x m' _ hm' hx
    cases x with
    | class_ c => exact .pure hm' ⟨rfl,fun c' hc' => Option.some.inj hc' ▸ hx⟩
    | _ => exact .error hm'

/-- Statements stand neither directly in the environment of a class nor in that of a bound method. -/
theorem Hosts.exists_origin {scopes : Scopes} {home : Option EnvId} {e : EnvId}
    (h : Hosts os e scopes home) : ∃ origin, os[e]? = some origin ∧ (∀ decl, origin.Declares decl) ∧
      ∀ method c id, origin ≠ .bound method c id := by
  obtain ⟨hbacked,-,hthis,hsuper⟩ := h
  cases hbacked with
  | globals he => exact ⟨_,he,fun _ => trivial,fun _ _ _ => nofun⟩
  | @body _ _ origin _ _ _ he hbody _ _ _ =>
    refine ⟨origin,he,?_⟩
    cases origin with
    | block | call => exact ⟨fun _ => trivial,fun _ _ _ => nofun⟩
    | globals | derived | bound => cases hbody
  | derived => exact absurd (by simp [Scopes.find?_ofList_cons]) (hsuper true)
  | bound => exact absurd (by simp [Scopes.find?_ofList_cons]) (hthis true)

/-- A function that is declared by a statement. -/
theorem Hosts.kept {scopes : Scopes} {home : Option EnvId} {e : EnvId} (h : Hosts os e scopes home)
    (decl : FunctionDecl) : (⟨decl,e,false⟩ : Function).Kept os := by
  obtain ⟨origin,he,-,hnot⟩ := h.exists_origin
  refine ⟨origin,he,?_⟩
  cases origin with
  | bound method c id => exact absurd rfl (hnot method c id)
  | _ => rfl

/-- The environment of the methods of a class. -/
theorem roots_methodScope (h : m.Rooted p os here) {scopes : Scopes} {home : Option EnvId}
    (hhosts : Hosts os here scopes home) {methods : List FunctionDecl} {superclass : Option Token}
    {parent : Option Class} (hsome : parent.isSome = superclass.isSome)
    (hparent : ∀ c, parent = some c → c.Rooted p os) :
    Roots p (os ++ Origin.ofClass here methods parent) here
      (fun os closure => Backed os closure (scopes.aroundMethods superclass) home ∧
        ∃ origin, os[closure]? = some origin ∧ ∀ decl ∈ methods, origin.Declares decl)
      (Eval.methodScope here parent m) := by
  cases parent with
  | none =>
    obtain rfl : superclass = none := by simpa using hsome.symm
    obtain ⟨origin,horigin,hdeclares,-⟩ := hhosts.exists_origin
    simp only [Origin.ofClass,Option.toList_none,List.map_nil,List.append_nil]
    exact .pure h ⟨hhosts.backed,origin,horigin,fun decl _ => hdeclares decl⟩
  | some c =>
    obtain ⟨token,rfl⟩ := Option.isSome_iff_exists.1 hsome.symm
    have hclass : (Value.class_ c).Rooted p os := hparent c rfl
    have hbindings : ∀ name x, (NameMap.ofList [(superName,Value.class_ c)]).get? name = some x →
        x.Rooted p os := fun name x hget => NameMap.of_get?_single hclass hget
    have henv := roots_newEnv h (.derived here methods c) rfl (NameMap.get?_single _ _)
      (fun _ _ => trivial) hbindings
    apply henv.weaken
    intro closure hclosure
    have houter := hhosts.backed.mono (List.prefix_append os [.derived here methods c])
    exact ⟨.derived hclosure houter,_,hclosure,fun decl hdecl => hdecl⟩

theorem roots_declareClass (h : m.Rooted p os here) {ctx : Context} {scopes : Scopes}
    {home : Option EnvId} (hhosts : Hosts os here scopes home) {name : Token}
    {superclass : Option Token} {methods : List FunctionDecl}
    (hscoped : (Stmt.classDecl name superclass methods).Scoped p.table scopes)
    (hbelow : ∀ x ∈ FunctionDecl.allRefs methods, x.index < p.limit)
    (hadmits : Admits os here name.lexeme) :
    Roots p (os ++ onResult (Eval.superclass? ctx superclass m) fun parent m =>
        Origin.ofClass m.memory.scope methods parent) here (fun _ _ => True)
      (Eval.declareClass ctx name superclass methods m) := by
  obtain ⟨⟨hplain,-⟩,-,hmethods⟩ := hscoped
  have hinside : Hosts os here (scopes.bind name.lexeme true) home :=
    hhosts.bind hplain hadmits
  have hcovers := Lexical.covers_of_allScoped (hinside.settled.insideClass superclass) hmethods hbelow
  apply (roots_superclass? h).bind
  intro parent m₁ _ hm₁ hparent
  rw [hm₁.scope]
  have hdefine : Roots p os here (fun _ _ => True) (Eval.define name.lexeme .nil m₁) :=
    roots_define hm₁ hplain hadmits trivial
  -- defining the name can not fail, so what is added does not depend on its result
  show Roots p (os ++ onResult (Eval.define name.lexeme .nil m₁) fun _ _ =>
    Origin.ofClass here methods parent) here _ _
  apply hdefine.bind
  intro _ m₂ _ hm₂ _
  apply Roots.get
  rw [hm₂.scope]
  apply (roots_methodScope hm₂ hinside hparent.1 hparent.2).next
  intro closure m₃ _ hm₃ hclosure
  obtain ⟨hbacked,origin,horigin,hdeclares⟩ := hclosure
  have hrooted : ∀ c, parent = some c → c.Rooted p (os ++ Origin.ofClass here methods parent) :=
    fun c hc => (hparent.2 c hc).append
  apply (roots_newIdentity hm₃).next
  intro id m₄ _ hm₄ _
  apply roots_store hm₄ hplain (hadmits.mono (List.prefix_append _ _))
  exact Class.rooted_extending hbacked horigin
    (fun decl hdecl => ⟨hcovers decl hdecl,hdeclares decl hdecl⟩) hrooted

end

end Scriptlet
