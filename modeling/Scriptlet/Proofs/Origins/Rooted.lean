import Scriptlet.Proofs.Lexical.Names
import Scriptlet.Proofs.Origins

/-! # Closures against the log

In every state of a run, the static scopes around the body of a function are backed by the
environments of its closure, one by one: those that bind `this` by an environment in which a method
was bound, those that bind `super` by the environment of a class that extends another one, and all
others by blocks and calls. This holds of all functions that a program gets hold of, also of the
methods of classes that are still to be bound, and each step of the machine keeps it. An initializer
is always a method that was bound: its closure is the environment in which the binding was made. The
environment of a block binds nothing but what the block declares.
-/
namespace Scriptlet

open Lexical (Places)

/-! ## The words `this` and `super` -/

mutual

/-- The occurrences of `this` and `super` in an expression. -/
def Expr.receivers : Expr → List Token
  | .literal _ | .variable_ _ => []
  | .self keyword => [keyword]
  | .superMethod keyword _ => [keyword]
  | .grouping inner => inner.receivers
  | .unary _ _ operand => operand.receivers
  | .binary _ _ left right => left.receivers ++ right.receivers
  | .logical _ left right => left.receivers ++ right.receivers
  | .assign _ value => value.receivers
  | .get object _ => object.receivers
  | .set object _ value => value.receivers ++ object.receivers
  | .call callee _ arguments => callee.receivers ++ Expr.allReceivers arguments

def Expr.allReceivers : List Expr → List Token
  | [] => []
  | e :: rest => e.receivers ++ Expr.allReceivers rest

end

mutual

/-- The occurrences of `this` and `super` that refer to the method around a statement. Functions in
it refer to the same method, classes have methods of their own. -/
def Stmt.receivers : Stmt → List Token
  | .expression value => value.receivers
  | .print value => value.receivers
  | .varDecl _ none => []
  | .varDecl _ (some value) => value.receivers
  | .block body => Stmt.allReceivers body
  | .ifElse condition thenBranch none => condition.receivers ++ thenBranch.receivers
  | .ifElse condition thenBranch (some elseBranch) =>
    condition.receivers ++ (thenBranch.receivers ++ elseBranch.receivers)
  | .while_ condition body => condition.receivers ++ body.receivers
  | .return_ _ none => []
  | .return_ _ (some value) => value.receivers
  | .funDecl decl => decl.receivers
  | .classDecl _ _ _ => []

def Stmt.allReceivers : List Stmt → List Token
  | [] => []
  | s :: rest => s.receivers ++ Stmt.allReceivers rest

def FunctionDecl.receivers : FunctionDecl → List Token
  | ⟨_,_,body⟩ => Stmt.allReceivers body

end

theorem FunctionDecl.receivers_eq (decl : FunctionDecl) :
    decl.receivers = Stmt.allReceivers decl.body := by
  cases decl
  rfl

/-! ## Backed scopes -/

/-- The environment around a block or a call. -/
def Origin.body? : Origin → Option EnvId
  | .block outer _ => some outer
  | .call f => some f.closure
  | _ => none

theorem Origin.outer?_of_body? {origin : Origin} {outer : EnvId} (h : origin.body? = some outer) :
    origin.outer? = some outer ∧ ∀ method c id, origin ≠ .bound method c id := by
  cases origin with
  | block | call => exact ⟨h,fun _ _ _ => nofun⟩
  | globals | derived | bound => cases h

theorem Machine.FormedBy.ancestor?_succ {os : List Origin} {m : Machine} (hm : m.FormedBy os)
    {e outer : EnvId} {origin : Origin} (he : os[e]? = some origin)
    (houter : origin.outer? = some outer) (distance : Nat) :
    m.memory.store.ancestor? e (distance + 1) = m.memory.store.ancestor? outer distance := by
  obtain ⟨env,henv,hencloses,-⟩ := hm.envs he
  rw [houter] at hencloses
  rw [Store.ancestor?,henv]
  simp only [hencloses]

/-- A scope that declares neither `this` nor `super`. -/
structure NameMap.HasPlainNames (scope : NameMap Bool) : Prop where
  this_ : scope.get? thisName = none
  super : scope.get? superName = none

theorem NameMap.HasPlainNames.insert {scope : NameMap Bool} (h : scope.HasPlainNames) {name : Bytes}
    (hname : IsPlain name) (finished : Bool) : (scope.insert name finished).HasPlainNames := by
  constructor
  · rw [get?_insert,if_neg (by simpa using hname.1.symm),h.this_]
  · rw [get?_insert,if_neg (by simpa using hname.2.symm),h.super]

/-- A name that the environment can bind. In that of a block these are the names that the block
declares. -/
def Origin.Admits (name : Bytes) : Origin → Prop
  | .block _ body => ∃ s ∈ body, ∃ token, s.declared? = some token ∧ token.lexeme = name
  | _ => True

def Admits (os : List Origin) (e : EnvId) (name : Bytes) : Prop :=
  ∃ origin, os[e]? = some origin ∧ origin.Admits name

theorem Admits.mono {os os' : List Origin} {e : EnvId} {name : Bytes} (h : Admits os e name)
    (hos : os <+: os') : Admits os' e name := by
  obtain ⟨origin,he,hname⟩ := h
  exact ⟨origin,getElem?_of_isPrefix hos he,hname⟩

/-- The environment can bind all that some statements declare. -/
def Houses (os : List Origin) (e : EnvId) (ss : List Stmt) : Prop :=
  ∀ s ∈ ss, ∀ token, s.declared? = some token → Admits os e token.lexeme

theorem Houses.mono {os os' : List Origin} {e : EnvId} {ss : List Stmt} (h : Houses os e ss)
    (hos : os <+: os') : Houses os' e ss :=
  fun s hs token hdeclared => (h s hs token hdeclared).mono hos

/-- If the environment is that of a class, it declares the method. -/
def Origin.Declares (decl : FunctionDecl) : Origin → Prop
  | .derived _ methods _ => decl ∈ methods
  | _ => True

/-- The method was created by the class declaration that created its closure. -/
def Function.Declared (os : List Origin) (method : Function) : Prop :=
  ∃ origin, os[method.closure]? = some origin ∧ origin.Declares method.decl

theorem Function.Declared.mono {os os' : List Origin} {method : Function} (h : method.Declared os)
    (hos : os <+: os') : method.Declared os' := by
  obtain ⟨origin,horigin,hdeclares⟩ := h
  exact ⟨origin,getElem?_of_isPrefix hos horigin,hdeclares⟩

/-- The scopes around a place are backed by the environments around `e`. The last argument is the
environment of the method around the place, if there is one. -/
inductive Backed (os : List Origin) : EnvId → Scopes → Option EnvId → Prop
  | globals : os[globalScope]? = some .globals → Backed os globalScope [] none
  | body {e outer : EnvId} {origin : Origin} {scope : NameMap Bool} {scopes : Scopes}
      {home : Option EnvId} : os[e]? = some origin → origin.body? = some outer →
      scope.HasPlainNames → (∀ name, (scope.get? name).isSome → origin.Admits name) →
      Backed os outer scopes home → Backed os e (scope :: scopes) home
  | derived {e outer : EnvId} {methods : List FunctionDecl} {parent : Class} {scopes : Scopes}
      {home : Option EnvId} : os[e]? = some (.derived outer methods parent) →
      Backed os outer scopes home → Backed os e (.ofList [(superName,true)] :: scopes) home
  | bound {e : EnvId} {method : Function} {c : Class} {id : Nat} {scopes : Scopes}
      {home : Option EnvId} : os[e]? = some (.bound method c id) → method.Declared os →
      Backed os method.closure scopes home → Backed os e (.ofList [(thisName,true)] :: scopes) (some e)

theorem Backed.mono {os os' : List Origin} {e : EnvId} {scopes : Scopes} {home : Option EnvId}
    (h : Backed os e scopes home) (hos : os <+: os') : Backed os' e scopes home := by
  induction h with
  | globals h => exact .globals (getElem?_of_isPrefix hos h)
  | body he hbody hscope hadmits _ ih =>
    exact .body (getElem?_of_isPrefix hos he) hbody hscope hadmits ih
  | derived he _ ih => exact .derived (getElem?_of_isPrefix hos he) ih
  | bound he hdeclared _ ih => exact .bound (getElem?_of_isPrefix hos he) (hdeclared.mono hos) ih

theorem Scopes.of_find?_cons {scope : NameMap Bool} {scopes : Scopes} {name : Bytes} {d : Nat}
    {finished : Bool} (h : Scopes.find? (scope :: scopes) name = some (d,finished)) :
    d = 0 ∧ (scope.get? name).isSome ∨ ∃ d', d = d' + 1 ∧ scopes.find? name = some (d',finished) := by
  rw [find?] at h
  split at h
  · next hget =>
    cases h
    exact .inl ⟨rfl,by rw [hget]; rfl⟩
  · obtain ⟨⟨d',_⟩,hfind,heq⟩ := Option.map_eq_some_iff.1 h
    cases heq
    exact .inr ⟨d',rfl,hfind⟩

/-- The environment at the distance of a name can bind the name. -/
theorem Backed.admits {os : List Origin} {e holder : EnvId} {scopes : Scopes} {home : Option EnvId}
    (h : Backed os e scopes home) {m : Machine} (hm : m.FormedBy os) {name : Bytes} {d : Nat}
    {finished : Bool} (hfind : scopes.find? name = some (d,finished))
    (hholder : m.memory.store.ancestor? e d = some holder) : Admits os holder name := by
  induction h generalizing d with
  | globals => cases hfind
  | body he hbody _ hadmits _ ih =>
    rcases Scopes.of_find?_cons hfind with ⟨rfl,hsome⟩ | ⟨d',rfl,hrest⟩
    · obtain rfl := Option.some.inj hholder
      exact ⟨_,he,hadmits name hsome⟩
    · rw [hm.ancestor?_succ he (Origin.outer?_of_body? hbody).1] at hholder
      exact ih hrest hholder
  | derived he _ ih | bound he _ _ ih =>
    rcases Scopes.of_find?_cons hfind with ⟨rfl,-⟩ | ⟨d',rfl,hrest⟩
    · obtain rfl := Option.some.inj hholder
      exact ⟨_,he,trivial⟩
    · rw [hm.ancestor?_succ he rfl] at hholder
      exact ih hrest hholder

theorem Scopes.Open.bind {scopes : Scopes} {name other : Bytes} (h : scopes.Open other)
    (hne : other ≠ name) (finished : Bool) : (scopes.bind name finished).Open other := by
  by_cases hnil : scopes = []
  · subst hnil
    exact h
  · intro f hfind
    rw [find?_bind hnil,if_neg (by simpa using hne)] at hfind
    exact h f hfind

/-- Scopes in which statements stand: nothing is being initialized, and the innermost one is not
that of a class. -/
structure Hosts (os : List Origin) (e : EnvId) (scopes : Scopes) (home : Option EnvId) : Prop where
  backed : Backed os e scopes home
  settled : scopes.Settled
  this_ : scopes.Open thisName
  super : scopes.Open superName

namespace Hosts

variable {os os' : List Origin} {e : EnvId} {scopes : Scopes} {home : Option EnvId} {name : Bytes}

theorem globals (h : os[globalScope]? = some .globals) : Hosts os globalScope [] none where
  backed := .globals h
  settled := .nil
  this_ _ := nofun
  super _ := nofun

theorem mono (h : Hosts os e scopes home) (hos : os <+: os') : Hosts os' e scopes home :=
  ⟨h.backed.mono hos,h.settled,h.this_,h.super⟩

/-- A new block, or the environment of a call before its parameters are bound. -/
theorem inner {outer : EnvId} {origin : Origin} (he : os[e]? = some origin)
    (hbody : origin.body? = some outer) (h : Backed os outer scopes home) (hsettled : scopes.Settled) :
    Hosts os e (.empty :: scopes) home := by
  refine ⟨.body he hbody ⟨rfl,rfl⟩ (fun _ => nofun) h,hsettled.inner,fun f hfind => ?_,
    fun f hfind => ?_⟩
  all_goals
    rw [Scopes.find?_empty_cons,Option.map_eq_some_iff] at hfind
    obtain ⟨found,-,hfound⟩ := hfind
    cases hfound

theorem bind_backed (h : Hosts os e scopes home) (hname : IsPlain name) (hadmits : Admits os e name)
    (finished : Bool) : Backed os e (scopes.bind name finished) home := by
  obtain ⟨hbacked,-,hthis,hsuper⟩ := h
  cases hbacked with
  | globals h => exact .globals h
  | body he hbody hscope hothers hrest =>
    refine .body he hbody (hscope.insert hname finished) (fun other hother => ?_) hrest
    rw [NameMap.get?_insert] at hother
    split at hother
    · next heq =>
      obtain ⟨origin,he',hname⟩ := hadmits
      rw [he] at he'
      obtain rfl := Option.some.inj he'
      rw [eq_of_beq heq]
      exact hname
    · exact hothers other hother
  -- names are never declared in the scopes that are made for a class
  | derived => exact absurd (by simp [Scopes.find?_ofList_cons]) (hsuper true)
  | bound => exact absurd (by simp [Scopes.find?_ofList_cons]) (hthis true)

theorem bind (h : Hosts os e scopes home) (hname : IsPlain name) (hadmits : Admits os e name) :
    Hosts os e (scopes.bind name true) home :=
  ⟨h.bind_backed hname hadmits true,h.settled.bind,h.this_.bind hname.1.symm true,
    h.super.bind hname.2.symm true⟩

theorem bindAll (h : Hosts os e scopes home) {params : List Token}
    (hparams : scopes.CanDeclareAll params) (hadmits : ∀ name, Admits os e name) :
    Hosts os e (scopes.bindAll params) home := by
  induction params generalizing scopes with
  | nil => exact h
  | cons param rest ih => exact ih (h.bind hparams.1.1 (hadmits _)) hparams.2

theorem after (h : Hosts os e scopes home) {table : Table} {s : Stmt} (hs : s.Scoped table scopes)
    (hadmits : ∀ token, s.declared? = some token → Admits os e token.lexeme) :
    Hosts os e (scopes.after s) home := by
  cases s with
  | varDecl name initial =>
    cases initial with
    | none => exact h.bind hs.1 (hadmits name rfl)
    | some value => exact h.bind hs.1.1 (hadmits name rfl)
  | funDecl decl => exact h.bind hs.1.1 (hadmits decl.name rfl)
  | classDecl name superclass methods => exact h.bind hs.1.1 (hadmits name rfl)
  | _ => exact h

end Hosts

/-! ## Functions -/

/-- The given uses of `this` and `super` stand in the method of the environment `home`. Where there is
no method, there are no such uses. -/
def Belongs (os : List Origin) (home : Option EnvId) (receivers : List Token) : Prop :=
  ∀ x ∈ receivers, ∃ (b : EnvId) (method : Function) (c : Class) (id : Nat), home = some b ∧
    os[b]? = some (.bound method c id) ∧ x ∈ method.decl.receivers

/-- What the environment that a function keeps was created for tells of the function. In that of a
bound method there is only this method, and functions that are declared are no initializers. -/
def Origin.Keeps (f : Function) : Origin → Prop
  | .bound method _ _ => f.decl = method.decl ∧
      f.isInitializer = decide (method.decl.name.lexeme = initializerName)
  | _ => f.isInitializer = false

def Function.Kept (os : List Origin) (f : Function) : Prop :=
  ∃ origin, os[f.closure]? = some origin ∧ origin.Keeps f

/-- A function that can be called. -/
def Function.Rooted (p : Places) (os : List Origin) (f : Function) : Prop :=
  (∃ scopes home, Backed os f.closure scopes home ∧ p.Covers scopes f.decl ∧
    Belongs os home f.decl.receivers) ∧ f.Kept os

/-- A method of the given name that is still to be bound to an instance. -/
structure Function.IsMethod (p : Places) (os : List Origin) (name : Bytes) (f : Function) : Prop where
  backed : ∃ scopes home, Backed os f.closure scopes home ∧
    p.Covers (.ofList [(thisName,true)] :: scopes) f.decl
  declared : f.Declared os
  named : f.decl.name.lexeme = name
  initializer : f.isInitializer = decide (name = initializerName)

def Class.Rooted (p : Places) (os : List Origin) (c : Class) : Prop :=
  ∀ body ∈ c.lineage, ∀ name f, body.methods.get? name = some f → f.IsMethod p os name

def Value.Rooted (p : Places) (os : List Origin) : Value → Prop
  | .function _ f => f.Rooted p os
  | .class_ c | .object c _ => c.Rooted p os
  | _ => True

section

variable {p p' : Places} {os os' more : List Origin} {home : Option EnvId}

theorem Belongs.part {whole part : List Token} (h : Belongs os home whole) (hpart : part ⊆ whole) :
    Belongs os home part :=
  fun x hx => h x (hpart hx)

theorem Belongs.mono {receivers : List Token} (h : Belongs os home receivers) (hos : os <+: os') :
    Belongs os' home receivers := by
  intro x hx
  obtain ⟨b,method,c,id,hhome,hb,hmem⟩ := h x hx
  exact ⟨b,method,c,id,hhome,getElem?_of_isPrefix hos hb,hmem⟩

theorem Function.Rooted.mono {f : Function} (h : f.Rooted p os) (hp : p.Later p') (hos : os <+: os') :
    f.Rooted p' os' := by
  obtain ⟨⟨scopes,home,hbacked,hcovers,hbelongs⟩,origin,horigin,hkeeps⟩ := h
  exact ⟨⟨scopes,home,hbacked.mono hos,hcovers.later hp,hbelongs.mono hos⟩,origin,
    getElem?_of_isPrefix hos horigin,hkeeps⟩

theorem Function.IsMethod.mono {f : Function} {name : Bytes} (h : f.IsMethod p os name)
    (hp : p.Later p') (hos : os <+: os') : f.IsMethod p' os' name := by
  obtain ⟨⟨scopes,home,hbacked,hcovers⟩,hdeclared,hnamed,hinitializer⟩ := h
  exact ⟨⟨scopes,home,hbacked.mono hos,hcovers.later hp⟩,hdeclared.mono hos,hnamed,hinitializer⟩

theorem Class.Rooted.mono {c : Class} (h : c.Rooted p os) (hp : p.Later p') (hos : os <+: os') :
    c.Rooted p' os' :=
  fun body hbody name f hf => (h body hbody name f hf).mono hp hos

theorem Value.Rooted.mono {x : Value} (h : x.Rooted p os) (hp : p.Later p') (hos : os <+: os') :
    x.Rooted p' os' := by
  cases x with
  | function id f => exact Function.Rooted.mono h hp hos
  | class_ c => exact Class.Rooted.mono h hp hos
  | object c id => exact Class.Rooted.mono h hp hos
  | scalar | builtin | uninitialized => trivial

/-- A value stays rooted when environments are added. -/
theorem Value.Rooted.append {x : Value} (h : x.Rooted p os) : x.Rooted p (os ++ more) :=
  h.mono (.refl p) (List.prefix_append _ _)

theorem Class.Rooted.append {c : Class} (h : c.Rooted p os) : c.Rooted p (os ++ more) :=
  h.mono (.refl p) (List.prefix_append _ _)

theorem Class.Rooted.findMethod? {c : Class} (h : c.Rooted p os) {name : Bytes} {f : Function}
    (hf : c.findMethod? name = some f) : f.IsMethod p os name := by
  obtain ⟨body,hbody,hmethod⟩ := List.exists_of_findSome?_eq_some hf
  exact h body hbody name f hmethod

/-- A class whose methods are created in a backed environment. -/
theorem Class.rooted_extending {closure : EnvId} {id : Nat} {name : Bytes}
    {methods : List FunctionDecl} {parent : Option Class} {scopes : Scopes} {origin : Origin}
    (hbacked : Backed os closure scopes home) (horigin : os[closure]? = some origin)
    (hmethods : ∀ decl ∈ methods, p.Covers (.ofList [(thisName,true)] :: scopes) decl ∧
      origin.Declares decl) (hparent : ∀ c, parent = some c → c.Rooted p os) :
    ((ClassBody.declared id name closure methods).extending parent).Rooted p os := by
  apply Class.of_extending _ hparent
  intro decl hdecl
  obtain ⟨hcovers,hdeclares⟩ := hmethods decl hdecl
  exact ⟨⟨scopes,home,hbacked,hcovers⟩,⟨origin,horigin,hdeclares⟩,rfl,rfl⟩

end

/-! ## Machines -/

/-- A machine whose environments are those of the log, and which holds rooted values only. Names are
bound only where the log admits them. -/
structure Machine.Rooted (p : Places) (os : List Origin) (here : EnvId) (m : Machine) : Prop where
  formed : m.FormedBy os
  scope : m.memory.scope = here
  bound : ∀ {e name x}, m.memory.store.bound? e name = some x → x.Rooted p os
  admitted : ∀ {e name x}, m.memory.store.bound? e name = some x → Admits os e name
  fields : ∀ {object name x}, m.fieldOf? object name = some x → x.Rooted p os

theorem Origin.Binds.insert {origin : Origin} {bindings : NameMap Value} (h : origin.Binds bindings)
    {name : Bytes} (hname : IsPlain name) (x : Value) : origin.Binds (bindings.insert name x) := by
  cases origin with
  | derived outer methods parent =>
    rw [Binds,NameMap.get?_insert,if_neg (by simpa using hname.2.symm)]
    exact h
  | bound method c id =>
    rw [Binds,NameMap.get?_insert,if_neg (by simpa using hname.1.symm)]
    exact h
  | globals | block | call => trivial

namespace Machine.Rooted

variable {p p' : Places} {os : List Origin} {here : EnvId} {m m' : Machine}

/-- Only environments and fields matter. -/
theorem congr (h : m.Rooted p os here) (hmemory : m'.memory = m.memory)
    (hobjects : m'.objects = m.objects) : m'.Rooted p os here := by
  obtain ⟨⟨hsize,henvs⟩,hscope,hbound,hadmitted,hfields⟩ := h
  unfold size fieldOf? at *
  constructor
  · constructor <;> simp only [size,hmemory] <;> assumption
  · rw [hmemory]
    exact hscope
  · rw [hmemory]
    exact hbound
  · rw [hmemory]
    exact hadmitted
  · simp only [fieldOf?,hobjects]
    exact hfields

theorem later (h : m.Rooted p os here) (hp : p.Later p') : m.Rooted p' os here where
  formed := h.formed
  scope := h.scope
  bound hx := (h.bound hx).mono hp (List.prefix_refl _)
  admitted := h.admitted
  fields hx := (h.fields hx).mono hp (List.prefix_refl _)

theorem enter (h : m.Rooted p os here) (e : EnvId) :
    Machine.Rooted p os e { m with memory.scope := e } :=
  ⟨⟨h.formed.size,h.formed.envs⟩,rfl,h.bound,h.admitted,h.fields⟩

/-- An environment of the given origin is created, which takes the next place of the log. -/
theorem push (h : m.Rooted p os here) {origin : Origin} {outer : EnvId} {bindings : NameMap Value}
    (houter : origin.outer? = some outer) (hbinds : origin.Binds bindings)
    (hadmits : ∀ name, (bindings.get? name).isSome → origin.Admits name)
    (hbindings : ∀ name x, bindings.get? name = some x → x.Rooted p os) :
    Machine.Rooted p (os ++ [origin]) here
      { m with memory.store := m.memory.store.push ⟨some outer,bindings⟩ } := by
  constructor
  · constructor
    · rw [size,Store.size_push,List.length_append,← h.formed.size]
      rfl
    · intro e origin' he
      rw [Store.get?_push]
      by_cases hnew : e = m.memory.store.size
      · have hlength : e = os.length := hnew.trans h.formed.size
        rw [if_pos hnew]
        rw [hlength,List.getElem?_concat_length] at he
        obtain rfl := Option.some.inj he
        exact ⟨_,rfl,houter.symm,hbinds⟩
      · rw [if_neg hnew]
        have hlength : e ≠ os.length := fun heq => hnew (heq.trans h.formed.size.symm)
        have hlt : e < os.length := by
          have hle := (List.getElem?_eq_some_iff.1 he).1
          rw [List.length_append,List.length_singleton] at hle
          exact Nat.lt_of_le_of_ne (Nat.le_of_lt_succ hle) hlength
        rw [List.getElem?_append_left hlt] at he
        exact h.formed.envs he
  · exact h.scope
  · intro e name x hbound
    obtain ⟨env,henv,hget⟩ := Option.bind_eq_some_iff.1 hbound
    rw [Store.get?_push] at henv
    split at henv
    · obtain rfl := Option.some.inj henv
      exact (hbindings name x hget).append
    · exact (h.bound (Option.bind_eq_some_iff.2 ⟨env,henv,hget⟩)).append
  · intro e name x hbound
    obtain ⟨env,henv,hget⟩ := Option.bind_eq_some_iff.1 hbound
    rw [Store.get?_push] at henv
    split at henv
    · next hnew =>
      obtain rfl := Option.some.inj henv
      have hlength : e = os.length := hnew.trans h.formed.size
      exact ⟨origin,hlength ▸ List.getElem?_concat_length,hadmits name (Option.isSome_of_eq_some hget)⟩
    · have hold := h.admitted (Option.bind_eq_some_iff.2 ⟨env,henv,hget⟩)
      exact hold.mono (List.prefix_append _ _)
  · intro object name x hfield
    exact (h.fields hfield).append

/-- No name but `this` and `super` is ever bound later, so environments keep what they are for. -/
theorem write (h : m.Rooted p os here) {e : EnvId} {name : Bytes} {x : Value} (hname : IsPlain name)
    (hadmits : Admits os e name) (hx : x.Rooted p os) :
    Machine.Rooted p os here { m with memory.store := m.memory.store.define e name x } := by
  constructor
  · constructor
    · rw [← h.formed.size]
      exact Store.size_define
    · intro e' origin he
      obtain ⟨env,henv,hencloses,hbinds⟩ := h.formed.envs he
      rw [Store.get?_define,henv]
      refine ⟨_,rfl,?_⟩
      split
      · exact ⟨hencloses,hbinds.insert hname x⟩
      · exact ⟨hencloses,hbinds⟩
  · exact h.scope
  · intro e' key y hbound
    rcases Store.of_bound?_define hbound with rfl | hold
    · exact hx
    · exact h.bound hold
  · intro e' key y hbound
    by_cases hsame : e = e' ∧ key = name
    · obtain ⟨rfl,rfl⟩ := hsame
      exact hadmits
    · obtain ⟨origin,he,-⟩ := hadmits
      have hlt : e < m.memory.store.size := by
        have hlength := (List.getElem?_eq_some_iff.1 he).1
        rwa [← h.formed.size] at hlength
      rw [Store.bound?_define hlt,if_neg hsame] at hbound
      exact h.admitted hbound
  · exact h.fields

theorem newObject (h : m.Rooted p os here) :
    Machine.Rooted p os here { m with objects := m.objects.push .empty } := by
  refine ⟨⟨h.formed.size,h.formed.envs⟩,h.scope,h.bound,h.admitted,?_⟩
  intro object name x hfield
  rw [fieldOf?_newObject] at hfield
  exact h.fields hfield

theorem setField (h : m.Rooted p os here) {object : Nat} {name : Bytes} {x : Value}
    (hx : x.Rooted p os) :
    Machine.Rooted p os here { m with objects := m.objects.modify object (·.insert name x) } := by
  refine ⟨⟨h.formed.size,h.formed.envs⟩,h.scope,h.bound,h.admitted,?_⟩
  intro id key y hfield
  rcases of_fieldOf?_setField hfield with rfl | hold
  · exact hx
  · exact h.fields hold

end Machine.Rooted

/-- In a new session there is only the environment of the globals. -/
theorem Machine.rooted_start (p : Places) (clock : Clock) :
    (Machine.start clock).Rooted p [.globals] globalScope := by
  constructor
  · constructor
    · rfl
    · intro e origin he
      obtain ⟨hlt,rfl⟩ := List.getElem?_eq_some_iff.1 he
      obtain rfl : e = 0 := Nat.lt_one_iff.1 hlt
      exact ⟨_,rfl,rfl,trivial⟩
  · rfl
  · intro e name x hbound
    obtain ⟨env,henv,hget⟩ := Option.bind_eq_some_iff.1 hbound
    rw [Machine.start,Store.get?_push] at henv
    split at henv
    · obtain rfl := Option.some.inj henv
      obtain ⟨builtin,-,hentry⟩ := List.mem_map.1 (NameMap.mem_of_get?_ofList hget)
      obtain ⟨-,rfl⟩ := Prod.mk.inj hentry
      trivial
    · cases henv
  · intro e name x hbound
    obtain ⟨env,henv,-⟩ := Option.bind_eq_some_iff.1 hbound
    obtain rfl : e = 0 := Nat.lt_one_iff.1 (Store.lt_size_of_get? henv)
    exact ⟨.globals,rfl,trivial⟩
  · intro object name x hfield
    cases hfield

/-! ## Steps -/

/-- Steps leave a machine that is rooted in the given log, in the environment in which they were begun,
and what they give is as it should be. -/
def Roots {α : Type} (p : Places) (os : List Origin) (here : EnvId) (Q : List Origin → α → Prop) :
    EStateM.Result Abort Machine α → Prop
  | .ok a m => m.Rooted p os here ∧ Q os a
  | .error _ m => m.Rooted p os here

namespace Roots

variable {α β : Type} {p : Places} {os : List Origin} {here : EnvId} {m : Machine}
  {P : List Origin → α → Prop} {Q : List Origin → β → Prop} {x : Eval α} {f : α → Eval β}

theorem pure (h : m.Rooted p os here) {a : α} (ha : P os a) : Roots p os here P (.ok a m) := ⟨h,ha⟩

theorem error (h : m.Rooted p os here) {e : Abort} : Roots p os here P (.error e m) := h

theorem idle (h : m.Rooted p os here) {e : Abort} : Roots p (os ++ []) here P (.error e m) := by
  rw [List.append_nil]
  exact h

theorem weaken {P' : List Origin → α → Prop} {r : EStateM.Result Abort Machine α}
    (h : Roots p os here P r) (hp : ∀ a, P os a → P' os a) : Roots p os here P' r := by
  cases r with
  | ok a m => exact ⟨h.1,hp a h.2⟩
  | error e m => exact h

theorem of_ok {r : EStateM.Result Abort Machine α} (h : Roots p os here P r) {a : α} {m : Machine}
    (hr : r = .ok a m) : m.Rooted p os here ∧ P os a := by
  subst hr
  exact h

theorem rooted {r : EStateM.Result Abort Machine α} (h : Roots p os here P r) :
    (machineAfter r).Rooted p os here := by
  cases r with
  | ok a m => exact h.1
  | error e m => exact h

/-- The environments of the second steps follow on those of the first. -/
theorem bind {later : α → Machine → List Origin} (hx : Roots p os here P (x m))
    (hf : ∀ a m', x m = .ok a m' → m'.Rooted p os here → P os a →
      Roots p (os ++ later a m') here Q (f a m')) :
    Roots p (os ++ onResult (x m) later) here Q ((x >>= f) m) := by
  cases hresult : x m with
  | ok a m' =>
    rw [hresult] at hx
    have hnext := hf a m' hresult hx.1 hx.2
    have hsteps : (x >>= f) m = f a m' := by simp [Bind.bind,EStateM.bind,hresult]
    rw [hsteps,onResult_ok]
    exact hnext
  | error e m' =>
    rw [hresult] at hx
    have hsteps : (x >>= f) m = .error e m' := by simp [Bind.bind,EStateM.bind,hresult]
    rw [hsteps,onResult_error,List.append_nil]
    exact hx

/-- The second steps create no environment. -/
theorem next (hx : Roots p os here P (x m))
    (hf : ∀ a m', x m = .ok a m' → m'.Rooted p os here → P os a → Roots p os here Q (f a m')) :
    Roots p os here Q ((x >>= f) m) := by
  have hsilent : Roots p (os ++ onResult (x m) fun _ _ => []) here Q ((x >>= f) m) := by
    apply hx.bind
    intro a m' ha hm' hp
    rw [List.append_nil]
    exact hf a m' ha hm' hp
  rwa [onResult_nil,List.append_nil] at hsilent

theorem get {f : Machine → Eval α} (h : Roots p os here P (f m m)) :
    Roots p os here P (((MonadState.get : Eval Machine) >>= f) m) := h

/-- Steps in another environment, after which the machine goes back. -/
theorem inScope {scope : EnvId} (h : m.memory.scope = here)
    (hx : Roots p os scope P (x { m with memory.scope := scope })) :
    Roots p os here P (Eval.inScope scope x m) := by
  unfold Eval.inScope
  cases hresult : x { m with memory.scope := scope } with
  | ok a m' =>
    rw [hresult] at hx
    rw [← h]
    exact ⟨hx.1.enter _,hx.2⟩
  | error e m' =>
    rw [hresult] at hx
    rw [← h]
    exact hx.enter _

end Roots

end Scriptlet
