import Scriptlet.Evaluation
import Scriptlet.Proofs.Likeness
import Scriptlet.Proofs.Relocation

/-! # Moving a machine

Functions keep their declarations, so a relocation carries over to values and to all that holds
values. Steps of a machine do not look at lines, nor at what was printed before: they do to the moved
machine what they do to the machine, and what they print comes after the earlier lines.
-/
namespace Scriptlet

namespace NameMap

variable {α β : Type} (f : α → β)

def map (m : NameMap α) : NameMap β := ⟨m.entries.map fun e => (e.1,f e.2)⟩

@[simp] theorem map_empty : (empty : NameMap α).map f = empty := rfl

@[simp] theorem get?_map (m : NameMap α) (name : Bytes) : (m.map f).get? name = (m.get? name).map f := by
  obtain ⟨entries⟩ := m
  simp only [map,get?]
  induction entries with
  | nil => rfl
  | cons e rest ih =>
    obtain ⟨key,value⟩ := e
    simp only [List.map_cons,List.lookup_cons,ih]
    cases name == key <;> rfl

theorem insertEntry_map (name : Bytes) (value : α) (entries : List (Bytes × α)) :
    insertEntry name (f value) (entries.map fun e => (e.1,f e.2)) =
      (insertEntry name value entries).map fun e => (e.1,f e.2) := by
  induction entries with
  | nil => rfl
  | cons e rest ih =>
    simp only [List.map_cons,insertEntry,ih]
    cases name == e.1 <;> rfl

@[simp] theorem map_insert (m : NameMap α) (name : Bytes) (value : α) :
    (m.insert name value).map f = (m.map f).insert name (f value) := by
  simp [map,insert,insertEntry_map]

theorem map_ofList (bindings : List (Bytes × α)) :
    (ofList bindings).map f = ofList (bindings.map fun b => (b.1,f b.2)) := by
  have hfold : ∀ (m : NameMap α), (bindings.foldl (fun m b => m.insert b.1 b.2) m).map f =
      (bindings.map fun b => (b.1,f b.2)).foldl (fun m b => m.insert b.1 b.2) (m.map f) := by
    induction bindings with
    | nil => exact fun _ => rfl
    | cons b rest ih => exact fun m => by simp [ih]
  exact hfold empty

end NameMap

/-! ## Values -/

section

variable (ρ : Relocation)

def Function.relocate (f : Function) : Function := { f with decl := f.decl.relocate ρ }

def ClassBody.relocate (b : ClassBody) : ClassBody :=
  { b with methods := b.methods.map (Function.relocate ρ) }

def Class.relocate (c : Class) : Class :=
  ⟨c.own.relocate ρ,c.inherited.map (ClassBody.relocate ρ)⟩

def Value.relocate : Value → Value
  | .scalar s => .scalar s
  | .builtin b => .builtin b
  | .function id f => .function id (f.relocate ρ)
  | .class_ c => .class_ (c.relocate ρ)
  | .object c id => .object (c.relocate ρ) id
  | .uninitialized => .uninitialized

@[simp] theorem Function.arity_relocate (f : Function) : (f.relocate ρ).arity = f.arity := by
  simp [Function.relocate,Function.arity]

@[simp] theorem Class.findMethod?_relocate (c : Class) (name : Bytes) :
    (c.relocate ρ).findMethod? name = (c.findMethod? name).map (Function.relocate ρ) := by
  have hlineage : (c.relocate ρ).lineage = c.lineage.map (ClassBody.relocate ρ) := rfl
  rw [Class.findMethod?,Class.findMethod?,hlineage]
  induction c.lineage with
  | nil => rfl
  | cons b rest ih =>
    simp only [List.map_cons,List.findSome?_cons,ih,ClassBody.relocate,NameMap.get?_map]
    cases b.methods.get? name <;> rfl

theorem ClassBody.relocate_declared (id : Nat) (name : Bytes) (closure : EnvId)
    (methods : List FunctionDecl) :
    (ClassBody.declared id name closure methods).relocate ρ =
      .declared id name closure (FunctionDecl.relocateAll ρ methods) := by
  simp [ClassBody.relocate,ClassBody.declared,NameMap.map_ofList,FunctionDecl.relocateAll_eq_map,
    Function.comp_def,Function.relocate]

theorem ClassBody.relocate_extending (own : ClassBody) (parent : Option Class) :
    (own.extending parent).relocate ρ =
      (own.relocate ρ).extending (parent.map (Class.relocate ρ)) := by
  cases parent <;> rfl

theorem Value.alike_relocate (v : Value) : v.Alike (v.relocate ρ) := by
  cases v with
  | scalar s => exact .scalar s
  | builtin b => exact .builtin b
  | function id f => exact .function id (by simp [Function.relocate])
  | class_ c => exact .class_ rfl rfl
  | object c id => exact .object id rfl
  | uninitialized => exact .uninitialized

@[simp] theorem Value.arity?_relocate (v : Value) : (v.relocate ρ).arity? = v.arity? := by
  cases v with
  | class_ c => simp [Value.arity?,Value.relocate,Function.comp_def]
  | function id f => simp [Value.arity?,Value.relocate]
  | _ => rfl

/-! ## Environments -/

def Env.relocate (env : Env) : Env := { env with bindings := env.bindings.map (Value.relocate ρ) }

def Store.relocate (s : Store) : Store := ⟨s.envs.map (Env.relocate ρ)⟩

namespace Store

variable (s : Store) (id : EnvId) (name : Bytes)

@[simp] theorem size_relocate : (s.relocate ρ).size = s.size := by simp [relocate,size]

@[simp] theorem get?_relocate : (s.relocate ρ).get? id = (s.get? id).map (Env.relocate ρ) := by
  simp [relocate,get?]

@[simp] theorem bound?_relocate :
    (s.relocate ρ).bound? id name = (s.bound? id name).map (Value.relocate ρ) := by
  simp only [bound?,get?_relocate]
  cases s.get? id with
  | none => rfl
  | some env => simp [Env.relocate]

theorem push_relocate (env : Env) :
    (s.push env).relocate ρ = (s.relocate ρ).push (env.relocate ρ) := by
  simp [relocate,push]

theorem define_relocate (value : Value) :
    (s.define id name value).relocate ρ = (s.relocate ρ).define id name (value.relocate ρ) := by
  simp only [relocate,define,Store.mk.injEq]
  refine Array.ext (by simp) fun i hi hi' => ?_
  simp only [Array.getElem_map,Array.getElem_modify]
  split <;> simp [Env.relocate]

@[simp] theorem ancestor?_relocate (distance : Nat) :
    (s.relocate ρ).ancestor? id distance = s.ancestor? id distance := by
  induction distance generalizing id with
  | zero => rfl
  | succ distance ih =>
    simp only [ancestor?,get?_relocate]
    cases s.get? id with
    | none => rfl
    | some env =>
      cases henclosing : env.enclosing <;> simp [Env.relocate,henclosing,ih]

theorem chainUpTo_relocate (limit : Nat) :
    (s.relocate ρ).chainUpTo limit id = s.chainUpTo limit id := by
  induction limit generalizing id with
  | zero => rfl
  | succ limit ih =>
    simp only [chainUpTo,get?_relocate]
    cases s.get? id with
    | none => rfl
    | some env =>
      cases henclosing : env.enclosing <;> simp [Env.relocate,henclosing,ih]

@[simp] theorem holder?_relocate : (s.relocate ρ).holder? id name = s.holder? id name := by
  simp [holder?,chain,chainUpTo_relocate]

theorem initialized_relocate (value : Value) :
    initialized name (value.relocate ρ) = (initialized name value).map (Value.relocate ρ) := by
  cases value <;> rfl

theorem read_relocate :
    (s.relocate ρ).read id name = (s.read id name).map (Value.relocate ρ) := by
  simp only [read,holder?_relocate]
  cases s.holder? id name with
  | none => rfl
  | some holder =>
    simp only [Option.bind_some,bound?_relocate]
    cases s.bound? holder name with
    | none => rfl
    | some value => exact initialized_relocate ρ name value

theorem readAt?_relocate (distance : Nat) :
    (s.relocate ρ).readAt? id distance name =
      (s.readAt? id distance name).map (Except.map (Value.relocate ρ)) := by
  simp only [readAt?,ancestor?_relocate]
  cases s.ancestor? id distance with
  | none => rfl
  | some holder =>
    simp only [Option.map_some,bound?_relocate,Option.some.injEq]
    cases s.bound? holder name with
    | none => rfl
    | some value => exact initialized_relocate ρ name value

end Store

/-! ## Steps -/

def Abort.relocate : Abort → Abort
  | .fault error token => .fault error (ρ.move token)
  | .lost => .lost
  | .exhausted => .exhausted

def Outcome.relocate : Outcome → Outcome
  | .normal => .normal
  | .returned value => .returned (value.relocate ρ)

/-- The moved machine, which has printed some lines more before. -/
def Machine.relocate (earlier : List Bytes) (m : Machine) : Machine where
  memory := ⟨m.memory.store.relocate ρ,m.memory.scope⟩
  objects := m.objects.map (NameMap.map (Value.relocate ρ))
  fresh := m.fresh
  clock := m.clock
  printed := m.printed ++ earlier

variable (earlier : List Bytes)

/-- What steps end with on the moved machine, if a result is moved by `g`. -/
def relocateResult {α β : Type} (g : α → β) :
    EStateM.Result Abort Machine α → EStateM.Result Abort Machine β
  | .ok a m => .ok (g a) (m.relocate ρ earlier)
  | .error e m => .error (e.relocate ρ) (m.relocate ρ earlier)

/-- The second steps do on the moved machine what the first do. -/
def Moves {α β : Type} (g : α → β) (x : Eval α) (y : Eval β) : Prop :=
  ∀ m, y (m.relocate ρ earlier) = relocateResult ρ earlier g (x m)

end

namespace Moves

variable {α β γ δ : Type} {ρ : Relocation} {earlier : List Bytes} {g : α → β} {h : γ → δ}

theorem pure (a : α) : Moves ρ earlier g (Pure.pure a) (Pure.pure (g a)) := fun _ => rfl

theorem throw (e : Abort) :
    Moves ρ earlier g (MonadExcept.throw e) (MonadExcept.throw (e.relocate ρ)) :=
  fun _ => rfl

theorem bind {x : Eval α} {y : Eval β} {f : α → Eval γ} {k : β → Eval δ} (hx : Moves ρ earlier g x y)
    (hf : ∀ a, Moves ρ earlier h (f a) (k (g a))) : Moves ρ earlier h (x >>= f) (y >>= k) := by
  intro m
  simp only [Bind.bind,EStateM.bind,hx m]
  cases x m with
  | ok a m' => exact hf a m'
  | error e m' => rfl

theorem get : Moves ρ earlier (Machine.relocate ρ earlier) MonadState.get MonadState.get :=
  fun _ => rfl

theorem modifyGet {f : Machine → α × Machine} {f' : Machine → β × Machine}
    (hf : ∀ m, f' (m.relocate ρ earlier) = (g (f m).1,(f m).2.relocate ρ earlier)) :
    Moves ρ earlier g (MonadState.modifyGet f : Eval α) (MonadState.modifyGet f') := by
  intro m
  show (match f' (m.relocate ρ earlier) with | (b,m') => EStateM.Result.ok b m') = _
  rw [hf m]
  rfl

theorem inScope {x : Eval α} {y : Eval β} (hx : Moves ρ earlier g x y) (scope : EnvId) :
    Moves ρ earlier g (Eval.inScope scope x) (Eval.inScope scope y) := by
  intro m
  have hinner := hx { m with memory.scope := scope }
  simp only [Eval.inScope,Machine.relocate] at hinner ⊢
  rw [hinner]
  cases x { m with memory.scope := scope } <;> rfl

end Moves

section

variable {ρ : Relocation} {earlier : List Bytes}

open Steps

theorem moves_fault {α β : Type} {g : α → β} (error : EvalError) (token : Token) :
    Moves ρ earlier g (fault error token) (fault error (ρ.move token)) :=
  .throw (.fault error token)

theorem moves_orFault {α β : Type} {g : α → β} (token : Token) (x : Except EvalError α) :
    Moves ρ earlier g (orFault token x) (orFault (ρ.move token) (x.map g)) := by
  cases x with
  | ok a => exact .pure a
  | error e => exact moves_fault e token

/-- A result that holds no tokens. -/
theorem moves_orFault_id {α : Type} (token : Token) (x : Except EvalError α) :
    Moves ρ earlier id (orFault token x) (orFault (ρ.move token) x) := by
  cases x with
  | ok a => exact .pure a
  | error e => exact moves_fault e token

theorem moves_orLost {α β : Type} {g : α → β} (x : Option α) :
    Moves ρ earlier g (orLost x) (orLost (x.map g)) := by
  cases x with
  | some a => exact .pure a
  | none => exact .throw .lost

theorem moves_print (line : Bytes) : Moves ρ earlier id (print line) (print line) :=
  .modifyGet fun _ => rfl

theorem moves_newIdentity : Moves ρ earlier id newIdentity newIdentity := .modifyGet fun _ => rfl

theorem moves_newFunction (f : Function) :
    Moves ρ earlier (Value.relocate ρ) (newFunction f) (newFunction (f.relocate ρ)) :=
  moves_newIdentity.bind fun id => .pure (Value.function id f)

theorem moves_newObject (c : Class) :
    Moves ρ earlier (Value.relocate ρ) (newObject c) (newObject (c.relocate ρ)) :=
  .modifyGet fun m => by simp [Machine.relocate,Value.relocate]

theorem moves_field? (object : Nat) (name : Bytes) :
    Moves ρ earlier (Option.map (Value.relocate ρ)) (field? object name) (field? object name) := by
  refine Moves.get.bind fun m => ?_
  have hfield : (m.relocate ρ earlier).objects[object]?.bind (·.get? name) =
      (m.objects[object]?.bind (·.get? name)).map (Value.relocate ρ) := by
    simp only [Machine.relocate,Array.getElem?_map]
    cases m.objects[object]? <;> simp
  rw [hfield]
  exact .pure _

theorem moves_setField (object : Nat) (name : Bytes) (value : Value) :
    Moves ρ earlier id (setField object name value) (setField object name (value.relocate ρ)) := by
  refine .modifyGet fun m => ?_
  have hobjects : (m.objects.map (NameMap.map (Value.relocate ρ))).modify object
        (·.insert name (value.relocate ρ)) =
      (m.objects.modify object (·.insert name value)).map (NameMap.map (Value.relocate ρ)) := by
    refine Array.ext (by simp) fun i hi hi' => ?_
    simp only [Array.getElem_map,Array.getElem_modify]
    split <;> simp
  simp [Machine.relocate,hobjects]

theorem moves_readClock : Moves ρ earlier (Value.relocate ρ) readClock readClock :=
  .modifyGet fun _ => rfl

theorem moves_callBuiltin (vars : NameMap Bytes) (paren : Token) (b : Builtin) (args : List Value) :
    Moves ρ earlier (Value.relocate ρ) (callBuiltin vars paren b args)
      (callBuiltin vars (ρ.move paren) b (args.map (Value.relocate ρ))) := by
  have hmany (paren : Token) (u v : Value) (rest : List Value) :
      (callBuiltin vars paren .env (u :: v :: rest) : Eval Value) = throw .lost := by
    simp only [callBuiltin]
  match b, args with
  | .clock, [] => exact moves_readClock
  | .type, [value] =>
    simp only [callBuiltin,List.map_cons,List.map_nil,(value.alike_relocate ρ).typeName]
    exact .pure (Value.str value.typeName)
  | .str, [value] =>
    simp only [callBuiltin,List.map_cons,List.map_nil,(value.alike_relocate ρ).text]
    exact .pure (Value.str value.text)
  | .env, [.scalar (.str name)] =>
    simp only [callBuiltin,List.map_cons,List.map_nil,Value.relocate]
    cases vars.get? name with
    | none => exact .pure Value.nil
    | some value => exact .pure (Value.str value)
  | .env, [.scalar .nil] | .env, [.scalar (.bool _)] | .env, [.scalar (.int _)]
  | .env, [.scalar (.float _)] | .env, [.builtin _] | .env, [.function _ _] | .env, [.class_ _]
  | .env, [.object _ _] | .env, [.uninitialized] => exact moves_fault .argumentNotString paren
  | .clock, _ :: _ | .type, [] | .type, _ :: _ :: _ | .str, [] | .str, _ :: _ :: _ | .env, [] =>
    exact .throw .lost
  | .env, _ :: _ :: _ =>
    rw [List.map_cons,List.map_cons,hmany,hmany]
    exact .throw .lost

/-! ## Steps on names -/

theorem moves_newEnv (enclosing : EnvId) (bindings : NameMap Value) :
    Moves ρ earlier id (Eval.newEnv enclosing bindings)
      (Eval.newEnv enclosing (bindings.map (Value.relocate ρ))) :=
  .modifyGet fun m => by
    have hpush := Store.push_relocate ρ m.memory.store ⟨some enclosing,bindings⟩
    rw [Env.relocate] at hpush
    simp [Machine.relocate,hpush]

theorem moves_store (holder : EnvId) (name : Bytes) (value : Value) :
    Moves ρ earlier id (Eval.store holder name value)
      (Eval.store holder name (value.relocate ρ)) :=
  .modifyGet fun m => by simp [Machine.relocate,Store.define_relocate]

theorem moves_define (name : Bytes) (value : Value) :
    Moves ρ earlier id (Eval.define name value) (Eval.define name (value.relocate ρ)) :=
  Moves.get.bind fun m => moves_store m.memory.scope name value

theorem moves_bind (method : Function) (object : Value) :
    Moves ρ earlier (Function.relocate ρ) (Eval.bind method object)
      (Eval.bind (method.relocate ρ) (object.relocate ρ)) :=
  (moves_newEnv method.closure (.ofList [(thisName,object)])).bind
    fun closure => .pure { method with closure }

theorem moves_readAt (scope : EnvId) (distance : Nat) (name : Bytes) (token : Token) :
    Moves ρ earlier (Value.relocate ρ) (Eval.readAt scope distance name token)
      (Eval.readAt scope distance name (ρ.move token)) := by
  refine Moves.get.bind fun m => ?_
  have hread := Store.readAt?_relocate ρ m.memory.store scope name distance
  refine Moves.bind (g := Except.map (Value.relocate ρ)) ?_ fun found => moves_orFault token found
  show Moves ρ earlier _ _ (orLost ((m.memory.store.relocate ρ).readAt? scope distance name))
  rw [hread]
  exact moves_orLost _

theorem moves_methodFor (c : Class) (name : Token) (object : Value) :
    Moves ρ earlier (Value.relocate ρ) (Eval.methodFor c name object)
      (Eval.methodFor (c.relocate ρ) (ρ.move name) (object.relocate ρ)) := by
  unfold Eval.methodFor
  rw [Class.findMethod?_relocate,ρ.lexeme]
  cases c.findMethod? name.lexeme with
  | none => exact moves_fault (.undefinedProperty name.lexeme) name
  | some method => exact (moves_bind method object).bind moves_newFunction

theorem moves_property (object : Value) (name : Token) :
    Moves ρ earlier (Value.relocate ρ) (Eval.property object name)
      (Eval.property (object.relocate ρ) (ρ.move name)) := by
  cases object with
  | object c id =>
    simp only [Eval.property,Value.relocate,ρ.lexeme]
    refine (moves_field? id name.lexeme).bind fun field => ?_
    cases field with
    | none => exact moves_methodFor c name (.object c id)
    | some value => exact .pure value
  | _ => exact moves_fault .noProperties name

theorem bindParameters_relocate (ρ : Relocation) (params : List Token) (args : List Value)
    (bindings : NameMap Value) :
    Eval.bindParameters (params.map ρ.move) (args.map (Value.relocate ρ))
        (bindings.map (Value.relocate ρ)) =
      (Eval.bindParameters params args bindings).map (NameMap.map (Value.relocate ρ)) := by
  induction params generalizing args bindings with
  | nil => rfl
  | cons p params ih =>
    cases args with
    | nil => rfl
    | cons a args =>
      simp only [Eval.bindParameters,List.map_cons,ρ.lexeme]
      rw [← NameMap.map_insert]
      exact ih args (bindings.insert p.lexeme a)

theorem moves_methodScope (scope : EnvId) (parent : Option Class) :
    Moves ρ earlier id (Eval.methodScope scope parent)
      (Eval.methodScope scope (parent.map (Class.relocate ρ))) := by
  cases parent with
  | none => exact .pure scope
  | some c => exact moves_newEnv scope (.ofList [(superName,.class_ c)])

/-- The moved tokens have in one table the entries that the tokens have in another. -/
structure Carries (ρ : Relocation) (ctx ctx' : Context) : Prop where
  table : ∀ t, ctx'.table[(ρ.move t).index]? = ctx.table[t.index]?
  processVars : ctx'.processVars = ctx.processVars

variable {ctx ctx' : Context} (hctx : Carries ρ ctx ctx')

include hctx

theorem moves_lookUp (name : Token) :
    Moves ρ earlier (Value.relocate ρ) (Eval.lookUp ctx name) (Eval.lookUp ctx' (ρ.move name)) := by
  refine Moves.get.bind fun m => ?_
  rw [hctx.table,ρ.lexeme]
  cases ctx.table[name.index]? with
  | some distance => exact moves_readAt m.memory.scope distance name.lexeme name
  | none =>
    have hread := Store.read_relocate ρ m.memory.store globalScope name.lexeme
    show Moves ρ earlier _ _ (orFault _ ((m.memory.store.relocate ρ).read globalScope name.lexeme))
    rw [hread]
    exact moves_orFault name _

theorem moves_holder (name : Token) :
    Moves ρ earlier id (Eval.holder ctx name) (Eval.holder ctx' (ρ.move name)) := by
  refine Moves.get.bind fun m => ?_
  rw [hctx.table,ρ.lexeme]
  cases ctx.table[name.index]? with
  | some distance =>
    have hancestor := Store.ancestor?_relocate ρ m.memory.store m.memory.scope distance
    show Moves ρ earlier _ _ (orLost ((m.memory.store.relocate ρ).ancestor? m.memory.scope distance))
    rw [hancestor]
    have hlost : Moves ρ earlier id _ _ :=
      moves_orLost (m.memory.store.ancestor? m.memory.scope distance)
    rwa [Option.map_id] at hlost
  | none =>
    have hholder := Store.holder?_relocate ρ m.memory.store globalScope name.lexeme
    simp only [Machine.relocate,hholder]
    cases m.memory.store.holder? globalScope name.lexeme with
    | none => exact moves_fault (.undefinedVariable name.lexeme) name
    | some holder => exact .pure holder

theorem moves_assign (name : Token) (value : Value) :
    Moves ρ earlier id (Eval.assign ctx name value)
      (Eval.assign ctx' (ρ.move name) (value.relocate ρ)) := by
  refine (moves_holder hctx name).bind fun holder => ?_
  rw [ρ.lexeme]
  exact moves_store holder name.lexeme value

theorem moves_superMethod (keyword method : Token) :
    Moves ρ earlier (Value.relocate ρ) (Eval.superMethod ctx keyword method)
      (Eval.superMethod ctx' (ρ.move keyword) (ρ.move method)) := by
  refine Moves.get.bind fun m => ?_
  rw [hctx.table]
  cases ctx.table[keyword.index]? with
  | none => exact moves_fault (.unresolvedVariable superName) keyword
  | some distance =>
    refine (moves_readAt m.memory.scope distance superName keyword).bind fun parent => ?_
    refine (moves_readAt m.memory.scope (distance - 1) thisName keyword).bind fun object => ?_
    cases parent with
    | class_ c =>
      cases object with
      | object c' id => exact moves_methodFor c method (.object c' id)
      | _ => exact moves_fault .noProperties keyword
    | _ => exact moves_fault .superclassNotClass keyword

theorem moves_superclass? (superclass : Option Token) :
    Moves ρ earlier (Option.map (Class.relocate ρ)) (Eval.superclass? ctx superclass)
      (Eval.superclass? ctx' (superclass.map ρ.move)) := by
  cases superclass with
  | none => exact .pure none
  | some token =>
    refine (moves_lookUp hctx token).bind fun value => ?_
    cases value with
    | class_ c => exact .pure (some c)
    | _ => exact moves_fault .superclassNotClass token

theorem moves_declareClass (name : Token) (superclass : Option Token) (methods : List FunctionDecl) :
    Moves ρ earlier id (Eval.declareClass ctx name superclass methods)
      (Eval.declareClass ctx' (ρ.move name) (superclass.map ρ.move)
        (FunctionDecl.relocateAll ρ methods)) := by
  unfold Eval.declareClass
  rw [ρ.lexeme]
  refine (moves_superclass? hctx superclass).bind fun parent => ?_
  refine (moves_define name.lexeme .nil).bind fun _ => ?_
  refine Moves.get.bind fun m => ?_
  refine (moves_methodScope m.memory.scope parent).bind fun closure => ?_
  refine moves_newIdentity.bind fun id => ?_
  have hclass := ClassBody.relocate_extending ρ (.declared id name.lexeme closure methods) parent
  rw [ClassBody.relocate_declared] at hclass
  have hstore : Moves ρ earlier _ _ _ := moves_store m.memory.scope name.lexeme
    (.class_ ((ClassBody.declared id name.lexeme closure methods).extending parent))
  rw [Value.relocate,hclass] at hstore
  exact hstore

end

end Scriptlet
