import Scriptlet.Proofs.Writes.Recorded

/-! # Where environments come from

Every environment of a run is created by one event: a block is entered, a function is called, a class
that extends another one is declared, or a method is bound to an instance. The origins of all
environments, in the order of their creation, are a log in which each environment has the place that
refers to it. The log never forgets, so it tells long after a class declaration what its superclass
was, and which instance a method was bound to.
-/
namespace Scriptlet

/-- What an environment was created for. A block is kept with its statements. A class declaration is
kept with the environment in which it was executed, its methods and the class that its superclass
evaluated to. -/
inductive Origin where
  | globals
  | block (outer : EnvId) (body : List Stmt)
  | call (f : Function)
  | derived (outer : EnvId) (methods : List FunctionDecl) (parent : Class)
  | bound (method : Function) (c : Class) (id : Nat)

namespace Origin

/-- The environment around it. -/
def outer? : Origin → Option EnvId
  | .globals => none
  | .block outer _ => some outer
  | .call f => some f.closure
  | .derived outer _ _ => some outer
  | .bound method _ _ => some method.closure

/-- The environment holds the superclass of a class, or the instance of a method. -/
def Binds : Origin → NameMap Value → Prop
  | .derived _ _ parent, bindings => bindings.get? superName = some (.class_ parent)
  | .bound _ c id, bindings => bindings.get? thisName = some (.object c id)
  | _, _ => True

/-- The environment for a method that is looked for in a class and bound to an instance. -/
def ofMethod (c : Class) (name : Bytes) (receiver : Class) (id : Nat) : List Origin :=
  (c.findMethod? name).toList.map (.bound · receiver id)

/-- The environment for a property, which is a method only where no field hides it. -/
def ofProperty (name : Bytes) (object : Value) (m : Machine) : List Origin :=
  match object with
  | .object c id => if (m.fieldOf? id name).isSome then [] else ofMethod c name c id
  | _ => []

/-- The environment for a method of the superclass. -/
def ofSuper (ctx : Context) (keyword method : Token) (m : Machine) : List Origin :=
  match ctx.table[keyword.index]? with
  | none => []
  | some distance =>
    onResult (Eval.readAt m.memory.scope distance superName keyword m) fun parent m' =>
      onResult (Eval.readAt m.memory.scope (distance - 1) thisName keyword m') fun object _ =>
        match parent, object with
        | .class_ c, .object receiver id => ofMethod c method.lexeme receiver id
        | _, _ => []

/-- The environment for the methods of a class. -/
def ofClass (scope : EnvId) (methods : List FunctionDecl) (parent : Option Class) : List Origin :=
  parent.toList.map (.derived scope methods)

end Origin

/-! ## The log of a run -/

namespace Task

/-- The environments that a task creates before it calls others. -/
def opening : Task → Machine → List Origin
  | .call _ (.class_ c) args, m =>
    if (Value.class_ c).arity? = some args.length then
      Origin.ofMethod c initializerName c m.objects.size
    else []
  | .invoke _ f args, _ =>
    if (Eval.bindParameters f.decl.params args .empty).isSome then [.call f] else []
  | .stmt (.block body), m => [.block m.memory.scope body]
  | _, _ => []

variable (ctx : Context)

/-- The environments that a task creates after it has called others. -/
def closing (n : Nat) : Task → Machine → List Origin
  | .expr (.get object name), m =>
    onResult (Eval.expr ctx n object m) fun o m => Origin.ofProperty name.lexeme o m
  | .expr (.superMethod keyword method), m => Origin.ofSuper ctx keyword method m
  | .stmt (.classDecl _ superclass methods), m =>
    onResult (Eval.superclass? ctx superclass m) fun parent m =>
      Origin.ofClass m.memory.scope methods parent
  | _, _ => []

/-- All environments that are created while a task runs. -/
def environments : Nat → Task → Machine → List Origin
  | 0, _, _ => []
  | n + 1, t, m => t.opening m ++ (t.callees ctx n m).flatMap (fun c => environments n c.1 c.2) ++
      t.closing ctx n m

end Task

/-- All environments that are created while a program runs. -/
def Eval.programEnvironments (ctx : Context) (budget : Nat) : List Stmt → Machine → List Origin
  | [], _ => []
  | s :: rest, m => (Task.stmt s).environments ctx budget m ++
      onResult (Eval.stmt ctx budget s m) fun _ m => programEnvironments ctx budget rest m

namespace Session

/-- All environments that are created during a call. -/
def environments (s : Session) : Call → List Origin
  | .run r =>
    let loaded := load s.nextIndex r.source
    let resolved := resolve s.table loaded.statements
    if loaded.diagnostics = [] ∧ resolved.faults = [] then
      Eval.programEnvironments ⟨resolved.table,r.processVars⟩ r.budget loaded.statements
        { s.machine with printed := [] }
    else []
  | .showTree _ => []

/-- All environments that are created during some calls. -/
def allEnvironments (s : Session) : List Call → List Origin
  | [] => []
  | c :: rest => s.environments c ++ (s.obey c).2.allEnvironments rest

end Session

/-- The environments of a machine are those of a log. -/
structure Machine.FormedBy (os : List Origin) (m : Machine) : Prop where
  size : m.size = os.length
  envs : ∀ {e : EnvId} {origin}, os[e]? = some origin → ∃ env, m.memory.store.get? e = some env ∧
    env.enclosing = origin.outer? ∧ origin.Binds env.bindings

/-! ## The method around a place -/

theorem getElem?_of_isPrefix {α : Type} {l l' : List α} {i : Nat} {a : α} (h : l <+: l')
    (ha : l[i]? = some a) : l'[i]? = some a := by
  obtain ⟨hi,rfl⟩ := List.getElem?_eq_some_iff.1 ha
  exact List.prefix_iff_getElem?.1 h i hi

/-- Code that runs in the environment `e` stands inside a method that was bound to an instance. On the
way outwards from `e` no other bound method is met first. -/
inductive Inside (os : List Origin) : EnvId → Function → Class → Nat → Prop
  | here {e : EnvId} {method : Function} {c : Class} {id : Nat} :
      os[e]? = some (.bound method c id) → Inside os e method c id
  | outward {e outer : EnvId} {origin : Origin} {method : Function} {c : Class} {id : Nat} :
      os[e]? = some origin → (∀ method c id, origin ≠ .bound method c id) →
      origin.outer? = some outer → Inside os outer method c id → Inside os e method c id

namespace Inside

variable {os os' : List Origin} {e : EnvId} {method method' : Function} {c c' : Class} {id id' : Nat}

/-- There is only one method that code stands inside. -/
theorem unique (h : Inside os e method c id) (h' : Inside os e method' c' id') :
    method' = method ∧ c' = c ∧ id' = id := by
  induction h with
  | here he =>
    cases h' with
    | here he' =>
      rw [he] at he'
      cases he'
      exact ⟨rfl,rfl,rfl⟩
    | outward he' hnot _ _ =>
      rw [he] at he'
      exact absurd (Option.some.inj he').symm (hnot _ _ _)
  | outward he hnot houter _ ih =>
    cases h' with
    | here he' =>
      rw [he] at he'
      exact absurd (Option.some.inj he') (hnot _ _ _)
    | outward he' _ houter' hinside =>
      rw [he] at he'
      obtain rfl := Option.some.inj he'
      rw [houter] at houter'
      obtain rfl := Option.some.inj houter'
      exact ih hinside

/-- What is added to the log later makes no difference. -/
theorem mono (h : Inside os e method c id) (hos : os <+: os') : Inside os' e method c id := by
  induction h with
  | here he => exact .here (getElem?_of_isPrefix hos he)
  | outward he hnot houter _ ih => exact .outward (getElem?_of_isPrefix hos he) hnot houter ih

end Inside

end Scriptlet
