import Mathlib.Data.List.Induction
import Scriptlet.Proofs.Writes.Recorded

/-! # Classes and instances over a session

What a run does to classes and instances is kept in a log: a class is declared, an instance of a class
is created, a field of an instance is set. The log never forgets, so it tells for each class that a
program gets hold of, however it came there, which declaration made it, which class it extends, and
which class that extends in turn. It also tells which class an instance is of, and what each field
holds. Every step of the machine keeps this, with the entry that it adds.
-/
namespace Scriptlet

/-! ## The log -/

/-- A class declaration that was executed: the identity and the name of the class, the environment and
the text of its methods, and the class that its superclass evaluated to. -/
structure Declaration where
  id : Nat
  name : Bytes
  closure : EnvId
  methods : List FunctionDecl
  parent : Option Class

namespace Declaration

def body (d : Declaration) : ClassBody := .declared d.id d.name d.closure d.methods

/-- The class that a declaration makes. -/
def class_ (d : Declaration) : Class := d.body.extending d.parent

/-- The method that a declaration has under a name, and the last one if there are several. -/
def method? (d : Declaration) (name : Bytes) : Option Function :=
  (d.methods.reverse.find? (·.name.lexeme == name)).map fun decl =>
    ⟨decl,d.closure,decl.name.lexeme = initializerName⟩

end Declaration

/-- What is done to classes and instances. -/
inductive Deed where
  | declared (d : Declaration)
  | created (c : Class)
  | set (object : Nat) (name : Bytes) (value : Value)

namespace Deed

/-- The class of an instance that was created. -/
def created? : Deed → Option Class
  | .created c => some c
  | _ => none

/-- The value that a field was set to. -/
def value? (object : Nat) (name : Bytes) : Deed → Option Value
  | .set id key value => if id = object ∧ key = name then some value else none
  | _ => none

/-- The class was made by a declaration. -/
def Declares (log : List Deed) (c : Class) : Prop := ∃ d, .declared d ∈ log ∧ d.class_ = c

/-- The classes of all instances, in the order of their creation. -/
def instances (log : List Deed) : List Class := log.filterMap created?

/-- What a field was set to last, if it was ever set. -/
def lastSet? (log : List Deed) (object : Nat) (name : Bytes) : Option Value :=
  log.reverse.findSome? (value? object name)

/-- The declarations of a class, of its superclass, of the superclass of that, and so on, up to a class
that extends none. -/
inductive Lineage (log : List Deed) : Class → List Declaration → Prop
  | root {d : Declaration} : .declared d ∈ log → d.parent = none → Lineage log d.class_ [d]
  | link {d : Declaration} {parent : Class} {rest : List Declaration} : .declared d ∈ log →
      d.parent = some parent → Lineage log parent rest → Lineage log d.class_ (d :: rest)

/-- A log in which identities tell declarations apart, classes extend classes that were declared
before, and instances are created of such classes. -/
structure Sound (log : List Deed) : Prop where
  distinct : ∀ {d d'}, .declared d ∈ log → .declared d' ∈ log → d.id = d'.id → d' = d
  lineage : ∀ {c}, Declares log c → ∃ chain, Lineage log c chain
  created : ∀ {c}, .created c ∈ log → Declares log c

/-! ### Fields -/

section

variable {log : List Deed} {object : Nat} {name : Bytes}

theorem lastSet?_append (log more : List Deed) :
    lastSet? (log ++ more) object name = (lastSet? more object name).or (lastSet? log object name) := by
  rw [lastSet?,List.reverse_append,List.findSome?_append,lastSet?,lastSet?]

theorem lastSet?_concat {deed : Deed} :
    lastSet? (log ++ [deed]) object name = (deed.value? object name).or (lastSet? log object name) := by
  rw [lastSet?_append,lastSet?,List.reverse_singleton,List.findSome?_singleton]

theorem lastSet?_eq_none (h : ∀ x, .set object name x ∉ log) : lastSet? log object name = none := by
  rw [lastSet?,List.findSome?_eq_none_iff]
  intro deed hdeed
  cases deed with
  | declared | created => rfl
  | set id key x =>
    apply if_neg
    rintro ⟨rfl,rfl⟩
    exact h x (List.mem_reverse.1 hdeed)

theorem lastSet?_split {earlier later : List Deed} {x : Value}
    (h : ∀ y, .set object name y ∉ later) :
    lastSet? (earlier ++ .set object name x :: later) object name = some x := by
  rw [List.append_cons,lastSet?_append,lastSet?_eq_none h,lastSet?_concat,value?,if_pos ⟨rfl,rfl⟩]
  rfl

end

end Deed

/-! ## The log of a run -/

namespace Task

/-- What a task does to classes and instances before it calls others: the instance of a class that is
called exists before its initializer runs. -/
def firstDeeds : Task → List Deed
  | .call _ (.class_ c) args =>
    if (Value.class_ c : Value).arity? = some args.length then [.created c] else []
  | _ => []

variable (ctx : Context)

/-- What a task does to classes and instances after it has called others. -/
def lastDeeds (n : Nat) : Task → Machine → List Deed
  | .expr (.set object name value), m =>
    onResult (Eval.expr ctx n value m) fun x m =>
      onResult (Eval.expr ctx n object m) fun o _ =>
        match o with
        | .object _ id => [.set id name.lexeme x]
        | _ => []
  | .stmt (.classDecl name superclass methods), m =>
    onResult (Eval.superclass? ctx superclass m) fun parent m =>
      onResult (Eval.methodScope m.memory.scope parent m) fun closure m =>
        [.declared ⟨m.fresh,name.lexeme,closure,methods,parent⟩]
  | _, _ => []

/-- All that is done to classes and instances while a task runs. -/
def deeds : Nat → Task → Machine → List Deed
  | 0, _, _ => []
  | n + 1, t, m => t.firstDeeds ++ (t.callees ctx n m).flatMap (fun c => deeds n c.1 c.2) ++
      t.lastDeeds ctx n m

end Task

/-- The second visit is begun while the first one is made, after the given deeds. -/
inductive Visit.BeginsAfter (ctx : Context) (top : Visit) : List Deed → Visit → Prop
  | self : BeginsAfter ctx top [] top
  | call {n : Nat} {t t' : Task} {m m' : Machine} {ds : List Deed}
      {before rest : List (Task × Machine)} : BeginsAfter ctx top ds ⟨n + 1,t,m⟩ →
      t.callees ctx n m = before ++ (t',m') :: rest →
      BeginsAfter ctx top (ds ++ t.firstDeeds ++ before.flatMap fun c => c.1.deeds ctx n c.2)
        ⟨n,t',m'⟩

/-- All that is done to classes and instances while a program runs. -/
def Eval.programDeeds (ctx : Context) (budget : Nat) : List Stmt → Machine → List Deed
  | [], _ => []
  | s :: rest, m => (Task.stmt s).deeds ctx budget m ++
      onResult (Eval.stmt ctx budget s m) fun _ m => programDeeds ctx budget rest m

namespace Session

/-- All that is done to classes and instances during a call. -/
def deeds (s : Session) : Call → List Deed
  | .run r =>
    let loaded := load s.nextIndex r.source
    let resolved := resolve s.table loaded.statements
    if loaded.diagnostics = [] ∧ resolved.faults = [] then
      Eval.programDeeds ⟨resolved.table,r.processVars⟩ r.budget loaded.statements
        { s.machine with printed := [] }
    else []
  | .showTree _ => []

/-- All that is done to classes and instances during some calls. -/
def allDeeds (s : Session) : List Call → List Deed
  | [] => []
  | c :: rest => s.deeds c ++ (s.obey c).2.allDeeds rest

/-- The run of a source makes a visit, which is begun after the given deeds of the run. -/
def MakesWith (s : Session) (r : Request) (ds : List Deed) (v : Visit) : Prop :=
  let loaded := load s.nextIndex r.source
  let resolved := resolve s.table loaded.statements
  let ctx : Context := ⟨resolved.table,r.processVars⟩
  loaded.diagnostics = [] ∧ resolved.faults = [] ∧
    ∃ before statement rest m inner, loaded.statements = before ++ statement :: rest ∧
      Eval.program ctx r.budget before { s.machine with printed := [] } = .ok () m ∧
      Visit.BeginsAfter ctx ⟨r.budget,.stmt statement,m⟩ inner v ∧
      ds = Eval.programDeeds ctx r.budget before { s.machine with printed := [] } ++ inner

end Session

/-! ### Every visit has its place in the log -/

theorem Visit.Reaches.beginsAfter {ctx : Context} {u v : Visit} (h : Reaches ctx u v) :
    ∃ ds, BeginsAfter ctx u ds v := by
  induction h with
  | self => exact ⟨[],.self⟩
  | @call caller v _ hcall ih =>
    obtain ⟨ds,hbegins⟩ := ih
    obtain ⟨hbudget,hmem⟩ := hcall.mem_callees
    obtain ⟨before,rest,hsplit⟩ := List.append_of_mem hmem
    obtain ⟨budget,task,machine⟩ := caller
    obtain rfl : budget = v.budget + 1 := hbudget
    exact ⟨_,.call hbegins hsplit⟩

theorem Session.Makes.exists_deeds {s : Session} {r : Request} {v : Visit} (h : s.Makes r v) :
    ∃ ds, s.MakesWith r ds v := by
  obtain ⟨hload,hclean,before,statement,rest,m,hsplit,hbefore,hreach⟩ := h
  obtain ⟨inner,hbegins⟩ := hreach.beginsAfter
  exact ⟨_,hload,hclean,before,statement,rest,m,inner,hsplit,hbefore,hbegins,rfl⟩

/-- What a visit does follows in the log on what was done before it. -/
theorem Visit.BeginsAfter.isPrefix {ctx : Context} {top v : Visit} {ds : List Deed}
    (h : BeginsAfter ctx top ds v) : ds ++ v.task.deeds ctx v.budget v.machine <+:
      top.task.deeds ctx top.budget top.machine := by
  induction h with
  | self => exact List.prefix_refl _
  | call _ hsplit ih =>
    refine List.IsPrefix.trans ?_ ih
    rw [Task.deeds,hsplit,List.flatMap_append,List.flatMap_cons]
    simp only [List.append_assoc,List.prefix_append_right_inj,List.prefix_append]

theorem Eval.programDeeds_append {ctx : Context} {budget : Nat} {before rest : List Stmt}
    {m m' : Machine} (h : Eval.program ctx budget before m = .ok () m') :
    Eval.programDeeds ctx budget (before ++ rest) m =
      Eval.programDeeds ctx budget before m ++ Eval.programDeeds ctx budget rest m' := by
  induction before generalizing m with
  | nil =>
    cases h
    rfl
  | cons s before ih =>
    obtain ⟨outcome,m₁,hs,hrest⟩ := Eval.of_bind_ok h
    rw [List.cons_append,Eval.programDeeds,Eval.programDeeds,hs,onResult_ok,onResult_ok,ih hrest,
      List.append_assoc]

theorem Session.MakesWith.isPrefix {s : Session} {r : Request} {ds : List Deed} {v : Visit}
    (h : s.MakesWith r ds v) :
    ds ++ v.task.deeds ⟨(s.perform r).2.table,r.processVars⟩ v.budget v.machine <+:
      s.deeds (.run r) := by
  obtain ⟨hload,hclean,before,statement,rest,m,inner,hsplit,hbefore,hbegins,rfl⟩ := h
  rw [(perform_of_resolved hload hclean).2,deeds,if_pos ⟨hload,hclean⟩]
  generalize (resolve s.table (load s.nextIndex r.source).statements).table = table at *
  rw [hsplit,Eval.programDeeds_append hbefore,Eval.programDeeds,List.append_assoc,
    List.prefix_append_right_inj]
  exact hbegins.isPrefix.trans (List.prefix_append _ _)

theorem Session.allDeeds_append {s : Session} (before after : List Call) :
    s.allDeeds (before ++ after) = s.allDeeds before ++ (s.afterCalls before).allDeeds after := by
  induction before generalizing s with
  | nil => rfl
  | cons first rest ih =>
    rw [List.cons_append,allDeeds,ih,allDeeds,List.append_assoc,Session.afterCalls]

/-! ## Methods in a lineage -/

/-- Of two bindings under one name the later one counts. -/
theorem NameMap.get?_ofList {α : Type} (l : List (Bytes × α)) (key : Bytes) :
    (NameMap.ofList l).get? key = (l.reverse.find? (·.1 == key)).map Prod.snd := by
  induction l using List.reverseRecOn with
  | nil => rfl
  | append_singleton l b ih =>
    have hinsert : NameMap.ofList (l ++ [b]) = (NameMap.ofList l).insert b.1 b.2 := by
      simp [NameMap.ofList]
    rw [hinsert,NameMap.get?_insert,ih,List.reverse_append,List.reverse_singleton,List.singleton_append,
      List.find?_cons,BEq.comm]
    cases b.1 == key <;> rfl

theorem Declaration.get?_body (d : Declaration) (name : Bytes) :
    d.body.methods.get? name = d.method? name := by
  rw [body,ClassBody.declared,NameMap.get?_ofList,← List.map_reverse,List.find?_map,Option.map_map]
  rfl

namespace Deed.Lineage

variable {log : List Deed} {c : Class} {chain : List Declaration}

theorem lineage_eq (h : Lineage log c chain) : c.lineage = chain.map Declaration.body := by
  induction h with
  | root _ hnone => simp [Declaration.class_,ClassBody.extending,Class.lineage,hnone]
  | link _ hsome _ ih =>
    rw [List.map_cons,← ih]
    simp [Declaration.class_,ClassBody.extending,Class.lineage,hsome]

theorem findMethod?_eq (h : Lineage log c chain) (name : Bytes) :
    c.findMethod? name = chain.findSome? (·.method? name) := by
  rw [Class.findMethod?,h.lineage_eq,List.findSome?_map]
  congr 1
  funext d
  exact d.get?_body name

theorem append (h : Lineage log c chain) (more : List Deed) : Lineage (log ++ more) c chain := by
  induction h with
  | root hmem hnone => exact .root (List.mem_append_left _ hmem) hnone
  | link hmem hsome _ ih => exact .link (List.mem_append_left _ hmem) hsome ih

end Deed.Lineage

/-- The method of the nearest declaration in a chain that has one of the name, and there the last one of
that name. -/
def Nearest (chain : List Declaration) (name : Bytes) (f : Function) : Prop :=
  ∃ nearer d farther front decl later, chain = nearer ++ d :: farther ∧
    (∀ d' ∈ nearer, ∀ decl ∈ d'.methods, decl.name.lexeme ≠ name) ∧
    d.methods = front ++ decl :: later ∧ decl.name.lexeme = name ∧
    (∀ decl' ∈ later, decl'.name.lexeme ≠ name) ∧
    f = ⟨decl,d.closure,name = initializerName⟩

namespace Declaration

variable {d : Declaration} {name : Bytes} {f : Function}

theorem method?_eq_none : d.method? name = none ↔ ∀ decl ∈ d.methods, decl.name.lexeme ≠ name := by
  simp [method?]

theorem method?_eq_some : d.method? name = some f ↔
    ∃ front decl later, d.methods = front ++ decl :: later ∧ decl.name.lexeme = name ∧
      (∀ decl' ∈ later, decl'.name.lexeme ≠ name) ∧ f = ⟨decl,d.closure,name = initializerName⟩ := by
  rw [method?,Option.map_eq_some_iff]
  constructor
  · rintro ⟨decl,hfind,rfl⟩
    obtain ⟨hname,later,front,hsplit,hlater⟩ := List.find?_eq_some_iff_append.1 hfind
    obtain rfl : decl.name.lexeme = name := eq_of_beq hname
    refine ⟨front.reverse,decl,later.reverse,?_,rfl,?_,rfl⟩
    · rw [← List.reverse_reverse d.methods,hsplit,List.reverse_append,List.reverse_cons,
        List.append_assoc,List.singleton_append]
    · intro decl' hdecl'
      simpa using hlater decl' (List.mem_reverse.1 hdecl')
  · rintro ⟨front,decl,later,hsplit,rfl,hlater,rfl⟩
    refine ⟨decl,List.find?_eq_some_iff_append.2 ⟨beq_self_eq_true _,later.reverse,front.reverse,?_,?_⟩,rfl⟩
    · rw [hsplit,List.reverse_append,List.reverse_cons,List.append_assoc,List.singleton_append]
    · intro decl' hdecl'
      simpa using hlater decl' (List.mem_reverse.1 hdecl')

end Declaration

theorem findSome?_eq_some_iff_nearest {chain : List Declaration} {name : Bytes} {f : Function} :
    chain.findSome? (·.method? name) = some f ↔ Nearest chain name f := by
  simp only [List.findSome?_eq_some_iff,Declaration.method?_eq_some,Declaration.method?_eq_none]
  constructor
  · rintro ⟨nearer,d,farther,hchain,⟨front,decl,later,hmethod⟩,hnearer⟩
    exact ⟨nearer,d,farther,front,decl,later,hchain,hnearer,hmethod⟩
  · rintro ⟨nearer,d,farther,front,decl,later,hchain,hnearer,hmethod⟩
    exact ⟨nearer,d,farther,hchain,⟨front,decl,later,hmethod⟩,hnearer⟩

namespace Deed.Lineage

variable {log : List Deed} {c : Class} {chain : List Declaration}

/-- A class finds the method of the nearest declaration, whatever is declared elsewhere. -/
theorem findMethod?_eq_some (h : Lineage log c chain) {name : Bytes} {f : Function} :
    c.findMethod? name = some f ↔ Nearest chain name f := by
  rw [h.findMethod?_eq,findSome?_eq_some_iff_nearest]

theorem findMethod?_eq_none (h : Lineage log c chain) {name : Bytes} :
    c.findMethod? name = none ↔ ∀ d ∈ chain, ∀ decl ∈ d.methods, decl.name.lexeme ≠ name := by
  rw [h.findMethod?_eq,List.findSome?_eq_none_iff]
  simp only [Declaration.method?_eq_none]

end Deed.Lineage

end Scriptlet
