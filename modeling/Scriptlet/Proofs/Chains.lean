import Scriptlet.Proofs.CurrentScope
import Scriptlet.Proofs.Lexical.Distances
import Scriptlet.Proofs.Searches
import Scriptlet.Proofs.Uninitialized

/-! # Chains of environments come to an end

Environments are shared: by frames, by closures, by methods that are bound to an instance. Values lead
from one environment to another in circles, but the links from an environment to the one around it do
not. A link always leads to an older environment, so from wherever a program is, the links lead to the
globals in the end, and the search for a name needs no bound. The links are set when an environment is
created and never again.
-/
namespace Scriptlet

/-! ## The search without a bound -/

namespace Store

variable {s : Store} {id : EnvId} {chain : List EnvId}

/-- The search for a name, one environment after the other: it ends where the name is bound, or with
nothing at an environment that nothing encloses. -/
inductive Searches (s : Store) (name : Bytes) : EnvId → Option EnvId → Prop
  | found {id env} : s.get? id = some env → (env.bindings.get? name).isSome → Searches s name id (some id)
  | ended {id env} : s.get? id = some env → env.bindings.get? name = none → env.enclosing = none →
      Searches s name id none
  | onward {id env outer found} : s.get? id = some env → env.bindings.get? name = none →
      env.enclosing = some outer → Searches s name outer found → Searches s name id found

theorem bound?_of_get? {env : Env} (hget : s.get? id = some env) (name : Bytes) :
    s.bound? id name = env.bindings.get? name := by
  rw [bound?,hget]
  rfl

/-- On a chain that comes to an end the search does too, and finds what the bounded search finds. -/
theorem Outward.searches (h : s.Outward id chain) (name : Bytes) :
    s.Searches name id (s.holder? id name) := by
  induction h with
  | @last id env hget hnone =>
    rw [holder?_of_enclosing_none hget hnone,bound?_of_get? hget]
    cases hbound : env.bindings.get? name with
    | none => exact .ended hget hbound hnone
    | some x => exact .found hget (by rw [hbound]; rfl)
  | @link id outer env rest hget hsome hrest ih =>
    have hchain := (Outward.link hget hsome hrest).chain_eq
    rw [holder?,hchain,List.find?_cons,bound?_of_get? hget]
    cases hbound : env.bindings.get? name with
    | none =>
      rw [holder?,hrest.chain_eq] at ih
      exact .onward hget hbound hsome ih
    | some x => exact .found hget (by rw [hbound]; rfl)

end Store

/-! ## Where a program can go -/

/-- A function of the value was created in the environment. The functions of a class and of its
instances are the methods, inherited ones as well. -/
inductive Value.LeadsTo : Value → EnvId → Prop
  | function {id f} : LeadsTo (.function id f) f.closure
  | class_ {c body name f} : body ∈ c.lineage → body.methods.get? name = some f →
      LeadsTo (.class_ c) f.closure
  | object {c id body name f} : body ∈ c.lineage → body.methods.get? name = some f →
      LeadsTo (.object c id) f.closure

/-- The environments that a machine refers to: the current one, the globals, those that enclose an
environment, and those that values in variables and fields lead to. -/
inductive Machine.Refers (m : Machine) : EnvId → Prop
  | scope : Refers m m.memory.scope
  | globals : Refers m globalScope
  | enclosing {id env outer} : m.memory.store.get? id = some env → env.enclosing = some outer →
      Refers m outer
  | bound {id name x e} : m.memory.store.bound? id name = some x → x.LeadsTo e → Refers m e
  | field {object name x e} : m.fieldOf? object name = some x → x.LeadsTo e → Refers m e

/-- The environments that a task is given: its arguments lead to them, or it is to run a function,
bound to an instance or not, that was created there. -/
inductive Task.LeadsTo : Task → EnvId → Prop
  | argument {t x e} : x ∈ Task.arguments t → x.LeadsTo e → LeadsTo t e
  | invoked {paren f args} : LeadsTo (.invoke paren f args) f.closure

/-- The values that a visit gives lead to the environment. -/
def Visit.Gives (ctx : Context) (v : Visit) (e : EnvId) : Prop :=
  ∃ a m x, v.task.run ctx v.budget v.machine = .ok a m ∧ x ∈ v.task.values a ∧ x.LeadsTo e

/-- A visit walks over a number of links that the table has for a name, from the current environment
of a machine. An assignment does so when it has the value, and `super` reads the instance as well, one
link nearer. -/
inductive Visit.Walks (ctx : Context) : Visit → Machine → Nat → Prop
  | read {n t m token name distance} : Lexical.occurrence? t = some (token,name) →
      ctx.table[token.index]? = some distance → Walks ctx ⟨n,t,m⟩ m distance
  | receiver {n keyword method m distance} : ctx.table[keyword.index]? = some (distance + 1) →
      Walks ctx ⟨n,.expr (.superMethod keyword method),m⟩ m distance
  | assign {n name value m x m' distance} : Eval.expr ctx n value m = .ok x m' →
      ctx.table[name.index]? = some distance →
      Walks ctx ⟨n + 1,.expr (.assign name value),m⟩ m' distance

/-- All chains of a machine end at the globals, which alone have no environment around them: those of
all environments, of all that the machine refers to, and of those that are `held` besides. Links lead
to older environments, and every search comes to an end. -/
structure Machine.Chained (m : Machine) (held : EnvId → Prop) : Prop where
  older : ∀ id env outer, m.memory.store.get? id = some env → env.enclosing = some outer → outer < id
  root : ∀ id env, m.memory.store.get? id = some env → (env.enclosing = none ↔ id = globalScope)
  ends : ∀ id, id < m.size ∨ m.Refers id ∨ held id →
    ∃ chain, m.memory.store.Outward id chain ∧ chain.getLast? = some globalScope
  searches : ∀ id name, id < m.size → m.memory.store.Searches name id (m.memory.store.holder? id name)

/-! ## Recorded machines are chained -/

theorem Value.Proper.lt_of_leadsTo {size : Extent} {x : Value} {e : EnvId} (h : x.Proper size)
    (he : x.LeadsTo e) : e < size.envs := by
  cases he with
  | function => exact h
  | class_ hbody hf => exact h _ hbody _ _ hf
  | object hbody hf => exact h.1 _ hbody _ _ hf

theorem Task.Fits.lt_of_leadsTo {size : Extent} {t : Task} {e : EnvId} (h : t.Fits size)
    (he : t.LeadsTo e) : e < size.envs := by
  cases he with
  | invoked => exact h.1
  | argument hx he =>
    cases t with
    | call paren callee args =>
      rcases List.mem_cons.1 hx with rfl | hx
      · exact h.1.lt_of_leadsTo he
      · exact (h.2 _ hx).lt_of_leadsTo he
    | invoke paren f args => exact (h.2 _ hx).lt_of_leadsTo he
    | _ => exact absurd hx List.not_mem_nil

namespace Machine.Recorded

variable {log : List Write} {m : Machine} {id : EnvId}

theorem lt_of_refers (h : m.Recorded log) (hid : m.Refers id) : id < m.size := by
  cases hid with
  | scope => exact h.scope
  | globals => exact Nat.zero_lt_of_lt h.scope
  | enclosing hget houter => exact Nat.lt_trans (h.enclosing hget houter) (Store.lt_size_of_get? hget)
  | bound hbound hx =>
    rcases h.bound hbound with hproper | ⟨rfl,-⟩
    · exact hproper.lt_of_leadsTo hx
    · cases hx
  | field hfield hx => exact (h.fields hfield).lt_of_leadsTo hx

theorem enclosing_eq_none_iff (h : m.Recorded log) {env : Env}
    (hget : m.memory.store.get? id = some env) : env.enclosing = none ↔ id = globalScope := by
  constructor
  · exact h.root hget
  · rintro rfl
    cases houter : env.enclosing with
    | none => rfl
    | some outer => exact absurd (h.enclosing hget houter) (Nat.not_lt_zero outer)

/-- By induction on the age of the environment, as its link leads to an older one. -/
theorem exists_outward (h : m.Recorded log) (hid : id < m.size) :
    ∃ chain, m.memory.store.Outward id chain ∧ chain.getLast? = some globalScope := by
  induction id using Nat.strongRecOn with
  | ind id ih =>
    have hget : m.memory.store.get? id = some m.memory.store.envs[id] :=
      Array.getElem?_eq_getElem hid
    cases henclosing : m.memory.store.envs[id].enclosing with
    | none =>
      obtain rfl := h.root hget henclosing
      exact ⟨_,.last hget henclosing,rfl⟩
    | some outer =>
      have holder := h.enclosing hget henclosing
      obtain ⟨chain,hchain,hlast⟩ := ih outer holder (Nat.lt_trans holder hid)
      have hcons : (id :: chain).getLast? = chain.getLast? := by
        cases hchain with
        | last => rfl
        | link => rfl
      exact ⟨_,.link hget henclosing hchain,hcons.trans hlast⟩

theorem chained (h : m.Recorded log) {held : EnvId → Prop} (hheld : ∀ e, held e → e < m.size) :
    m.Chained held := by
  constructor
  · intro id env outer hget houter
    exact h.enclosing hget houter
  · intro id env hget
    exact h.enclosing_eq_none_iff hget
  · intro id hid
    rcases hid with hid | hid | hid
    · exact h.exists_outward hid
    · exact h.exists_outward (h.lt_of_refers hid)
    · exact h.exists_outward (hheld id hid)
  · intro id name hid
    obtain ⟨chain,hchain,-⟩ := h.exists_outward hid
    exact hchain.searches name

end Machine.Recorded

/-! ## Distances of the table -/

/-- The links are there: where the visit begins, and after the value of an assignment, as nothing
takes an environment away. -/
theorem Lexical.Sound.walks {p : Places} {vars : NameMap Bytes} {v : Visit} {m : Scriptlet.Machine}
    {distance : Nat} (h : Sound p v) (hwalks : v.Walks ⟨p.table,vars⟩ m distance) :
    (m.memory.store.ancestor? m.memory.scope distance).isSome := by
  cases hwalks with
  | read hoccurrence hentry =>
    obtain ⟨holder,hholder,-⟩ := h.finds hoccurrence hentry
    rw [hholder]
    rfl
  | receiver hentry =>
    obtain ⟨d,hd,holder,hholder,-⟩ := h.finds_this
    obtain rfl : d = distance := by simpa [hd] using hentry
    rw [hholder]
    rfl
  | @assign n name value m₀ x m distance hvalue hentry =>
    obtain ⟨holder,hholder⟩ := Option.isSome_iff_exists.1 (h.ancestor hentry)
    have hrestored := restores_task ⟨p.table,vars⟩ n (.expr value) m₀
    rw [Task.run,hvalue] at hrestored
    have hscope : m.memory.scope = m₀.memory.scope := hrestored.scope
    have hlater : m.memory.store.ancestor? m₀.memory.scope distance = some holder :=
      hrestored.store.ancestor? hholder
    rw [hscope,hlater]
    rfl

/-! ## Sessions -/

/-- In every state of a session all chains end at the globals: between the calls, and where each visit
of a run begins and ends. That takes in what a visit is given and what it gives. The walks that the
resolver has planned stay within the chain. New environments, the binding of methods and all tasks of
the evaluator, calls among them, leave the links of the environments that are there as they are. -/
theorem environment_chains_end_at_globals :
    (∀ (clock : Clock) (calls : List Session.Call),
      let s := (Session.start clock).afterCalls calls
      s.machine.Chained (fun _ => False) ∧
      ∀ (r : Request) (v : Visit), s.Makes r v →
        let ctx : Context := ⟨(s.perform r).2.table,r.processVars⟩
        v.machine.Chained v.task.LeadsTo ∧
        (machineAfter (v.task.run ctx v.budget v.machine)).Chained (v.Gives ctx) ∧
        ∀ m distance, v.Walks ctx m distance →
          (m.memory.store.ancestor? m.memory.scope distance).isSome) ∧
    (∀ (m : Machine) (enclosing : EnvId) (bindings : NameMap Value),
      m.memory.store.Extends (machineAfter (Eval.newEnv enclosing bindings m)).memory.store) ∧
    (∀ (m : Machine) (method : Function) (object : Value),
      m.memory.store.Extends (machineAfter (Eval.bind method object m)).memory.store) ∧
    ∀ (m : Machine) (ctx : Context) (n : Nat) (t : Task),
      m.memory.store.Extends (machineAfter (t.run ctx n m)).memory.store := by
  refine ⟨fun clock calls => ?_,?_,?_,?_⟩
  · intro s
    have hsession : s.machine.Recorded _ :=
      Session.recorded_afterCalls (Machine.recorded_start clock) calls
    obtain ⟨t,hagrees⟩ := Lexical.exists_agrees_afterCalls clock calls
    constructor
    · exact hsession.chained fun _ hnone => hnone.elim
    · intro r v hmakes ctx
      obtain ⟨ws,hafter⟩ := hmakes.after
      obtain ⟨hm,hfits⟩ := hafter.recorded hsession
      have hleaves : Leaves _ v.machine _ (v.task.run ctx v.budget v.machine) :=
        leaves_task v.task hm hfits
      refine ⟨hm.chained fun _ => hfits.lt_of_leadsTo,hleaves.recorded.chained ?_,?_⟩
      · rintro e ⟨a,m,x,hresult,hx,he⟩
        rw [hresult]
        exact ((hleaves.of_ok hresult).2 x hx).lt_of_leadsTo he
      · intro m distance hwalks
        exact (Lexical.sound_of_makes hagrees hmakes).walks hwalks
  · intro m enclosing bindings
    exact (restores_newEnv enclosing bindings m).store
  · intro m method object
    exact (restores_bind method object m).store
  · intro m ctx n t
    exact (restores_task ctx n t m).store

end Scriptlet
