import Scriptlet.Proofs.Deeds.Evaluation
import Scriptlet.Proofs.Initializers

/-! # Methods and properties

Which method a class has under a name is fixed when the class is declared. It is decided by the
declarations in the lineage of the class, and these do not depend on what their names are bound to later.
A property of an instance is what its field was set to last, or else a method of its class.
-/
namespace Scriptlet

open Deed (Declares lastSet? Lineage)

/-! ## What a session comes across -/

namespace Session

/-- The machine is in this state some time during the calls: between two of them, or when a task of a run
begins or ends. -/
inductive Passes (s : Session) (calls : List Call) : Machine → Prop
  | rests {before after : List Call} : calls = before ++ after →
      Passes s calls (s.afterCalls before).machine
  | begins {before after : List Call} {r : Request} {v : Visit} : calls = before ++ .run r :: after →
      (s.afterCalls before).Makes r v → Passes s calls v.machine
  | ends {before after : List Call} {r : Request} {v : Visit} : calls = before ++ .run r :: after →
      (s.afterCalls before).Makes r v → Passes s calls (machineAfter
        (v.task.run ⟨((s.afterCalls before).perform r).2.table,r.processVars⟩ v.budget v.machine))

/-- The value is held by the machine some time during the calls, or a task is given it or gives it. -/
inductive Meets (s : Session) (calls : List Call) : Value → Prop
  | held {m : Machine} {x : Value} : s.Passes calls m → m.Holds x → Meets s calls x
  | given {before after : List Call} {r : Request} {v : Visit} {x : Value} :
      calls = before ++ .run r :: after → (s.afterCalls before).Makes r v → x ∈ v.task.arguments →
      Meets s calls x
  | result {before after : List Call} {r : Request} {v : Visit} {a : v.task.Result} {m : Machine}
      {x : Value} : calls = before ++ .run r :: after → (s.afterCalls before).Makes r v →
      v.task.run ⟨((s.afterCalls before).perform r).2.table,r.processVars⟩ v.budget v.machine =
        .ok a m → x ∈ v.task.values a → Meets s calls x

variable {clock : Clock} {calls : List Call}

/-- What a visit does stands in the log of the session, behind what was done before. -/
theorem MakesWith.isPrefix_log {s : Session} {before : List Call} {r : Request} {ds : List Deed}
    {v : Visit} (h : (s.afterCalls before).MakesWith r ds v) (after : List Call) :
    let ctx : Context := ⟨((s.afterCalls before).perform r).2.table,r.processVars⟩
    s.allDeeds before ++ ds ++ v.task.deeds ctx v.budget v.machine <+:
      s.allDeeds (before ++ .run r :: after) := by
  intro ctx
  rw [allDeeds_append,allDeeds,List.append_assoc,List.prefix_append_right_inj]
  exact h.isPrefix.trans (List.prefix_append _ _)

/-- The log at the beginning of a visit, which goes on with what the visit does. -/
theorem Makes.log {before : List Call} {r : Request} {v : Visit}
    (h : ((start clock).afterCalls before).Makes r v) (after : List Call) :
    let ctx : Context := ⟨(((start clock).afterCalls before).perform r).2.table,r.processVars⟩
    ∃ log, v.machine.Follows log ∧ v.task.Known log ∧
      log ++ v.task.deeds ctx v.budget v.machine <+:
        (start clock).allDeeds (before ++ .run r :: after) := by
  obtain ⟨ds,hmakes⟩ := h.exists_deeds
  obtain ⟨hm,ht⟩ := hmakes.follows (follows_log clock before)
  exact ⟨_,hm,ht,hmakes.isPrefix_log after⟩

theorem Passes.follows {m : Machine} (h : (start clock).Passes calls m) :
    ∃ log, m.Follows log ∧ log <+: (start clock).allDeeds calls := by
  cases h with
  | @rests before after hcalls =>
    refine ⟨_,follows_log clock before,?_⟩
    rw [hcalls,allDeeds_append]
    exact List.prefix_append _ _
  | @begins before after r v hcalls hmakes =>
    obtain ⟨log,hm,-,hlog⟩ := hmakes.log after
    rw [hcalls]
    exact ⟨log,hm,(List.prefix_append _ _).trans hlog⟩
  | @ends before after r v hcalls hmakes =>
    obtain ⟨log,hm,ht,hlog⟩ := hmakes.log after
    rw [hcalls]
    exact ⟨_,(logs_task v.task hm ht).follows,hlog⟩

/-- The log tells where all values come from. -/
theorem Meets.known {x : Value} (h : (start clock).Meets calls x) :
    x.Known ((start clock).allDeeds calls) := by
  cases h with
  | held hpasses hholds =>
    obtain ⟨log,hm,hlog⟩ := hpasses.follows
    rcases hholds with ⟨e,name,hbound⟩ | ⟨object,name,hfield⟩
    · exact (hm.bound hbound).mono hlog
    · exact (hm.held hfield).mono hlog
  | @given before after r v x hcalls hmakes hx =>
    obtain ⟨log,-,ht,hlog⟩ := hmakes.log after
    rw [hcalls]
    exact (ht x hx).mono ((List.prefix_append _ _).trans hlog)
  | @result before after r v a m x hcalls hmakes hrun hx =>
    obtain ⟨log,hm,ht,hlog⟩ := hmakes.log after
    rw [hcalls]
    exact (((logs_task v.task hm ht).of_ok hrun).2 x hx).mono hlog

end Session

/-! ## Reading properties -/

section

variable {ctx : Context} {n : Nat} {object : Expr} {name : Token} {m : Machine}

theorem Eval.expr_get {o : Value} {m₁ : Machine} (h : Eval.expr ctx n object m = .ok o m₁) :
    Eval.expr ctx (n + 1) (.get object name) m = Eval.property o name m₁ := by
  simp only [Eval.expr,Bind.bind,EStateM.bind,h]

/-- Reading a property does nothing to classes and instances. -/
theorem Task.deeds_get :
    (Task.expr (.get object name)).deeds ctx (n + 1) m = (Task.expr object).deeds ctx n m := by
  simp [Task.deeds,Task.firstDeeds,Task.lastDeeds,Task.callees]

end

section

variable {log : List Deed} {m : Machine} {c : Class} {id : Nat} {name : Token}

theorem Machine.Follows.property_of_set (h : m.Follows log) {earlier later : List Deed} {x : Value}
    (hlog : log = earlier ++ .set id name.lexeme x :: later)
    (hlater : ∀ y, .set id name.lexeme y ∉ later) :
    Eval.property (.object c id) name m = .ok x m := by
  have hfield : m.fieldOf? id name.lexeme = some x := by
    rw [h.fields,hlog,Deed.lastSet?_split hlater]
  have hread : Steps.field? id name.lexeme m = .ok (some x) m :=
    congrArg (EStateM.Result.ok · m) hfield
  simp only [Eval.property,Bind.bind,EStateM.bind,hread]
  rfl

theorem Machine.Follows.property_of_unset (h : m.Follows log)
    (hunset : ∀ x, .set id name.lexeme x ∉ log) :
    Eval.property (.object c id) name m = Eval.methodFor c name (.object c id) m := by
  have hfield : m.fieldOf? id name.lexeme = none := by
    rw [h.fields,Deed.lastSet?_eq_none hunset]
  have hread : Steps.field? id name.lexeme m = .ok none m :=
    congrArg (EStateM.Result.ok · m) hfield
  simp only [Eval.property,Bind.bind,EStateM.bind,hread]

/-- A method that is bound to an instance finds the instance in an environment of its own. -/
theorem Eval.methodFor_of_some {method : Function} {object : Value}
    (h : c.findMethod? name.lexeme = some method) :
    ∃ fid m', Eval.methodFor c name object m =
        .ok (.function fid { method with closure := m.size }) m' ∧
      m'.memory.store.get? m.size = some ⟨some method.closure,.ofList [(thisName,object)]⟩ := by
  rw [Eval.methodFor,h]
  exact ⟨_,_,rfl,Store.get?_push_self⟩

theorem Eval.methodFor_of_none {object : Value} (h : c.findMethod? name.lexeme = none) :
    Eval.methodFor c name object m = .error (.fault (.undefinedProperty name.lexeme) name) m := by
  rw [Eval.methodFor,h]
  rfl

end

/-- Method lookup follows the superclasses and never changes. Take the log of all that a session does to
classes and instances. Each class in it was made by one declaration, which its identity tells, and has a
lineage that comes to an end. Under a name the class has the method of the nearest declaration in the
lineage with such a method, the last one if it has several, and none if no declaration has one. All
classes that the session ever comes across, in whatever state, are classes of the log, and so are those
of its instances; values that are the same to a program have the same class. When a property of an
instance is read, it gives what the field was set to last before. If it was never set, the method of the
class is bound to the instance, and if there is none, reading the property fails. -/
theorem method_lookup_fixed (clock : Clock) (calls : List Session.Call) :
    let log := (Session.start clock).allDeeds calls
    (∀ c c', Declares log c → Declares log c' → c.own.id = c'.own.id → c' = c) ∧
    (∀ c, Declares log c → (∃ chain, Lineage log c chain) ∧
      ∀ chain, Lineage log c chain → ∀ name,
        (∀ f, c.findMethod? name = some f ↔ Nearest chain name f) ∧
        (c.findMethod? name = none ↔ ∀ d ∈ chain, ∀ decl ∈ d.methods, decl.name.lexeme ≠ name)) ∧
    (∀ x, (Session.start clock).Meets calls x → (∀ c, x.class? = some c → Declares log c) ∧
      ∀ x', (Session.start clock).Meets calls x' →
        (x.same x' = true → x'.class? = x.class?) ∧
        ∀ c c', x.class? = some c → x'.class? = some c' → c.own.id = c'.own.id →
          ∀ name, c'.findMethod? name = c.findMethod? name) ∧
    (∀ name, (EvalError.undefinedProperty name).message =
      utf8 "Undefined property '" ++ name ++ utf8 "'.") ∧
    ∀ before r after, calls = before ++ .run r :: after →
      let s := (Session.start clock).afterCalls before
      let ctx : Context := ⟨(s.perform r).2.table,r.processVars⟩
      (∀ v, s.Makes r v → ∃ ds, s.MakesWith r ds v) ∧
      ∀ ds n object name m c id m₁, s.MakesWith r ds ⟨n + 1,.expr (.get object name),m⟩ →
        Eval.expr ctx n object m = .ok (.object c id) m₁ →
        let past := (Session.start clock).allDeeds before ++ ds ++ (Task.expr object).deeds ctx n m
        let read := Eval.expr ctx (n + 1) (.get object name) m
        past <+: log ∧
        (∀ earlier x later, past = earlier ++ .set id name.lexeme x :: later →
          (∀ y, .set id name.lexeme y ∉ later) → read = .ok x m₁) ∧
        ((∀ x, .set id name.lexeme x ∉ past) →
          (∀ method, c.findMethod? name.lexeme = some method → ∃ fid m',
            read = .ok (.function fid { method with closure := m₁.size }) m' ∧
            m'.memory.store.get? m₁.size =
              some ⟨some method.closure,.ofList [(thisName,.object c id)]⟩) ∧
          (c.findMethod? name.lexeme = none →
            read = .error (.fault (.undefinedProperty name.lexeme) name) m₁)) := by
  intro log
  have hsound := (Session.follows_log clock calls).sound
  have hidentity : ∀ c c', Declares log c → Declares log c' → c.own.id = c'.own.id → c' = c :=
    fun c c' hc hc' => hsound.eq_of_id hc hc'
  have hmet : ∀ x, (Session.start clock).Meets calls x → ∀ c, x.class? = some c → Declares log c :=
    fun x hx c hc => hsound.declares hx.known hc
  refine ⟨hidentity,?_,?_,?_,?_⟩
  · intro c hc
    refine ⟨hsound.lineage hc,fun chain hchain name => ⟨fun f => ?_,?_⟩⟩
    · exact hchain.findMethod?_eq_some
    · exact hchain.findMethod?_eq_none
  · intro x hx
    refine ⟨hmet x hx,fun x' hx' => ⟨?_,?_⟩⟩
    · exact hsound.class?_eq_of_same hx.known hx'.known
    · intro c c' hc hc' hid name
      rw [hidentity c c' (hmet x hx c hc) (hmet x' hx' c' hc') hid]
  · exact fun name => rfl
  · intro before r after hcalls s ctx
    refine ⟨fun v hmakes => hmakes.exists_deeds,?_⟩
    intro ds n object name m c id m₁ hmakes hobject past read
    -- the property is read in the machine that the instance leaves, which follows the past
    obtain ⟨hm,-⟩ := hmakes.follows (Session.follows_log clock before)
    obtain ⟨hm₁,-⟩ := ((Logging.all ctx n).expr object hm).of_ok hobject
    have hread : read = Eval.property (.object c id) name m₁ := Eval.expr_get hobject
    refine ⟨?_,?_,?_⟩
    · have hlog := hmakes.isPrefix_log after
      simp only [Task.deeds_get,← hcalls] at hlog
      exact hlog
    · intro earlier x later hpast hlater
      exact hread.trans (hm₁.property_of_set hpast hlater)
    · intro hunset
      rw [hread,hm₁.property_of_unset hunset]
      exact ⟨fun method hmethod => Eval.methodFor_of_some hmethod,Eval.methodFor_of_none⟩

/-- An instance keeps its class when a class of the same name extends it, and a field hides a method. -/
example :
    let source := "class A \x7b m() \x7b return 1; \x7d m() \x7b return 2; \x7d \x7d class B < A \x7b\x7d " ++
      "var b = B(); A = B; class B < A \x7b m() \x7b return 3; \x7d \x7d " ++
      "print b.m(); print B().m(); b.m = 4; print b.m;"
    ((Session.start {}).perform ⟨utf8 source,40,.empty⟩).1.printed =
      [utf8 "2",utf8 "3",utf8 "4"] := by
  decide +kernel

end Scriptlet
