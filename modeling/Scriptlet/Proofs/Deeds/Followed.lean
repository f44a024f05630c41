import Scriptlet.Proofs.Deeds
import Scriptlet.Proofs.Origins

/-! # Machines against the log

In every state of a run, all classes and instances that are within reach are those of the log: each
class was made by a declaration, each instance was created of a class, and a field holds what it was set
to last. Each step of the machine keeps this, with the entry that it adds to the log.
-/
namespace Scriptlet

open Deed (Declares instances lastSet? Lineage Sound)

/-- The class of an instance, or the class itself. -/
def Value.class? : Value → Option Class
  | .class_ c | .object c _ => some c
  | _ => none

/-- The log tells where a value comes from, if it is a class or an instance. -/
def Value.Known (log : List Deed) : Value → Prop
  | .class_ c => Declares log c
  | .object c id => (instances log)[id]? = some c
  | _ => True

/-- The classes and instances of a machine are those of a log. -/
structure Machine.Follows (log : List Deed) (m : Machine) : Prop where
  sound : Sound log
  fresh : ∀ {d}, .declared d ∈ log → d.id < m.fresh
  size : m.objects.size = (instances log).length
  fields : ∀ object name, m.fieldOf? object name = lastSet? log object name
  bound : ∀ {e name x}, m.memory.store.bound? e name = some x → x.Known log
  held : ∀ {object name x}, m.fieldOf? object name = some x → x.Known log

/-! ## Longer logs -/

section

variable {log more : List Deed} {c : Class} {x : Value}

theorem Deed.Declares.append (h : Declares log c) : Declares (log ++ more) c := by
  obtain ⟨d,hd,hc⟩ := h
  exact ⟨d,List.mem_append_left _ hd,hc⟩

theorem Deed.instances_append : instances (log ++ more) = instances log ++ instances more :=
  List.filterMap_append

theorem Value.Known.append (h : x.Known log) : x.Known (log ++ more) := by
  cases x with
  | class_ c => exact Deed.Declares.append h
  | object c id =>
    rw [Value.Known,Deed.instances_append]
    exact getElem?_of_isPrefix (List.prefix_append _ _) h
  | _ => trivial

theorem Value.Known.mono {log' : List Deed} (h : x.Known log) (hlog : log <+: log') : x.Known log' := by
  obtain ⟨more,rfl⟩ := hlog
  exact h.append

namespace Deed.Sound

/-- The class of a known value was declared. -/
theorem declares (h : Sound log) (hx : x.Known log) (hc : x.class? = some c) : Declares log c := by
  cases x with
  | class_ c' =>
    cases hc
    exact hx
  | object c' id =>
    cases hc
    obtain ⟨deed,hmem,hdeed⟩ := List.mem_filterMap.1 (List.mem_of_getElem? hx)
    cases deed with
    | created c' =>
      cases hdeed
      exact h.created hmem
    | declared | set => cases hdeed
  | _ => cases hc

/-- Classes are told apart by their identity. -/
theorem eq_of_id (h : Sound log) {c' : Class} (hc : Declares log c) (hc' : Declares log c')
    (hid : c.own.id = c'.own.id) : c' = c := by
  obtain ⟨d,hd,rfl⟩ := hc
  obtain ⟨d',hd',rfl⟩ := hc'
  rw [h.distinct hd hd' hid]

/-- What is the same to a program is of the same class. -/
theorem class?_eq_of_same (h : Sound log) {x' : Value} (hx : x.Known log) (hx' : x'.Known log)
    (hsame : x.same x' = true) : x'.class? = x.class? := by
  cases x with
  | class_ c =>
    cases x' with
    | class_ c' => rw [h.eq_of_id hx hx' (eq_of_beq hsame)]
    | _ => cases hsame
  | object c id =>
    cases x' with
    | object c' id' =>
      obtain rfl : id = id' := eq_of_beq hsame
      exact hx'.symm.trans hx
    | _ => cases hsame
  | _ => cases x' <;> first | rfl | cases hsame

/-- An entry that declares no class. -/
theorem concat (h : Sound log) {deed : Deed} (hquiet : ∀ d, deed ≠ .declared d)
    (hcreated : ∀ c, deed = .created c → Declares log c) : Sound (log ++ [deed]) := by
  have hold : ∀ {d}, Deed.declared d ∈ log ++ [deed] → .declared d ∈ log := by
    intro d hd
    rcases List.mem_append.1 hd with hd | hd
    · exact hd
    · exact absurd (List.mem_singleton.1 hd).symm (hquiet d)
  refine ⟨fun hd hd' => h.distinct (hold hd) (hold hd'),?_,?_⟩
  · rintro c ⟨d,hd,rfl⟩
    obtain ⟨chain,hchain⟩ := h.lineage ⟨d,hold hd,rfl⟩
    exact ⟨chain,hchain.append _⟩
  · intro c hc
    rcases List.mem_append.1 hc with hc | hc
    · exact (h.created hc).append
    · exact (hcreated c (List.mem_singleton.1 hc).symm).append

/-- A class extends one that was declared before, so its lineage comes to an end. -/
theorem declare (h : Sound log) {d : Declaration} (hid : ∀ {d'}, .declared d' ∈ log → d'.id < d.id)
    (hparent : ∀ c, d.parent = some c → Declares log c) : Sound (log ++ [.declared d]) := by
  have hcases : ∀ {d'}, Deed.declared d' ∈ log ++ [.declared d] → .declared d' ∈ log ∨ d' = d := by
    intro d' hd'
    simpa using hd'
  have hmem : Deed.declared d ∈ log ++ [.declared d] := by simp
  refine ⟨?_,?_,?_⟩
  · intro d₁ d₂ h₁ h₂ hsame
    rcases hcases h₁ with hold₁ | rfl
    · rcases hcases h₂ with hold₂ | rfl
      · exact h.distinct hold₁ hold₂ hsame
      · exact absurd hsame (Nat.ne_of_lt (hid hold₁))
    · rcases hcases h₂ with hold₂ | rfl
      · exact absurd hsame.symm (Nat.ne_of_lt (hid hold₂))
      · rfl
  · rintro c ⟨d',hd',rfl⟩
    rcases hcases hd' with hd' | rfl
    · obtain ⟨chain,hchain⟩ := h.lineage ⟨d',hd',rfl⟩
      exact ⟨chain,hchain.append _⟩
    · cases hd : d'.parent with
      | none => exact ⟨[d'],.root hmem hd⟩
      | some parent =>
        obtain ⟨chain,hchain⟩ := h.lineage (hparent parent hd)
        exact ⟨d' :: chain,.link hmem hd (hchain.append _)⟩
  · intro c hc
    exact (h.created (by simpa using hc)).append

end Deed.Sound

end

/-! ## Steps of the machine -/

namespace Machine.Follows

variable {log : List Deed} {m m' : Machine}

/-- Only bindings, fields and identities matter. -/
theorem congr (h : m.Follows log) (hstore : m'.memory.store = m.memory.store)
    (hobjects : m'.objects = m.objects) (hfresh : m.fresh ≤ m'.fresh) : m'.Follows log := by
  have hfield : ∀ object name, m'.fieldOf? object name = m.fieldOf? object name := by
    intro object name
    rw [fieldOf?,hobjects,fieldOf?]
  refine ⟨h.sound,fun hd => Nat.lt_of_lt_of_le (h.fresh hd) hfresh,?_,?_,?_,?_⟩
  · rw [hobjects]
    exact h.size
  · intro object name
    rw [hfield]
    exact h.fields object name
  · rw [hstore]
    exact h.bound
  · intro object name x hx
    rw [hfield] at hx
    exact h.held hx

theorem enter (h : m.Follows log) (scope : EnvId) :
    Machine.Follows log { m with memory.scope := scope } :=
  h.congr rfl rfl (Nat.le_refl _)

theorem push (h : m.Follows log) (enclosing : EnvId) {bindings : NameMap Value}
    (hbindings : ∀ name x, bindings.get? name = some x → x.Known log) :
    Machine.Follows log
      { m with memory.store := m.memory.store.push ⟨some enclosing,bindings⟩ } := by
  refine ⟨h.sound,h.fresh,h.size,h.fields,?_,h.held⟩
  intro e name x hbound
  rw [Store.bound?,Store.get?_push] at hbound
  split at hbound
  · exact hbindings name x hbound
  · exact h.bound hbound

theorem define (h : m.Follows log) {e : EnvId} {name : Bytes} {x : Value} (hx : x.Known log) :
    Machine.Follows log { m with memory.store := m.memory.store.define e name x } := by
  refine ⟨h.sound,h.fresh,h.size,h.fields,?_,h.held⟩
  intro e' key y hbound
  rcases Store.of_bound?_define hbound with rfl | hbound
  · exact hx
  · exact h.bound hbound

/-- A new instance takes the next place among the instances. -/
theorem newObject (h : m.Follows log) {c : Class} (hc : Declares log c) :
    Machine.Follows (log ++ [.created c]) { m with objects := m.objects.push .empty } ∧
      (Value.object c m.objects.size).Known (log ++ [.created c]) := by
  have hinstances : instances (log ++ [.created c]) = instances log ++ [c] := Deed.instances_append
  refine ⟨⟨?_,?_,?_,?_,?_,?_⟩,?_⟩
  · apply h.sound.concat
    · exact fun d => nofun
    · rintro c' ⟨⟩
      exact hc
  · intro d hd
    exact h.fresh (by simpa using hd)
  · rw [hinstances,Array.size_push,List.length_append,h.size]
    rfl
  · intro object name
    rw [fieldOf?_newObject,h.fields,Deed.lastSet?_concat]
    rfl
  · exact fun hbound => (h.bound hbound).append
  · intro object name x hx
    rw [fieldOf?_newObject] at hx
    exact (h.held hx).append
  · rw [Value.Known,hinstances,h.size]
    exact List.getElem?_concat_length

theorem fieldOf?_setField {object : Nat} (hobject : object < m.objects.size) (name : Bytes) (x : Value)
    (id : Nat) (key : Bytes) :
    Machine.fieldOf? { m with objects := m.objects.modify object (·.insert name x) } id key =
      if object = id ∧ name = key then some x else m.fieldOf? id key := by
  rw [fieldOf?,Array.getElem?_modify]
  by_cases hid : object = id
  · subst hid
    by_cases hkey : name = key
    · simp [hobject,hkey,NameMap.get?_insert]
    · have hother : (key == name) = false := beq_eq_false_iff_ne.2 (Ne.symm hkey)
      simp [hobject,hkey,hother,NameMap.get?_insert,fieldOf?]
  · simp [hid,fieldOf?]

/-- A field of an instance holds what it was set to last. -/
theorem setField (h : m.Follows log) {c : Class} {object : Nat} {name : Bytes} {x : Value}
    (hobject : (Value.object c object).Known log) (hx : x.Known log) :
    Machine.Follows (log ++ [.set object name x])
      { m with objects := m.objects.modify object (·.insert name x) } := by
  have hinstances : instances (log ++ [.set object name x]) = instances log := by
    rw [Deed.instances_append]
    exact List.append_nil _
  have hlt : object < m.objects.size := by
    rw [h.size]
    exact (List.getElem?_eq_some_iff.1 hobject).1
  refine ⟨?_,?_,?_,?_,?_,?_⟩
  · exact h.sound.concat (fun d => nofun) (fun c => nofun)
  · intro d hd
    exact h.fresh (by simpa using hd)
  · rw [hinstances,Array.size_modify]
    exact h.size
  · intro id key
    rw [fieldOf?_setField hlt,h.fields,Deed.lastSet?_concat,Deed.value?]
    split <;> rfl
  · exact fun hbound => (h.bound hbound).append
  · intro id key y hy
    rcases of_fieldOf?_setField hy with rfl | hy
    · exact hx.append
    · exact (h.held hy).append

/-- A class gets an identity of its own. -/
theorem declare (h : m.Follows log) {d : Declaration} (hid : d.id = m.fresh)
    (hparent : ∀ c, d.parent = some c → Declares log c) :
    Machine.Follows (log ++ [.declared d]) { m with fresh := m.fresh + 1 } := by
  have hinstances : instances (log ++ [.declared d]) = instances log := by
    rw [Deed.instances_append]
    exact List.append_nil _
  refine ⟨?_,?_,?_,?_,?_,?_⟩
  · exact h.sound.declare (fun hd' => hid ▸ h.fresh hd') hparent
  · intro d' hd'
    rcases List.mem_append.1 hd' with hd' | hd'
    · exact Nat.lt_succ_of_lt (h.fresh hd')
    · cases List.mem_singleton.1 hd'
      rw [hid]
      exact Nat.lt_succ_self _
  · rw [hinstances]
    exact h.size
  · intro object name
    rw [Deed.lastSet?_concat]
    exact h.fields object name
  · exact fun hbound => (h.bound hbound).append
  · exact fun hx => (h.held hx).append

end Machine.Follows

/-- At the beginning of a session there is neither a class nor an instance. -/
theorem Machine.follows_start (clock : Clock) : (Machine.start clock).Follows [] := by
  refine ⟨⟨nofun,nofun,nofun⟩,nofun,rfl,fun _ _ => rfl,?_,nofun⟩
  intro e name x hbound
  obtain ⟨env,henv,hget⟩ := Option.bind_eq_some_iff.1 hbound
  rw [Machine.start,Store.get?_push] at henv
  split at henv
  · obtain rfl := Option.some.inj henv
    obtain ⟨builtin,-,hentry⟩ := List.mem_map.1 (NameMap.mem_of_get?_ofList hget)
    obtain ⟨-,rfl⟩ := Prod.mk.inj hentry
    trivial
  · cases henv

/-! ## Steps one after the other -/

/-- Steps leave a machine that follows the given log, and what they give is as it should be. -/
def Logs {α : Type} (log : List Deed) (Q : List Deed → α → Prop) :
    EStateM.Result Abort Machine α → Prop
  | .ok a m => m.Follows log ∧ Q log a
  | .error _ m => m.Follows log

namespace Logs

variable {α β : Type} {log : List Deed} {m : Machine} {P : List Deed → α → Prop}
  {Q : List Deed → β → Prop} {x : Eval α} {f : α → Eval β}

theorem pure (h : m.Follows log) {a : α} (ha : P log a) : Logs log P (.ok a m) := ⟨h,ha⟩

theorem error (h : m.Follows log) {e : Abort} : Logs log P (.error e m) := h

theorem idle (h : m.Follows log) {e : Abort} : Logs (log ++ []) P (.error e m) := by
  rw [List.append_nil]
  exact h

theorem weaken {P' : List Deed → α → Prop} {r : EStateM.Result Abort Machine α} (h : Logs log P r)
    (hp : ∀ a, P log a → P' log a) : Logs log P' r := by
  cases r with
  | ok a m => exact ⟨h.1,hp a h.2⟩
  | error e m => exact h

theorem of_ok {r : EStateM.Result Abort Machine α} (h : Logs log P r) {a : α} {m : Machine}
    (hr : r = .ok a m) : m.Follows log ∧ P log a := by
  subst hr
  exact h

theorem follows {r : EStateM.Result Abort Machine α} (h : Logs log P r) :
    (machineAfter r).Follows log := by
  cases r with
  | ok a m => exact h.1
  | error e m => exact h

/-- The deeds of the second steps follow on those of the first. -/
theorem bind {later : α → Machine → List Deed} (hx : Logs log P (x m))
    (hf : ∀ a m', x m = .ok a m' → m'.Follows log → P log a →
      Logs (log ++ later a m') Q (f a m')) :
    Logs (log ++ onResult (x m) later) Q ((x >>= f) m) := by
  cases hresult : x m with
  | ok a m' =>
    rw [hresult] at hx
    have hsteps : (x >>= f) m = f a m' := by simp [Bind.bind,EStateM.bind,hresult]
    rw [hsteps,onResult_ok]
    exact hf a m' hresult hx.1 hx.2
  | error e m' =>
    rw [hresult] at hx
    have hsteps : (x >>= f) m = .error e m' := by simp [Bind.bind,EStateM.bind,hresult]
    rw [hsteps,onResult_error,List.append_nil]
    exact hx

/-- The second steps add nothing to the log. -/
theorem next (hx : Logs log P (x m))
    (hf : ∀ a m', x m = .ok a m' → m'.Follows log → P log a → Logs log Q (f a m')) :
    Logs log Q ((x >>= f) m) := by
  have hsilent : Logs (log ++ onResult (x m) fun _ _ => []) Q ((x >>= f) m) := by
    apply hx.bind
    intro a m' ha hm' hp
    rw [List.append_nil]
    exact hf a m' ha hm' hp
  rwa [onResult_nil,List.append_nil] at hsilent

theorem get {f : Machine → Eval α} (h : Logs log P (f m m)) :
    Logs log P (((MonadState.get : Eval Machine) >>= f) m) := h

theorem inScope {scope : EnvId} (hx : Logs log P (x { m with memory.scope := scope })) :
    Logs log P (Eval.inScope scope x m) := by
  unfold Eval.inScope
  cases hresult : x { m with memory.scope := scope } with
  | ok a m' =>
    rw [hresult] at hx
    exact ⟨hx.1.enter m.memory.scope,hx.2⟩
  | error e m' =>
    rw [hresult] at hx
    exact Machine.Follows.enter hx m.memory.scope

end Logs

section

variable {α : Type} {log : List Deed} {m : Machine} {P : List Deed → α → Prop}

theorem logs_orFault (h : m.Follows log) {token : Token} {result : Except EvalError α}
    (ha : ∀ a, result = .ok a → P log a) : Logs log P (Steps.orFault token result m) := by
  cases result with
  | ok a => exact .pure h (ha a rfl)
  | error e => exact .error h

theorem logs_newFunction (h : m.Follows log) (f : Function) :
    Logs log (fun log x => x.Known log) (Steps.newFunction f m) :=
  ⟨h.congr rfl rfl (Nat.le_succ _),trivial⟩

theorem logs_newEnv (h : m.Follows log) {enclosing : EnvId} {bindings : NameMap Value}
    (hbindings : ∀ name x, bindings.get? name = some x → x.Known log) :
    Logs log (fun _ _ => True) (Eval.newEnv enclosing bindings m) :=
  ⟨h.push enclosing hbindings,trivial⟩

/-- A method that is bound to an instance. -/
theorem logs_bind (h : m.Follows log) {method : Function} {object : Value} (hobject : object.Known log) :
    Logs log (fun _ _ => True) (Eval.bind method object m) := by
  have henv : Logs log (fun _ _ => True)
      (Eval.newEnv method.closure (.ofList [(thisName,object)]) m) :=
    logs_newEnv h fun name x hget => NameMap.of_get?_single hobject hget
  exact henv.next fun closure m' _ hm' _ => .pure hm' trivial

theorem logs_store (h : m.Follows log) {e : EnvId} {name : Bytes} {x : Value} (hx : x.Known log) :
    Logs log (fun _ _ => True) (Eval.store e name x m) :=
  ⟨h.define hx,trivial⟩

theorem logs_define (h : m.Follows log) {name : Bytes} {x : Value} (hx : x.Known log) :
    Logs log (fun _ _ => True) (Eval.define name x m) :=
  .get (logs_store h hx)

/-! ### Reading -/

/-- What can be read is known. -/
theorem Machine.Follows.initialized (h : m.Follows log) {e : EnvId} {name : Bytes} {x y : Value}
    (hbound : m.memory.store.bound? e name = some x) (hread : Store.initialized name x = .ok y) :
    y.Known log := by
  have hx := h.bound hbound
  cases x <;> cases hread <;> exact hx

theorem logs_readAt (h : m.Follows log) {scope : EnvId} {distance : Nat} {name : Bytes}
    {token : Token} :
    Logs log (fun log x => x.Known log) (Eval.readAt scope distance name token m) := by
  rw [Eval.readAt_eq]
  cases hread : m.memory.store.readAt? scope distance name with
  | none => exact .error h
  | some found =>
    refine logs_orFault h fun y hy => ?_
    obtain ⟨holder,-,rfl⟩ := Option.map_eq_some_iff.1 hread
    split at hy
    · next x hx => exact h.initialized hx hy
    · cases hy

theorem logs_lookUp (h : m.Follows log) {ctx : Context} {name : Token} :
    Logs log (fun log x => x.Known log) (Eval.lookUp ctx name m) := by
  cases hentry : ctx.table[name.index]? with
  | some distance =>
    rw [Eval.lookUp_of_distance hentry]
    exact logs_readAt h
  | none =>
    rw [Eval.lookUp_of_none hentry]
    refine logs_orFault h fun y hy => ?_
    unfold Store.read at hy
    split at hy
    · next x hx =>
      obtain ⟨holder,-,hbound⟩ := Option.bind_eq_some_iff.1 hx
      exact h.initialized hbound hy
    · cases hy

theorem logs_assign (h : m.Follows log) {ctx : Context} {name : Token} {x : Value} (hx : x.Known log) :
    Logs log (fun _ _ => True) (Eval.assign ctx name x m) := by
  have hholder : Logs log (fun _ _ => True) (Eval.holder ctx name m) := by
    cases hentry : ctx.table[name.index]? with
    | some distance =>
      rw [Eval.holder_of_distance hentry]
      cases m.memory.store.ancestor? m.memory.scope distance with
      | some holder => exact .pure h trivial
      | none => exact .error h
    | none =>
      rw [Eval.holder_of_none hentry]
      cases m.memory.store.holder? globalScope name.lexeme with
      | some holder => exact .pure h trivial
      | none => exact .error h
  exact hholder.next fun holder m' _ hm' _ => logs_store hm' hx

theorem logs_methodFor (h : m.Follows log) {c : Class} {name : Token} {object : Value}
    (hobject : object.Known log) :
    Logs log (fun log x => x.Known log) (Eval.methodFor c name object m) := by
  unfold Eval.methodFor
  cases c.findMethod? name.lexeme with
  | some method => exact (logs_bind h hobject).next fun f m' _ hm' _ => logs_newFunction hm' f
  | none => exact .error h

theorem logs_property (h : m.Follows log) {object : Value} {name : Token} (hobject : object.Known log) :
    Logs log (fun log x => x.Known log) (Eval.property object name m) := by
  cases object with
  | object c id =>
    have hfield : Logs log (fun log (found : Option Value) => ∀ x, found = some x → x.Known log)
        (Steps.field? id name.lexeme m) := .pure h fun x hx => h.held hx
    refine hfield.next fun found m' _ hm' hfound => ?_
    cases found with
    | some x => exact .pure hm' (hfound x rfl)
    | none => exact logs_methodFor hm' hobject
  | _ => exact .error h

theorem logs_superMethod (h : m.Follows log) {ctx : Context} {keyword method : Token} :
    Logs log (fun log x => x.Known log) (Eval.superMethod ctx keyword method m) := by
  cases hentry : ctx.table[keyword.index]? with
  | none =>
    rw [Eval.superMethod_of_none method hentry]
    exact .error h
  | some distance =>
    rw [Eval.superMethod_of_distance method hentry]
    refine (logs_readAt h).next fun parent m₁ _ hm₁ _ => ?_
    refine (logs_readAt hm₁).next fun object m₂ _ hm₂ hobject => ?_
    cases parent with
    | class_ c =>
      cases object with
      | object c' id => exact logs_methodFor hm₂ hobject
      | _ => exact .error hm₂
    | _ => exact .error hm₂

theorem logs_callBuiltin (h : m.Follows log) {vars : NameMap Bytes} {paren : Token} {b : Builtin}
    {args : List Value} :
    Logs log (fun log x => x.Known log) (Steps.callBuiltin vars paren b args m) := by
  unfold Steps.callBuiltin
  split
  · exact ⟨h.congr rfl rfl (Nat.le_refl _),trivial⟩
  · exact .pure h trivial
  · exact .pure h trivial
  · next name =>
    cases vars.get? name with
    | some value => exact .pure h trivial
    | none => exact .pure h trivial
  · exact .error h
  · exact .error h

/-! ### Classes -/

theorem logs_superclass? (h : m.Follows log) {ctx : Context} {superclass : Option Token} :
    Logs log (fun log parent => ∀ c, parent = some c → Declares log c)
      (Eval.superclass? ctx superclass m) := by
  cases superclass with
  | none => exact .pure h fun c hc => by cases hc
  | some token =>
    refine (logs_lookUp h).next fun x m' _ hm' hx => ?_
    cases x with
    | class_ c => exact .pure hm' fun c' hc' => Option.some.inj hc' ▸ hx
    | _ => exact .error hm'

/-- The class that a declaration binds its name to is the one in the log. -/
theorem logs_declareClass (h : m.Follows log) {ctx : Context} {name : Token} {superclass : Option Token}
    {methods : List FunctionDecl} {n : Nat} :
    Logs (log ++ (Task.stmt (.classDecl name superclass methods)).lastDeeds ctx n m)
      (fun _ _ => True) (Eval.declareClass ctx name superclass methods m) := by
  apply (logs_superclass? h).bind
  intro parent m₁ _ hm₁ hparent
  have hnamed : Machine.Follows log { m₁ with
      memory.store := m₁.memory.store.define m₁.memory.scope name.lexeme .nil } := hm₁.define trivial
  cases parent with
  | none =>
    let d : Declaration := ⟨m₁.fresh,name.lexeme,m₁.memory.scope,methods,none⟩
    have hclass : (Value.class_ d.class_).Known (log ++ [.declared d]) := ⟨d,by simp,rfl⟩
    exact ⟨(hnamed.declare (d := d) rfl hparent).define hclass,trivial⟩
  | some parent =>
    -- binding the name leaves the number of environments as it is
    let closure := (m₁.memory.store.define m₁.memory.scope name.lexeme .nil).size
    let d : Declaration := ⟨m₁.fresh,name.lexeme,closure,methods,some parent⟩
    have hlog : onResult (Eval.methodScope m₁.memory.scope (some parent) m₁) (fun closure m =>
        [Deed.declared ⟨m.fresh,name.lexeme,closure,methods,some parent⟩]) = [.declared d] := by
      show [Deed.declared ⟨m₁.fresh,name.lexeme,m₁.memory.store.size,methods,some parent⟩] = _
      rw [← Store.size_define]
    have hextended : (Value.class_ parent).Known log := hparent parent rfl
    have hbindings : ∀ key x, (NameMap.ofList [(superName,Value.class_ parent)]).get? key = some x →
        x.Known log := fun key x hget => NameMap.of_get?_single hextended hget
    have hclass : (Value.class_ d.class_).Known (log ++ [.declared d]) := ⟨d,by simp,rfl⟩
    rw [hlog]
    exact ⟨((hnamed.push m₁.memory.scope hbindings).declare (d := d) rfl hparent).define hclass,trivial⟩

end

end Scriptlet
