import Scriptlet.Proofs.LookUps
import Scriptlet.Proofs.Writes

/-! # Environments against the writes

In every state of a run, what was written last decides what a name is bound to, and a name that was
never written to is bound to a proper value. Proper values are all that a program gets hold of: they
are not the mark of a variable without value, their functions lead to environments that exist, and
they are no instances that are still to be created. Each step of the machine keeps this, with the
writes that it makes.
-/
namespace Scriptlet

/-! ## Proper values -/

/-- How many environments and instances there are. -/
structure Extent where
  envs : Nat
  objects : Nat

instance : LE Extent where
  le size size' := size.envs ≤ size'.envs ∧ size.objects ≤ size'.objects

theorem Extent.le_refl (size : Extent) : size ≤ size := ⟨Nat.le_refl _,Nat.le_refl _⟩

theorem Extent.le_trans {size size' size'' : Extent} (h : size ≤ size') (h' : size' ≤ size'') :
    size ≤ size'' :=
  ⟨Nat.le_trans h.1 h'.1,Nat.le_trans h.2 h'.2⟩

/-- The methods of a class lead to environments that exist. -/
def Class.Proper (size : Extent) (c : Class) : Prop :=
  ∀ body ∈ c.lineage, ∀ name f, body.methods.get? name = some f → f.closure < size.envs

/-- A value that a program can get hold of. -/
def Value.Proper (size : Extent) : Value → Prop
  | .scalar _ | .builtin _ => True
  | .function _ f => f.closure < size.envs
  | .class_ c => c.Proper size
  | .object c id => c.Proper size ∧ id < size.objects
  | .uninitialized => False

section

variable {size size' : Extent} {c : Class} {x : Value}

theorem Class.Proper.mono (h : c.Proper size) (hle : size ≤ size') : c.Proper size' :=
  fun body hbody name f hf => Nat.lt_of_lt_of_le (h body hbody name f hf) hle.1

theorem Value.Proper.mono (h : x.Proper size) (hle : size ≤ size') : x.Proper size' := by
  cases x with
  | scalar | builtin => trivial
  | function id f => exact Nat.lt_of_lt_of_le h hle.1
  | class_ c => exact Class.Proper.mono h hle
  | object c id => exact ⟨h.1.mono hle,Nat.lt_of_lt_of_le h.2 hle.2⟩
  | uninitialized => exact h

theorem Value.Proper.ne (h : x.Proper size) : x ≠ .uninitialized := by
  rintro rfl
  exact h

theorem Class.Proper.findMethod? (h : c.Proper size) {name : Bytes} {f : Function}
    (hf : c.findMethod? name = some f) : f.closure < size.envs := by
  obtain ⟨body,hbody,hmethod⟩ := List.exists_of_findSome?_eq_some hf
  exact h body hbody name f hmethod

theorem NameMap.mem_of_get?_insertAll {α : Type} {l : List (Bytes × α)} {m : NameMap α} {key : Bytes}
    {a : α} (h : (l.foldl (fun m b => m.insert b.1 b.2) m).get? key = some a) :
    (key,a) ∈ l ∨ m.get? key = some a := by
  induction l generalizing m with
  | nil => exact .inr h
  | cons b rest ih =>
    rcases ih h with hrest | hget
    · exact .inl (List.mem_cons_of_mem _ hrest)
    · rw [get?_insert] at hget
      split at hget
      · next hkey =>
        obtain rfl := Option.some.inj hget
        obtain rfl : key = b.1 := eq_of_beq hkey
        exact .inl List.mem_cons_self
      · exact .inr hget

theorem NameMap.mem_of_get?_ofList {α : Type} {l : List (Bytes × α)} {key : Bytes} {a : α}
    (h : (NameMap.ofList l).get? key = some a) : (key,a) ∈ l := by
  rcases mem_of_get?_insertAll h with hmem | hget
  · exact hmem
  · cases hget

theorem NameMap.get?_single {α : Type} (name : Bytes) (a : α) :
    (NameMap.ofList [(name,a)]).get? name = some a := by
  simp [NameMap.ofList,NameMap.get?_insert]

theorem NameMap.of_get?_single {α : Type} {P : α → Prop} {name key : Bytes} {a b : α} (ha : P a)
    (h : (NameMap.ofList [(name,a)]).get? key = some b) : P b := by
  obtain ⟨-,rfl⟩ := Prod.mk.inj (List.mem_singleton.1 (mem_of_get?_ofList h))
  exact ha

/-- What holds of the methods of a class and of those it inherits, under the names that they are found
by. -/
theorem Class.of_extending {P : Bytes → Function → Prop} {closure : EnvId} {id : Nat} {name : Bytes}
    {methods : List FunctionDecl} {parent : Option Class}
    (hmethods : ∀ decl ∈ methods,
      P decl.name.lexeme ⟨decl,closure,decl.name.lexeme = initializerName⟩)
    (hparent : ∀ c, parent = some c → ∀ body ∈ c.lineage, ∀ key f,
      body.methods.get? key = some f → P key f) :
    ∀ body ∈ ((ClassBody.declared id name closure methods).extending parent).lineage, ∀ key f,
      body.methods.get? key = some f → P key f := by
  intro body hbody key f hf
  rcases List.mem_cons.1 hbody with rfl | hbody
  · obtain ⟨decl,hdecl,hentry⟩ := List.mem_map.1 (NameMap.mem_of_get?_ofList hf)
    obtain ⟨rfl,rfl⟩ := Prod.mk.inj hentry
    exact hmethods decl hdecl
  · cases parent with
    | none => cases hbody
    | some c => exact hparent c rfl body hbody key f hf

/-- A class whose methods are created in an environment that exists. -/
theorem Class.proper_extending {closure : EnvId} {id : Nat} {name : Bytes}
    {methods : List FunctionDecl} {parent : Option Class} (hclosure : closure < size.envs)
    (hparent : ∀ c, parent = some c → c.Proper size) :
    ((ClassBody.declared id name closure methods).extending parent).Proper size :=
  Class.of_extending (fun _ _ => hclosure) hparent

/-- What holds of the arguments holds of all that the parameters are bound to. -/
theorem Eval.of_bindParameters {P : Value → Prop} {params : List Token} {args : List Value}
    {bindings bindings' : NameMap Value} (hargs : ∀ x ∈ args, P x)
    (hbindings : ∀ name x, bindings.get? name = some x → P x)
    (h : Eval.bindParameters params args bindings = some bindings') :
    ∀ name x, bindings'.get? name = some x → P x := by
  induction params generalizing args bindings with
  | nil =>
    obtain rfl : bindings = bindings' := Option.some.inj h
    exact hbindings
  | cons p rest ih =>
    cases args with
    | nil => cases h
    | cons a args =>
      refine ih (fun x hx => hargs x (List.mem_cons_of_mem _ hx)) (fun name x hget => ?_) h
      rw [NameMap.get?_insert] at hget
      split at hget
      · obtain rfl := Option.some.inj hget
        exact hargs a List.mem_cons_self
      · exact hbindings name x hget

end

/-! ## Recorded machines -/

/-- How many environments there are. -/
def Machine.size (m : Machine) : Nat := m.memory.store.size

def Machine.extent (m : Machine) : Extent := ⟨m.size,m.objects.size⟩

/-- What a field of an instance holds. -/
def Machine.fieldOf? (m : Machine) (object : Nat) (name : Bytes) : Option Value :=
  m.objects[object]?.bind (·.get? name)

/-- A new instance has no fields. -/
theorem Machine.fieldOf?_newObject {m : Machine} {object : Nat} {name : Bytes} :
    Machine.fieldOf? { m with objects := m.objects.push .empty } object name =
      m.fieldOf? object name := by
  rw [fieldOf?,Array.getElem?_push,fieldOf?]
  split
  · next hobject =>
    have hnone : m.objects[object]? = none := Array.getElem?_eq_none (Nat.le_of_eq hobject.symm)
    rw [hnone]
    rfl
  · rfl

theorem Machine.extent_le_push (m : Machine) (env : Env) :
    m.extent ≤ ({ m with memory.store := m.memory.store.push env } : Machine).extent := by
  have hsize : (m.memory.store.push env).size = m.size + 1 := Store.size_push
  refine ⟨?_,Nat.le_refl _⟩
  show m.size ≤ (m.memory.store.push env).size
  omega

theorem Machine.extent_le_newObject (m : Machine) :
    m.extent ≤ ({ m with objects := m.objects.push .empty } : Machine).extent :=
  ⟨Nat.le_refl _,by rw [extent,extent,Array.size_push]; exact Nat.le_succ _⟩

/-- Setting a field creates no instance. -/
theorem Machine.extent_setField (m : Machine) (object : Nat) (name : Bytes) (x : Value) :
    ({ m with objects := m.objects.modify object (·.insert name x) } : Machine).extent = m.extent := by
  simp [extent,size]

/-- After a field is set, fields hold what they held or the value that was set. -/
theorem Machine.of_fieldOf?_setField {m : Machine} {object id : Nat} {name key : Bytes} {x y : Value}
    (h : Machine.fieldOf? { m with objects := m.objects.modify object (·.insert name x) } id key =
      some y) : y = x ∨ m.fieldOf? id key = some y := by
  rw [fieldOf?,Array.getElem?_modify] at h
  split at h
  · obtain ⟨fields,hfields,hget⟩ := Option.bind_eq_some_iff.1 h
    obtain ⟨old,hold,rfl⟩ := Option.map_eq_some_iff.1 hfields
    rw [NameMap.get?_insert] at hget
    split at hget
    · exact .inl (Option.some.inj hget).symm
    · exact .inr (Option.bind_eq_some_iff.2 ⟨old,hold,hget⟩)
  · exact .inr h

/-- The bindings of a machine follow from a list of writes. All environments that are referred to
exist, and fields hold proper values. An environment is enclosed by an older one, unless it is the one
of the globals. -/
structure Machine.Recorded (log : List Write) (m : Machine) : Prop where
  scope : m.memory.scope < m.size
  enclosing : ∀ {id env outer}, m.memory.store.get? id = some env → env.enclosing = some outer →
    outer < id
  root : ∀ {id env}, m.memory.store.get? id = some env → env.enclosing = none → id = globalScope
  placed : ∀ {w}, w ∈ log → w.env < m.size
  written : ∀ {id name w}, Write.last? log id name = some w →
    m.memory.store.bound? id name = some w.bound
  bound : ∀ {id name x}, m.memory.store.bound? id name = some x →
    x.Proper m.extent ∨ x = .uninitialized ∧ ∃ w, Write.last? log id name = some w ∧ w.value? = none
  fields : ∀ {object name x}, m.fieldOf? object name = some x → x.Proper m.extent

namespace Machine.Recorded

variable {log : List Write} {m m' : Machine}

/-- Only environments and fields matter. -/
theorem congr (h : m.Recorded log) (hmemory : m'.memory = m.memory)
    (hobjects : m'.objects = m.objects) : m'.Recorded log := by
  obtain ⟨hscope,henclosing,hroot,hplaced,hwritten,hbound,hfields⟩ := h
  unfold extent size fieldOf? at *
  constructor <;> simp only [extent,size,fieldOf?,hmemory,hobjects] <;> assumption

theorem enter (h : m.Recorded log) {scope : EnvId} (hscope : scope < m.size) :
    Machine.Recorded log { m with memory.scope := scope } :=
  ⟨hscope,h.enclosing,h.root,h.placed,h.written,h.bound,h.fields⟩

theorem push (h : m.Recorded log) {enclosing : EnvId} {bindings : NameMap Value}
    (henclosing : enclosing < m.size)
    (hbindings : ∀ name x, bindings.get? name = some x → x.Proper m.extent) :
    Machine.Recorded log
      { m with memory.store := m.memory.store.push ⟨some enclosing,bindings⟩ } := by
  have hsize : ({ m with memory.store := m.memory.store.push ⟨some enclosing,bindings⟩ } : Machine).size =
      m.size + 1 := Store.size_push
  have hle := m.extent_le_push ⟨some enclosing,bindings⟩
  have hold : ∀ {id name}, id < m.size →
      (m.memory.store.push ⟨some enclosing,bindings⟩).bound? id name = m.memory.store.bound? id name := by
    intro id name hid
    rw [Store.bound?,Store.get?_push_of_lt hid]
    rfl
  constructor
  · rw [hsize]
    exact Nat.lt_succ_of_lt h.scope
  · intro id env outer hget houter
    rw [Store.get?_push] at hget
    split at hget
    · next hid =>
      obtain rfl := Option.some.inj hget
      obtain rfl := Option.some.inj houter
      exact hid ▸ henclosing
    · exact h.enclosing hget houter
  · intro id env hget hnone
    rw [Store.get?_push] at hget
    split at hget
    · obtain rfl := Option.some.inj hget
      cases hnone
    · exact h.root hget hnone
  · intro w hw
    rw [hsize]
    exact Nat.lt_succ_of_lt (h.placed hw)
  · -- All writes went to older environments, which keep what they bind.
    intro id name w hlast
    obtain ⟨hmem,rfl,-⟩ := Write.of_last? hlast
    exact (hold (h.placed hmem)).trans (h.written hlast)
  · intro id name x hbound
    by_cases hid : id = m.size
    · subst hid
      have hnew : bindings.get? name = some x := by
        simpa [Store.bound?,size] using hbound
      exact .inl ((hbindings name x hnew).mono hle)
    · have hlt : id < m.size := by
        obtain ⟨env,henv,-⟩ := Option.bind_eq_some_iff.1 hbound
        have hlt := Store.lt_size_of_get? henv
        rw [Store.size_push] at hlt
        exact Nat.lt_of_le_of_ne (Nat.le_of_lt_succ hlt) hid
      exact (h.bound ((hold hlt).symm.trans hbound)).imp_left fun hx => hx.mono hle
  · intro id name x hfield
    exact (h.fields hfield).mono hle

theorem write (h : m.Recorded log) {w : Write} (henv : w.env < m.size)
    (hvalue : ∀ x, w.value? = some x → x.Proper m.extent) :
    Machine.Recorded (log ++ [w])
      { m with memory.store := m.memory.store.define w.env w.name w.bound } := by
  have hsize : ({ m with memory.store := m.memory.store.define w.env w.name w.bound } : Machine).size =
      m.size := Store.size_define
  have hextent : ({ m with memory.store := m.memory.store.define w.env w.name w.bound } :
      Machine).extent = m.extent := by rw [extent,extent,hsize]
  constructor
  · rw [hsize]
    exact h.scope
  · intro id env outer hget houter
    rw [Store.get?_define] at hget
    obtain ⟨env',henv',rfl⟩ := Option.map_eq_some_iff.1 hget
    refine h.enclosing henv' ?_
    rw [← houter]
    split <;> rfl
  · intro id env hget hnone
    rw [Store.get?_define] at hget
    obtain ⟨env',henv',rfl⟩ := Option.map_eq_some_iff.1 hget
    refine h.root henv' ?_
    rw [← hnone]
    split <;> rfl
  · intro w' hw'
    rw [hsize]
    rcases List.mem_append.1 hw' with hw' | hw'
    · exact h.placed hw'
    · obtain rfl := List.mem_singleton.1 hw'
      exact henv
  · intro id name w' hlast
    rw [Write.last?_append_singleton] at hlast
    rw [Store.bound?_define henv]
    by_cases heq : w.env = id ∧ w.name = name
    · rw [if_pos heq] at hlast
      obtain rfl := Option.some.inj hlast
      rw [if_pos ⟨heq.1,heq.2.symm⟩]
    · rw [if_neg heq] at hlast
      rw [if_neg fun hsame => heq ⟨hsame.1,hsame.2.symm⟩]
      exact h.written hlast
  · intro id name x hbound
    rw [hextent,Write.last?_append_singleton]
    rw [Store.bound?_define henv] at hbound
    by_cases heq : w.env = id ∧ w.name = name
    · rw [if_pos ⟨heq.1,heq.2.symm⟩] at hbound
      obtain rfl := Option.some.inj hbound
      rw [if_pos heq]
      cases hw : w.value? with
      | none => exact .inr ⟨by rw [Write.bound,hw]; rfl,w,rfl,hw⟩
      | some y =>
        have hy : w.bound = y := by rw [Write.bound,hw]; rfl
        rw [hy]
        exact .inl (hvalue y hw)
    · rw [if_neg fun hsame => heq ⟨hsame.1,hsame.2.symm⟩] at hbound
      rw [if_neg heq]
      exact h.bound hbound
  · intro id name x hfield
    rw [hextent]
    exact h.fields hfield

theorem newObject (h : m.Recorded log) :
    Machine.Recorded log { m with objects := m.objects.push .empty } := by
  have hle := m.extent_le_newObject
  refine ⟨h.scope,h.enclosing,h.root,h.placed,h.written,fun hbound => ?_,fun {id name x} hfield => ?_⟩
  · exact (h.bound hbound).imp_left fun hx => hx.mono hle
  · rw [fieldOf?_newObject] at hfield
    exact (h.fields hfield).mono hle

theorem setField (h : m.Recorded log) {object : Nat} {name : Bytes} {x : Value}
    (hx : x.Proper m.extent) :
    Machine.Recorded log { m with objects := m.objects.modify object (·.insert name x) } := by
  have hextent := m.extent_setField object name x
  refine ⟨h.scope,h.enclosing,h.root,h.placed,h.written,?_,fun {id key y} hfield => ?_⟩
  · rw [hextent]
    exact h.bound
  · rw [hextent]
    rcases of_fieldOf?_setField hfield with rfl | hfield
    · exact hx
    · exact h.fields hfield

theorem ancestor? (h : m.Recorded log) {id holder : EnvId} {distance : Nat} (hid : id < m.size)
    (hfound : m.memory.store.ancestor? id distance = some holder) : holder < m.size := by
  induction distance generalizing id with
  | zero =>
    obtain rfl : id = holder := Option.some.inj hfound
    exact hid
  | succ distance ih =>
    rw [Store.ancestor?] at hfound
    split at hfound
    · cases hfound
    · next env henv =>
      split at hfound
      · cases hfound
      · next outer houter =>
        exact ih (Nat.lt_trans (h.enclosing henv houter) (Store.lt_size_of_get? henv)) hfound

end Machine.Recorded

/-- The globals of a new session were never written to. -/
theorem Machine.recorded_start (clock : Clock) : (Machine.start clock).Recorded [] := by
  have hglobals : ∀ {id env}, (Machine.start clock).memory.store.get? id = some env →
      env = ⟨none,NameMap.ofList (Builtin.all.map fun b => (b.name,Value.builtin b))⟩ := by
    intro id env hget
    rw [Machine.start,Store.get?_push] at hget
    split at hget
    · exact (Option.some.inj hget).symm
    · cases hget
  constructor
  · exact Nat.zero_lt_one
  · intro id env outer hget houter
    rw [hglobals hget] at houter
    cases houter
  · intro id env hget _
    have hsize : (Machine.start clock).memory.store.size = 1 := Store.size_push
    exact Nat.lt_one_iff.1 (hsize ▸ Store.lt_size_of_get? hget)
  · intro w hw
    cases hw
  · intro id name w hlast
    cases hlast
  · intro id name x hbound
    obtain ⟨env,henv,hget⟩ := Option.bind_eq_some_iff.1 hbound
    rw [hglobals henv] at hget
    obtain ⟨builtin,-,hentry⟩ := List.mem_map.1 (NameMap.mem_of_get?_ofList hget)
    obtain ⟨-,rfl⟩ := Prod.mk.inj hentry
    exact .inl trivial
  · intro object name x hfield
    cases hfield

/-! ## Steps -/

/-- Steps that were begun in the machine `m` leave a recorded machine, and what they give is as it
should be. -/
def Leaves {α : Type} (log : List Write) (m : Machine) (Q : Extent → α → Prop) :
    EStateM.Result Abort Machine α → Prop
  | .ok a m' => m'.Recorded log ∧ m.extent ≤ m'.extent ∧ Q m'.extent a
  | .error _ m' => m'.Recorded log ∧ m.extent ≤ m'.extent

namespace Leaves

variable {α β : Type} {log : List Write} {m : Machine} {P : Extent → α → Prop} {Q : Extent → β → Prop}
  {x : Eval α} {f : α → Eval β}

theorem pure (h : m.Recorded log) {a : α} (ha : P m.extent a) : Leaves log m P (.ok a m) :=
  ⟨h,Extent.le_refl _,ha⟩

theorem error (h : m.Recorded log) {e : Abort} : Leaves log m P (.error e m) := ⟨h,Extent.le_refl _⟩

theorem idle (h : m.Recorded log) {e : Abort} : Leaves (log ++ []) m P (.error e m) := by
  rw [List.append_nil]
  exact .error h

theorem weaken {P' : Extent → α → Prop} {r : EStateM.Result Abort Machine α} (h : Leaves log m P r)
    (hp : ∀ size a, P size a → P' size a) : Leaves log m P' r := by
  cases r with
  | ok a m' => exact ⟨h.1,h.2.1,hp _ _ h.2.2⟩
  | error e m' => exact h

theorem of_ok {r : EStateM.Result Abort Machine α} (h : Leaves log m P r) {a : α} {m' : Machine}
    (hr : r = .ok a m') : m'.Recorded log ∧ P m'.extent a := by
  subst hr
  exact ⟨h.1,h.2.2⟩

theorem recorded {r : EStateM.Result Abort Machine α} (h : Leaves log m P r) :
    (machineAfter r).Recorded log := by
  cases r with
  | ok a m' => exact h.1
  | error e m' => exact h.1

/-- The writes of the second steps follow on those of the first. -/
theorem bind {later : α → Machine → List Write} (hx : Leaves log m P (x m))
    (hf : ∀ a m', x m = .ok a m' → m'.Recorded log → m.extent ≤ m'.extent → P m'.extent a →
      Leaves (log ++ later a m') m' Q (f a m')) :
    Leaves (log ++ onResult (x m) later) m Q ((x >>= f) m) := by
  cases hresult : x m with
  | ok a m' =>
    rw [hresult] at hx
    obtain ⟨hrecorded,hle,ha⟩ := hx
    have hnext := hf a m' hresult hrecorded hle ha
    have hsteps : (x >>= f) m = f a m' := by simp [Bind.bind,EStateM.bind,hresult]
    rw [hsteps,onResult_ok]
    cases hlast : f a m' with
    | ok b m'' =>
      rw [hlast] at hnext
      exact ⟨hnext.1,Extent.le_trans hle hnext.2.1,hnext.2.2⟩
    | error e m'' =>
      rw [hlast] at hnext
      exact ⟨hnext.1,Extent.le_trans hle hnext.2⟩
  | error e m' =>
    rw [hresult] at hx
    have hsteps : (x >>= f) m = .error e m' := by simp [Bind.bind,EStateM.bind,hresult]
    rw [hsteps,onResult_error,List.append_nil]
    exact hx

/-- The second steps write nothing. -/
theorem next (hx : Leaves log m P (x m))
    (hf : ∀ a m', x m = .ok a m' → m'.Recorded log → m.extent ≤ m'.extent → P m'.extent a →
      Leaves log m' Q (f a m')) : Leaves log m Q ((x >>= f) m) := by
  have hsilent : Leaves (log ++ onResult (x m) fun _ _ => []) m Q ((x >>= f) m) := by
    refine hx.bind fun a m' ha hm' hle hp => ?_
    rw [List.append_nil]
    exact hf a m' ha hm' hle hp
  rwa [onResult_nil,List.append_nil] at hsilent

theorem get {f : Machine → Eval α} (h : Leaves log m P (f m m)) :
    Leaves log m P (((MonadState.get : Eval Machine) >>= f) m) := h

theorem inScope {scope : EnvId} (h : m.Recorded log) {log' : List Write}
    (hx : Leaves log' { m with memory.scope := scope } P (x { m with memory.scope := scope })) :
    Leaves log' m P (Eval.inScope scope x m) := by
  unfold Eval.inScope
  cases hresult : x { m with memory.scope := scope } with
  | ok a m' =>
    rw [hresult] at hx
    exact ⟨hx.1.enter (Nat.lt_of_lt_of_le h.scope hx.2.1.1),hx.2⟩
  | error e m' =>
    rw [hresult] at hx
    exact ⟨hx.1.enter (Nat.lt_of_lt_of_le h.scope hx.2.1),hx.2⟩

end Leaves

section

variable {α : Type} {log : List Write} {m : Machine} {P : Extent → α → Prop}

theorem leaves_orFault (h : m.Recorded log) {token : Token} {result : Except EvalError α}
    (ha : ∀ a, result = .ok a → P m.extent a) : Leaves log m P (Steps.orFault token result m) := by
  cases result with
  | ok a => exact .pure h (ha a rfl)
  | error e => exact .error h

theorem leaves_orLost (h : m.Recorded log) {result : Option α}
    (ha : ∀ a, result = some a → P m.extent a) : Leaves log m P (Steps.orLost result m) := by
  cases result with
  | some a => exact .pure h (ha a rfl)
  | none => exact .error h

theorem leaves_print (h : m.Recorded log) {line : Bytes} :
    Leaves log m (fun _ _ => True) (Steps.print line m) :=
  ⟨h.congr rfl rfl,Extent.le_refl _,trivial⟩

theorem leaves_newIdentity (h : m.Recorded log) :
    Leaves log m (fun _ _ => True) (Steps.newIdentity m) :=
  ⟨h.congr rfl rfl,Extent.le_refl _,trivial⟩

theorem leaves_newFunction (h : m.Recorded log) {f : Function} (hf : f.closure < m.size) :
    Leaves log m (fun size x => x.Proper size) (Steps.newFunction f m) :=
  ⟨h.congr rfl rfl,Extent.le_refl _,hf⟩

theorem leaves_newObject (h : m.Recorded log) {c : Class} (hc : c.Proper m.extent) :
    Leaves log m (fun size x => x.Proper size) (Steps.newObject c m) := by
  have hle := m.extent_le_newObject
  refine ⟨h.newObject,hle,hc.mono hle,?_⟩
  show m.objects.size < (m.objects.push .empty).size
  rw [Array.size_push]
  exact Nat.lt_succ_self _

theorem leaves_newEnv (h : m.Recorded log) {enclosing : EnvId} {bindings : NameMap Value}
    (henclosing : enclosing < m.size)
    (hbindings : ∀ name x, bindings.get? name = some x → x.Proper m.extent) :
    Leaves log m (fun size id => id < size.envs) (Eval.newEnv enclosing bindings m) := by
  refine ⟨h.push henclosing hbindings,m.extent_le_push _,?_⟩
  show m.memory.store.size < (m.memory.store.push _).size
  rw [Store.size_push]
  exact Nat.lt_succ_self _

/-- The environment of a block. -/
theorem leaves_newEnv_empty (h : m.Recorded log) :
    Leaves log m (fun size id => id < size.envs) (Eval.newEnv m.memory.scope .empty m) :=
  leaves_newEnv h h.scope fun _ _ hget => by cases hget

/-- A method that is bound to an instance. -/
theorem leaves_bind (h : m.Recorded log) {method : Function} {object : Value}
    (hmethod : method.closure < m.size) (hobject : object.Proper m.extent) :
    Leaves log m (fun size f => f.closure < size.envs) (Eval.bind method object m) := by
  have hbindings : ∀ name x, (NameMap.ofList [(thisName,object)]).get? name = some x →
      x.Proper m.extent := fun name x hget => NameMap.of_get?_single hobject hget
  refine (leaves_newEnv h hmethod hbindings).next fun closure m' _ hm' _ hclosure => ?_
  exact .pure hm' hclosure

theorem leaves_write (h : m.Recorded log) {w : Write} (henv : w.env < m.size)
    (hvalue : ∀ x, w.value? = some x → x.Proper m.extent) :
    Leaves (log ++ [w]) m (fun _ _ => True) (Eval.store w.env w.name w.bound m) := by
  exact ⟨h.write henv hvalue,⟨Nat.le_of_eq Store.size_define.symm,Nat.le_refl _⟩,trivial⟩

/-- A variable of the current environment is given a value. -/
theorem leaves_define (h : m.Recorded log) {name : Bytes} {x : Value} (hx : x.Proper m.extent) :
    Leaves (log ++ [⟨m.memory.scope,name,some x⟩]) m (fun _ _ => True) (Eval.define name x m) :=
  leaves_write (w := ⟨m.memory.scope,name,some x⟩) h h.scope fun _ hy => Option.some.inj hy ▸ hx

theorem leaves_setField (h : m.Recorded log) {object : Nat} {name : Bytes} {x : Value}
    (hx : x.Proper m.extent) :
    Leaves log m (fun _ _ => True) (Steps.setField object name x m) :=
  ⟨h.setField hx,m.extent_setField object name x ▸ Extent.le_refl _,trivial⟩

/-! ### Reading -/

/-- What can be read is proper. -/
theorem Machine.Recorded.initialized (h : m.Recorded log) {id : EnvId} {name : Bytes} {x y : Value}
    (hbound : m.memory.store.bound? id name = some x) (hread : Store.initialized name x = .ok y) :
    y.Proper m.extent := by
  rcases h.bound hbound with hproper | ⟨rfl,-⟩
  · cases x <;> cases hread <;> exact hproper
  · cases hread

theorem leaves_readAt (h : m.Recorded log) {scope : EnvId} {distance : Nat} {name : Bytes}
    {token : Token} : Leaves log m (fun size x => x.Proper size)
      (Eval.readAt scope distance name token m) := by
  have hfound : Leaves log m (fun size (found : Except EvalError Value) =>
      ∀ y, found = .ok y → y.Proper size)
      (Steps.orLost (m.memory.store.readAt? scope distance name) m) := by
    refine leaves_orLost h fun found hread y hy => ?_
    obtain ⟨holder,-,rfl⟩ := Option.map_eq_some_iff.1 hread
    split at hy
    · next x hx => exact h.initialized hx hy
    · cases hy
  exact hfound.next fun found m' _ hm' _ hproper => leaves_orFault hm' hproper

theorem leaves_lookUp (h : m.Recorded log) {ctx : Context} {name : Token} :
    Leaves log m (fun size x => x.Proper size) (Eval.lookUp ctx name m) := by
  cases hentry : ctx.table[name.index]? with
  | some distance =>
    rw [Eval.lookUp_of_distance hentry]
    exact leaves_readAt h
  | none =>
    rw [Eval.lookUp_of_none hentry]
    refine leaves_orFault h fun y hy => ?_
    unfold Store.read at hy
    split at hy
    · next x hx =>
      obtain ⟨holder,-,hbound⟩ := Option.bind_eq_some_iff.1 hx
      exact h.initialized hbound hy
    · cases hy

theorem leaves_holder (h : m.Recorded log) {ctx : Context} {name : Token} :
    Leaves log m (fun size holder => holder < size.envs) (Eval.holder ctx name m) := by
  cases hentry : ctx.table[name.index]? with
  | some distance =>
    have hexists : ∀ holder, m.memory.store.ancestor? m.memory.scope distance = some holder →
        holder < m.size := fun holder hfound => h.ancestor? h.scope hfound
    rw [Eval.holder_of_distance hentry]
    exact leaves_orLost h hexists
  | none =>
    rw [Eval.holder_of_none hentry]
    cases hfound : m.memory.store.holder? globalScope name.lexeme with
    | some holder =>
      have hbound : (m.memory.store.bound? holder name.lexeme).isSome := by
        simpa using List.find?_some hfound
      obtain ⟨x,hx⟩ := Option.isSome_iff_exists.1 hbound
      obtain ⟨env,henv,-⟩ := Option.bind_eq_some_iff.1 hx
      exact .pure h (Store.lt_size_of_get? henv)
    | none => exact .error h

theorem leaves_methodFor (h : m.Recorded log) {c : Class} {name : Token} {object : Value}
    (hc : c.Proper m.extent) (hobject : object.Proper m.extent) :
    Leaves log m (fun size x => x.Proper size) (Eval.methodFor c name object m) := by
  unfold Eval.methodFor
  cases hmethod : c.findMethod? name.lexeme with
  | some method =>
    exact (leaves_bind h (hc.findMethod? hmethod) hobject).next fun f m' _ hm' _ hf =>
      leaves_newFunction hm' hf
  | none => exact .error h

theorem leaves_property (h : m.Recorded log) {object : Value} {name : Token}
    (hobject : object.Proper m.extent) :
    Leaves log m (fun size x => x.Proper size) (Eval.property object name m) := by
  cases object with
  | object c id =>
    have hfield : Leaves log m (fun size (found : Option Value) => ∀ x, found = some x → x.Proper size)
        (Steps.field? id name.lexeme m) := .pure h fun x hx => h.fields hx
    refine hfield.next fun found m' _ hm' hle hfound => ?_
    cases found with
    | some x => exact .pure hm' (hfound x rfl)
    | none => exact leaves_methodFor hm' (hobject.1.mono hle) (hobject.mono hle)
  | _ => exact .error h

theorem leaves_superMethod (h : m.Recorded log) {ctx : Context} {keyword method : Token} :
    Leaves log m (fun size x => x.Proper size) (Eval.superMethod ctx keyword method m) := by
  cases hentry : ctx.table[keyword.index]? with
  | none =>
    rw [Eval.superMethod_of_none method hentry]
    exact .error h
  | some distance =>
    rw [Eval.superMethod_of_distance method hentry]
    refine (leaves_readAt h).next fun parent m₁ _ hm₁ _ hparent => ?_
    refine (leaves_readAt hm₁).next fun object m₂ _ hm₂ hle hobject => ?_
    cases parent with
    | class_ c =>
      cases object with
      | object c' id => exact leaves_methodFor hm₂ (Class.Proper.mono hparent hle) hobject
      | _ => exact .error hm₂
    | _ => exact .error hm₂

theorem leaves_superclass? (h : m.Recorded log) {ctx : Context} {superclass : Option Token} :
    Leaves log m (fun size parent => ∀ c, parent = some c → c.Proper size)
      (Eval.superclass? ctx superclass m) := by
  cases superclass with
  | none => exact .pure h fun c hc => by cases hc
  | some token =>
    refine (leaves_lookUp h).next fun x m' _ hm' _ hx => ?_
    cases x with
    | class_ c => exact .pure hm' fun c' hc' => Option.some.inj hc' ▸ hx
    | _ => exact .error hm'

theorem leaves_methodScope (h : m.Recorded log) {scope : EnvId} (hscope : scope < m.size)
    {parent : Option Class} (hparent : ∀ c, parent = some c → c.Proper m.extent) :
    Leaves log m (fun size id => id < size.envs) (Eval.methodScope scope parent m) := by
  cases parent with
  | none => exact .pure h hscope
  | some c =>
    have hclass : (Value.class_ c : Value).Proper m.extent := hparent c rfl
    exact leaves_newEnv h hscope fun name x hget => NameMap.of_get?_single hclass hget

section

variable {ctx : Context} {name : Token} {superclass : Option Token} {methods : List FunctionDecl}
  {n : Nat}

/-- Until the class exists its name is bound to nil. -/
theorem leaves_createClass (h : m.Recorded log) :
    Leaves (log ++ onResult (Eval.superclass? ctx superclass m) fun _ m =>
        [⟨m.memory.scope,name.lexeme,some .nil⟩]) m (fun size c => c.Proper size)
      (Eval.createClass ctx name superclass methods m) := by
  refine (leaves_superclass? h).bind fun parent m₁ _ hm₁ _ hparent => ?_
  have hnil : (Value.nil : Value).Proper m₁.extent := trivial
  refine (leaves_define hm₁ hnil).next fun _ m₂ _ hm₂ hle₂ _ => .get ?_
  have hparent₂ : ∀ c, parent = some c → c.Proper m₂.extent := fun c hc => (hparent c hc).mono hle₂
  refine (leaves_methodScope hm₂ hm₂.scope hparent₂).next fun closure m₃ _ hm₃ hle₃ hclosure => ?_
  refine (leaves_newIdentity hm₃).next fun id m₄ _ hm₄ hle₄ _ => .pure hm₄ ?_
  exact Class.proper_extending (Nat.lt_of_lt_of_le hclosure hle₄.1)
    fun c hc => ((hparent₂ c hc).mono hle₃).mono hle₄

theorem leaves_declareClass (h : m.Recorded log) :
    Leaves (log ++ (Task.stmt (.classDecl name superclass methods)).ownWrites ctx n m) m
      (fun _ _ => True) (Eval.declareClass ctx name superclass methods m) := by
  rw [Eval.declareClass_eq,Task.ownWrites,← List.append_assoc]
  exact (leaves_createClass h).bind fun c m₁ _ hm₁ _ hc => leaves_define hm₁ hc

end

theorem leaves_callBuiltin (h : m.Recorded log) {vars : NameMap Bytes} {paren : Token} {b : Builtin}
    {args : List Value} : Leaves log m (fun size x => x.Proper size)
      (Steps.callBuiltin vars paren b args m) := by
  unfold Steps.callBuiltin
  split
  · exact ⟨h.congr rfl rfl,Extent.le_refl _,trivial⟩
  · exact .pure h trivial
  · exact .pure h trivial
  · next name =>
    cases vars.get? name with
    | some value => exact .pure h trivial
    | none => exact .pure h trivial
  · exact .error h
  · exact .error h

end

end Scriptlet
