import Scriptlet.Store

/-! # Environments only grow

Adding an environment and binding a name keep what the store had: every environment stays enclosed
by the same one, and a name that was bound stays bound. So an environment that was found once at a
distance is found there ever after.
-/
namespace Scriptlet

theorem NameMap.isSome_get?_insert {α : Type} {m : NameMap α} {name key : Bytes} {value : α}
    (h : (m.get? key).isSome) : ((m.insert name value).get? key).isSome := by
  rw [NameMap.get?_insert]
  split
  · rfl
  · exact h

namespace Store

variable {s s' : Store} {id other : EnvId} {name key : Bytes} {value : Value} {env : Env}

@[simp] theorem size_push : (s.push env).size = s.size + 1 := by simp [push,size]

@[simp] theorem size_define : (s.define id name value).size = s.size := by simp [define,size]

theorem get?_push :
    (s.push env).get? id = if id = s.size then some env else s.get? id := by
  simp only [push,get?,Array.getElem?_push]
  rfl

@[simp] theorem get?_push_self : (s.push env).get? s.size = some env := by simp [get?_push]

theorem get?_push_of_lt (h : id < s.size) : (s.push env).get? id = s.get? id := by
  rw [get?_push,if_neg (Nat.ne_of_lt h)]

theorem lt_size_of_get? (h : s.get? id = some env) : id < s.size := by
  simp only [get?,Array.getElem?_eq_some_iff] at h
  exact h.1

theorem get?_define :
    (s.define id name value).get? other = (s.get? other).map fun env =>
      if id = other then { env with bindings := env.bindings.insert name value } else env := by
  simp only [define,get?,Array.getElem?_modify]
  split <;> simp

/-- An environment that binds nothing adds no binding. -/
@[simp] theorem bound?_push_empty {enclosing : Option EnvId} :
    (s.push ⟨enclosing,.empty⟩).bound? id name = s.bound? id name := by
  rw [bound?,get?_push,bound?]
  split
  · next hid =>
    have hnone : s.get? id = none := Array.getElem?_eq_none (Nat.le_of_eq hid.symm)
    rw [hnone]
    rfl
  · rfl

/-- Binding a name changes what that name is bound to in that environment, and nothing else. -/
theorem bound?_define (h : id < s.size) :
    (s.define id name value).bound? other key =
      if id = other ∧ key = name then some value else s.bound? other key := by
  have hget : s.get? id = some s.envs[id] := Array.getElem?_eq_getElem h
  rw [bound?,get?_define,bound?]
  by_cases hid : id = other
  · subst hid
    rw [hget]
    by_cases hkey : key = name <;> simp [NameMap.get?_insert,hkey]
  · simp [hid]

/-- After a name is bound, names are bound to what they were bound to or to the new value. -/
theorem of_bound?_define {x : Value} (h : (s.define id name value).bound? other key = some x) :
    x = value ∨ s.bound? other key = some x := by
  rw [bound?,get?_define] at h
  obtain ⟨env,henv,hget⟩ := Option.bind_eq_some_iff.1 h
  obtain ⟨old,hold,rfl⟩ := Option.map_eq_some_iff.1 henv
  split at hget
  · rw [NameMap.get?_insert] at hget
    split at hget
    · exact .inl (Option.some.inj hget).symm
    · exact .inr (Option.bind_eq_some_iff.2 ⟨old,hold,hget⟩)
  · exact .inr (Option.bind_eq_some_iff.2 ⟨old,hold,hget⟩)

theorem push_insert {bindings : NameMap Value} {enclosing : Option EnvId} :
    s.push ⟨enclosing,bindings.insert name value⟩ =
      (s.push ⟨enclosing,bindings⟩).define s.size name value := by
  have hsame : ∀ i, (s.push ⟨enclosing,bindings.insert name value⟩).get? i =
      ((s.push ⟨enclosing,bindings⟩).define s.size name value).get? i := by
    intro i
    rw [get?_define,get?_push,get?_push]
    by_cases hi : i = s.size
    · simp [hi]
    · simp [hi,Ne.symm hi]
  exact congrArg Store.mk (Array.ext_getElem? hsame)

/-- A new environment is one link away from the one that encloses it. -/
theorem ancestor?_push_succ {bindings : NameMap Value} {distance : Nat} :
    (s.push ⟨some id,bindings⟩).ancestor? s.size (distance + 1) =
      (s.push ⟨some id,bindings⟩).ancestor? id distance := by
  rw [ancestor?]
  simp

/-- One link more leads to the environment around the one that was found. -/
theorem ancestor?_succ {distance : Nat} {found outer : EnvId}
    (hfound : s.ancestor? id distance = some found) (hget : s.get? found = some env)
    (houter : env.enclosing = some outer) : s.ancestor? id (distance + 1) = some outer := by
  induction distance generalizing id with
  | zero =>
    obtain rfl : id = found := Option.some.inj hfound
    simp [ancestor?,hget,houter]
  | succ distance ih =>
    rw [ancestor?] at hfound ⊢
    split at hfound
    · cases hfound
    · split at hfound
      · cases hfound
      · exact ih hfound

/-- In an environment that nothing encloses, a search finds only what it binds itself. -/
theorem holder?_of_enclosing_none (hget : s.get? id = some env) (hnone : env.enclosing = none) :
    s.holder? id name = if (s.bound? id name).isSome then some id else none := by
  obtain ⟨limit,hlimit⟩ := Nat.exists_eq_add_one.2 (Nat.zero_lt_of_lt (lt_size_of_get? hget))
  rw [holder?,chain,hlimit,chainUpTo,hget]
  simp only [hnone,List.find?_cons,List.find?_nil]
  split <;> simp_all

theorem read_of_enclosing_none (hget : s.get? id = some env) (hnone : env.enclosing = none) :
    s.read id name = match s.bound? id name with
      | some value => initialized name value
      | none => .error (.undefinedVariable name) := by
  rw [read,holder?_of_enclosing_none hget hnone]
  cases hbound : s.bound? id name <;> simp [hbound]

/-- Everything that was in a store is still there. -/
def Extends (s s' : Store) : Prop :=
  ∀ id env, s.get? id = some env → ∃ env', s'.get? id = some env' ∧
    env'.enclosing = env.enclosing ∧
    ∀ name, (env.bindings.get? name).isSome → (env'.bindings.get? name).isSome

namespace Extends

theorem refl (s : Store) : s.Extends s := fun _ env h => ⟨env,h,rfl,fun _ hname => hname⟩

theorem trans {s'' : Store} (h : s.Extends s') (h' : s'.Extends s'') : s.Extends s'' := by
  intro id env hget
  obtain ⟨env',hget',henclosing,hbound⟩ := h id env hget
  obtain ⟨env'',hget'',henclosing',hbound'⟩ := h' id env' hget'
  exact ⟨env'',hget'',henclosing'.trans henclosing,fun name hname => hbound' name (hbound name hname)⟩

theorem push (s : Store) (env : Env) : s.Extends (s.push env) := by
  intro id env' hget
  exact ⟨env',by rw [get?_push_of_lt (lt_size_of_get? hget),hget],rfl,fun _ hname => hname⟩

theorem define (s : Store) (id : EnvId) (name : Bytes) (value : Value) :
    s.Extends (s.define id name value) := by
  intro other env hget
  rw [get?_define,hget]
  refine ⟨_,rfl,?_,fun key hkey => ?_⟩
  · split <;> rfl
  · split
    · exact NameMap.isSome_get?_insert hkey
    · exact hkey

theorem size_le (h : s.Extends s') : s.size ≤ s'.size := by
  refine Nat.le_of_not_lt fun hlt => ?_
  have hget : s.get? s'.size = some s.envs[s'.size] := Array.getElem?_eq_getElem hlt
  obtain ⟨env',hget',-⟩ := h _ _ hget
  exact Nat.lt_irrefl _ (lt_size_of_get? hget')

/-- An environment that is found at a distance is found there ever after. -/
theorem ancestor? (h : s.Extends s') {distance : Nat} {holder : EnvId}
    (hfound : s.ancestor? id distance = some holder) :
    s'.ancestor? id distance = some holder := by
  induction distance generalizing id with
  | zero => exact hfound
  | succ distance ih =>
    rw [Store.ancestor?] at hfound ⊢
    cases hget : s.get? id with
    | none => simp [hget] at hfound
    | some env =>
      obtain ⟨env',hget',henclosing,-⟩ := h id env hget
      rw [hget] at hfound
      cases houter : env.enclosing with
      | none => simp [houter] at hfound
      | some outer =>
        simp only [houter] at hfound
        simp only [hget',henclosing,houter]
        exact ih hfound

theorem bound? (h : s.Extends s') (hbound : (s.bound? id name).isSome) :
    (s'.bound? id name).isSome := by
  unfold Store.bound? at hbound ⊢
  cases hget : s.get? id with
  | none => simp [hget] at hbound
  | some env =>
    obtain ⟨env',hget',-,hnames⟩ := h id env hget
    rw [hget] at hbound
    rw [hget']
    exact hnames name hbound

end Extends

end Store

end Scriptlet
