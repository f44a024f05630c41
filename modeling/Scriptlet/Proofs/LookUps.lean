import Scriptlet.Evaluation
import Scriptlet.Proofs.Environments

/-! # Where names are looked up

Reading a name and giving it a value go to the same environment: the one at the distance of the name,
or that of the globals when it has none.
-/
namespace Scriptlet.Eval

variable {ctx : Context} {name : Token} {distance : Nat} {m m' : Machine} {found : EnvId}

theorem readAt_eq (scope : EnvId) (distance : Nat) (name : Bytes) (token : Token) :
    readAt scope distance name token m = (do
      let found ← Steps.orLost (m.memory.store.readAt? scope distance name)
      Steps.orFault token found : Eval Value) m := rfl

/-- What is read at a distance is what the environment there binds. -/
theorem readAt_of_ancestor {scope : EnvId} {key : Bytes} {x : Value} (token : Token)
    (hfound : m.memory.store.ancestor? scope distance = some found)
    (hbound : m.memory.store.bound? found key = some x) :
    readAt scope distance key token m = Steps.orFault token (Store.initialized key x) m := by
  have hread : m.memory.store.readAt? scope distance key = some (Store.initialized key x) := by
    simp [Store.readAt?,hfound,hbound]
  rw [readAt_eq,hread]
  rfl

theorem lookUp_of_distance (hentry : ctx.table[name.index]? = some distance) :
    lookUp ctx name m = readAt m.memory.scope distance name.lexeme name m := by
  simp only [lookUp,hentry]
  rfl

theorem lookUp_of_none (hentry : ctx.table[name.index]? = none) :
    lookUp ctx name m = Steps.orFault name (m.memory.store.read globalScope name.lexeme) m := by
  simp only [lookUp,hentry]
  rfl

theorem holder_of_distance (hentry : ctx.table[name.index]? = some distance) :
    holder ctx name m =
      (Steps.orLost (m.memory.store.ancestor? m.memory.scope distance) : Eval EnvId) m := by
  simp only [holder,hentry]
  rfl

theorem holder_of_none (hentry : ctx.table[name.index]? = none) :
    holder ctx name m = (match m.memory.store.holder? globalScope name.lexeme with
      | some found => (pure found : Eval EnvId)
      | none => Steps.fault (.undefinedVariable name.lexeme) name) m := by
  simp only [holder,hentry]
  rfl

theorem superMethod_of_distance {keyword : Token} (method : Token)
    (hentry : ctx.table[keyword.index]? = some distance) :
    superMethod ctx keyword method m = (do
      let parent ← readAt m.memory.scope distance superName keyword
      let object ← readAt m.memory.scope (distance - 1) thisName keyword
      match parent, object with
      | .class_ c, .object _ _ => methodFor c method object
      | .class_ _, _ => Steps.fault .noProperties keyword
      | _, _ => Steps.fault .superclassNotClass keyword) m := by
  simp only [superMethod,hentry]
  rfl

theorem superMethod_of_none {keyword : Token} (method : Token)
    (hentry : ctx.table[keyword.index]? = none) :
    superMethod ctx keyword method m = .error (.fault (.unresolvedVariable superName) keyword) m := by
  simp only [superMethod,hentry]
  rfl

theorem holder_of_ancestor (hentry : ctx.table[name.index]? = some distance)
    (hfound : m.memory.store.ancestor? m.memory.scope distance = some found) :
    holder ctx name m = .ok found m := by
  rw [holder_of_distance hentry,hfound]
  rfl

/-- Where a name has no distance, it is looked for among the globals only. -/
theorem holder_of_global {bindings : NameMap Value} (hentry : ctx.table[name.index]? = none)
    (hroot : m.memory.store.get? globalScope = some ⟨none,bindings⟩) :
    holder ctx name m =
      if (m.memory.store.bound? globalScope name.lexeme).isSome then .ok globalScope m
      else .error (.fault (.undefinedVariable name.lexeme) name) m := by
  rw [holder_of_none hentry,Store.holder?_of_enclosing_none hroot rfl]
  split <;> rfl

/-- Reading a name gives what it is bound to where it is found, if that is a value. -/
theorem lookUp_of_holder {x : Value} (hholder : holder ctx name m = .ok found m')
    (hbound : m.memory.store.bound? found name.lexeme = some x) :
    lookUp ctx name m = Steps.orFault name (Store.initialized name.lexeme x) m := by
  cases hentry : ctx.table[name.index]? with
  | some distance =>
    rw [holder_of_distance hentry] at hholder
    cases hancestor : m.memory.store.ancestor? m.memory.scope distance with
    | none =>
      rw [hancestor] at hholder
      cases hholder
    | some other =>
      rw [hancestor] at hholder
      cases hholder
      rw [lookUp_of_distance hentry,readAt_of_ancestor name hancestor hbound]
  | none =>
    rw [holder_of_none hentry] at hholder
    cases hsearch : m.memory.store.holder? globalScope name.lexeme with
    | none =>
      rw [hsearch] at hholder
      cases hholder
    | some other =>
      rw [hsearch] at hholder
      cases hholder
      rw [lookUp_of_none hentry,Store.read,hsearch,Option.bind_some,hbound]

end Scriptlet.Eval
