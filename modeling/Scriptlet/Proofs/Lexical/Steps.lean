import Scriptlet.Proofs.Lexical.World

/-! # Matching steps

The states of the two machines are linked if a world shows for each cell the binding it stands for.
A run on the one machine simulates a run on the other if both give results that a program can not
tell apart, or fail in the same way, and leave linked states. Each step that touches names has a
matching step on the other side; all others work on parts that the machines share.
-/
namespace Scriptlet.Lexical

/-- Under the names `this` and `super` only instances and classes are kept. -/
def Keeps (name : Bytes) (value : Value) : Prop :=
  (name = thisName → ∃ c id, value = .object c id) ∧ (name = superName → ∃ c, value = .class_ c)

theorem keeps_of_isPlain {name : Bytes} (h : IsPlain name) (value : Value) : Keeps name value :=
  ⟨fun hthis => absurd hthis h.1,fun hsuper => absurd hsuper h.2⟩

/-- A cell against the binding it stands for. A name that is not bound yet has an empty cell. -/
def SameCell (p : Places) (w : World) (name : Bytes) : Option Value → Value Names → Prop
  | none, value' => value' = .uninitialized
  | some value, value' => SameValue p w value value' ∧ Keeps name value

/-- The states of the two machines, of which the first is in the environment `scope`. -/
structure Linked (p : Places) (w : World) (scope : EnvId) (m : Scriptlet.Machine) (l : Machine) :
    Prop where
  current : m.memory.scope = scope
  store : m.memory.store = w.store
  root : ∃ bindings, w.store.get? globalScope = some ⟨none,bindings⟩
  globals : ∀ name, Option.Rel (SameValue p w) (w.store.bound? globalScope name)
    (l.memory.globals.get? name)
  distinct : w.owners.Nodup
  nested : ∀ o ∈ w.owners, o.1 ≠ globalScope ∧ o.1 < w.store.size
  owned : ∀ id name, id ≠ globalScope → (w.store.bound? id name).isSome → (id,name) ∈ w.owners
  size : l.memory.cells.size = w.owners.length
  cells : ∀ (cell : Nat) holder name, w.owners[cell]? = some (holder,name) → ∃ value,
    l.memory.cells[cell]? = some value ∧ SameCell p w name (w.store.bound? holder name) value
  objects : l.objects.size = m.objects.size
  fields : ∀ (id : Nat) name, Option.Rel (SameValue p w) (m.objects[id]?.bind (·.get? name))
    (l.objects[id]?.bind (·.get? name))
  fresh : l.fresh = m.fresh
  clock : l.clock = m.clock
  printed : l.printed = m.printed

/-- Failures that a resolved program can have. -/
def Ordinary : Abort → Prop
  | .lost => False
  | .fault (.unresolvedVariable _) _ => False
  | .fault (.uninitializedVariable name) _ => name ≠ superName
  | _ => True

section

variable {α β γ δ : Type} {p : Places} {w w' : World} {current : Option EnvId} {scope id : EnvId}
  {m : Scriptlet.Machine} {l : Machine}

/-- Two runs from linked states end alike. -/
def Simulates (p : Places) (w : World) (current : Option EnvId) (scope : EnvId)
    (Q : World → α → β → Prop) :
    EStateM.Result Abort Scriptlet.Machine α → EStateM.Result Abort Machine β → Prop
  | .ok a m, .ok b l => ∃ w', w.Grows current w' ∧ Linked p w' scope m l ∧ Q w' a b
  | .error e m, .error e' l =>
    e' = e ∧ Ordinary e ∧ ∃ w', w.Grows current w' ∧ Linked p w' scope m l
  | _, _ => False

namespace Simulates

variable {Q : World → α → β → Prop} {R : World → γ → δ → Prop}
  {r : EStateM.Result Abort Scriptlet.Machine α}
  {r' : EStateM.Result Abort Machine β}

theorem pure {a : α} {b : β} (h : Linked p w scope m l) (hq : Q w a b) :
    Simulates p w current scope Q ((Pure.pure a : Scriptlet.Eval α) m)
      ((Pure.pure b : Eval β) l) :=
  ⟨w,.refl w,h,hq⟩

theorem throw {e : Abort} (h : Linked p w scope m l) (he : Ordinary e) :
    Simulates p w current scope Q ((throw e : Scriptlet.Eval α) m) ((throw e : Eval β) l) :=
  ⟨rfl,he,w,.refl w,h⟩

theorem grow (hw : w.Grows current w') (h : Simulates p w' current scope Q r r') :
    Simulates p w current scope Q r r' := by
  cases r <;> cases r'
  · obtain ⟨w'',hgrow,hrest⟩ := h
    exact ⟨w'',hw.trans hgrow,hrest⟩
  · exact h
  · exact h
  · obtain ⟨heq,hordinary,w'',hgrow,hrest⟩ := h
    exact ⟨heq,hordinary,w'',hw.trans hgrow,hrest⟩

theorem weaken (h : Simulates p w none scope Q r r') : Simulates p w current scope Q r r' := by
  cases r <;> cases r'
  · obtain ⟨w',hgrow,hrest⟩ := h
    exact ⟨w',hgrow.weaken,hrest⟩
  · exact h
  · exact h
  · obtain ⟨heq,hordinary,w',hgrow,hrest⟩ := h
    exact ⟨heq,hordinary,w',hgrow.weaken,hrest⟩

theorem bind {x : Scriptlet.Eval α} {y : Eval β} {f : α → Scriptlet.Eval γ} {g : β → Eval δ}
    (h : Simulates p w current scope Q (x m) (y l))
    (hnext : ∀ w' a b m' l', w.Grows current w' → Linked p w' scope m' l' →
      Q w' a b → Simulates p w' current scope R (f a m') (g b l')) :
    Simulates p w current scope R ((x >>= f) m) ((y >>= g) l) := by
  simp only [Bind.bind,EStateM.bind]
  generalize x m = r, y l = r' at h ⊢
  cases r with
  | ok a m' =>
    cases r' with
    | ok b l' =>
      obtain ⟨w',hgrow,hlinked,hq⟩ := h
      exact (hnext w' a b m' l' hgrow hlinked hq).grow hgrow
    | error e l' => exact h.elim
  | error e m' =>
    cases r' with
    | ok b l' => exact h.elim
    | error e' l' => exact h

/-- Steps that declare nothing in the current environment come first. -/
theorem andThen {x : Scriptlet.Eval α} {y : Eval β} {f : α → Scriptlet.Eval γ} {g : β → Eval δ}
    (h : Simulates p w none scope Q (x m) (y l))
    (hnext : ∀ w' a b m' l', w.Grows none w' → Linked p w' scope m' l' →
      Q w' a b → Simulates p w' current scope R (f a m') (g b l')) :
    Simulates p w current scope R ((x >>= f) m) ((y >>= g) l) := by
  simp only [Bind.bind,EStateM.bind]
  generalize x m = r, y l = r' at h ⊢
  cases r with
  | ok a m' =>
    cases r' with
    | ok b l' =>
      obtain ⟨w',hgrow,hlinked,hq⟩ := h
      exact (hnext w' a b m' l' hgrow hlinked hq).grow hgrow.weaken
    | error e l' => exact h.elim
  | error e m' =>
    cases r' with
    | ok b l' => exact h.elim
    | error e' l' =>
      obtain ⟨heq,hordinary,w',hgrow,hlinked⟩ := h
      exact ⟨heq,hordinary,w',hgrow.weaken,hlinked⟩

/-- A step of the second machine alone. -/
theorem bind_right {x : Scriptlet.Eval γ} {y : Eval β} {g : β → Eval δ} {b : β} {l' : Machine}
    (hy : y l = .ok b l') (h : Simulates p w current scope R (x m) (g b l')) :
    Simulates p w current scope R (x m) ((y >>= g) l) := by
  simpa only [Bind.bind,EStateM.bind,hy] using h

/-- The first machine looks at its state. -/
theorem bind_get {f : Scriptlet.Machine → Scriptlet.Eval γ} {r' : EStateM.Result Abort Machine δ}
    (h : Simulates p w current scope R (f m m) r') :
    Simulates p w current scope R ((get >>= f) m) r' := h

/-- The second machine gives a result of its own. -/
theorem map_right {x : Scriptlet.Eval α} {y : Eval β} {g : β → δ} {Q' : World → α → δ → Prop}
    (h : Simulates p w current scope Q (x m) (y l)) (hq : ∀ w' a b, Q w' a b → Q' w' a (g b)) :
    Simulates p w current scope Q' (x m) ((y >>= fun b => Pure.pure (g b)) l) := by
  have hbind : (x >>= Pure.pure) m = x m := by rw [bind_pure]
  rw [← hbind]
  exact h.bind fun w' a b m' l' _ hlinked hab => .pure hlinked (hq w' a b hab)

theorem mono {Q' : World → α → β → Prop} (h : Simulates p w current scope Q r r')
    (hq : ∀ w' a b, w.Grows current w' → Q w' a b → Q' w' a b) :
    Simulates p w current scope Q' r r' := by
  cases r <;> cases r'
  · obtain ⟨w',hgrow,hlinked,h⟩ := h
    exact ⟨w',hgrow,hlinked,hq w' _ _ hgrow h⟩
  · exact h
  · exact h
  · exact h

/-- Steps in a new environment, after which the machine goes back to the old one. -/
theorem inScope {x : Scriptlet.Eval α} {y : Eval β} (hw : w.Grows none w')
    (hid : w.store.size ≤ id) (hscope : m.memory.scope = scope)
    (h : Simulates p w' (some id) id Q (x { m with memory.scope := id }) (y l)) :
    Simulates p w none scope Q (Scriptlet.Eval.inScope id x m) (y l) := by
  unfold Scriptlet.Eval.inScope
  generalize x { m with memory.scope := id } = r, y l = r' at h ⊢
  cases r with
  | ok a m' =>
    cases r' with
    | ok b l' =>
      obtain ⟨w'',hgrow,hlinked,hq⟩ := h
      exact ⟨w'',hw.fresh hid hgrow,{ hlinked with current := hscope },hq⟩
    | error e l' => exact h
  | error e m' =>
    cases r' with
    | ok b l' => exact h
    | error e' l' =>
      obtain ⟨heq,hordinary,w'',hgrow,hlinked⟩ := h
      exact ⟨heq,hordinary,w'',hw.fresh hid hgrow,{ hlinked with current := hscope }⟩

end Simulates

/-! ## Steps on names -/

theorem SameCell.grow {name : Bytes} {bound : Option Value} {value : Value Names}
    (h : SameCell p w name bound value) (hw : w.Grows current w') :
    SameCell p w' name bound value := by
  cases bound with
  | none => exact h
  | some v => exact ⟨h.1.grow hw,h.2⟩

theorem rel_grow {v : Option Value} {v' : Option (Value Names)}
    (h : Option.Rel (SameValue p w) v v') (hw : w.Grows current w') :
    Option.Rel (SameValue p w') v v' :=
  rel_mono (fun _ _ hsame => hsame.grow hw) h

/-- A new environment that binds nothing. -/
theorem Linked.push (h : Linked p w scope m l) (id : EnvId) :
    w.Grows none ⟨w.store.push ⟨some id,.empty⟩,w.owners⟩ ∧
      Linked p ⟨w.store.push ⟨some id,.empty⟩,w.owners⟩ scope
        { m with memory.store := m.memory.store.push ⟨some id,.empty⟩ } l := by
  have hgrow : w.Grows none ⟨w.store.push ⟨some id,.empty⟩,w.owners⟩ :=
    ⟨.push _ _,List.prefix_refl _,fun _ ho => .inl ho⟩
  obtain ⟨bindings,hroot⟩ := h.root
  refine ⟨hgrow,?_⟩
  exact {
    current := h.current
    store := by rw [h.store]
    root := ⟨bindings,by rw [Store.get?_push_of_lt (Store.lt_size_of_get? hroot),hroot]⟩
    globals := fun name => by
      rw [Store.bound?_push_empty]
      exact rel_grow (h.globals name) hgrow
    distinct := h.distinct
    nested := fun o ho => ⟨(h.nested o ho).1,by
      rw [Store.size_push]
      exact Nat.lt_succ_of_lt (h.nested o ho).2⟩
    owned := fun other name hother hbound =>
      h.owned other name hother (by simpa using hbound)
    size := h.size
    cells := fun cell holder name howner => by
      obtain ⟨value,hvalue,hsame⟩ := h.cells cell holder name howner
      exact ⟨value,hvalue,by rw [Store.bound?_push_empty]; exact hsame.grow hgrow⟩
    objects := h.objects
    fields := fun id name => rel_grow (h.fields id name) hgrow
    fresh := h.fresh
    clock := h.clock
    printed := h.printed }

/-- More is resolved. -/
theorem Linked.later {p' : Places} (h : Linked p w scope m l) (hp : p.Later p') :
    Linked p' w scope m l :=
  have hsame {v v'} : SameValue p w v v' → SameValue p' w v v' := fun hv => hv.persist hp.persists
  { h with
    globals := fun name => rel_mono (fun _ _ => hsame) (h.globals name)
    cells := fun cell holder name howner => by
      obtain ⟨value,hvalue,hcell⟩ := h.cells cell holder name howner
      refine ⟨value,hvalue,?_⟩
      generalize w.store.bound? holder name = bound at hcell
      cases bound with
      | none => exact hcell
      | some v => exact ⟨hsame hcell.1,hcell.2⟩
    fields := fun id name => rel_mono (fun _ _ => hsame) (h.fields id name) }

theorem Linked.clear (h : Linked p w scope m l) :
    Linked p w scope { m with printed := [] } { l with printed := [] } :=
  { h with printed := rfl }

theorem Linked.enter (h : Linked p w scope m l) (id : EnvId) :
    Linked p w id { m with memory.scope := id } l :=
  { h with current := rfl }

/-- A cell for a name that the environment does not own yet. -/
theorem Linked.allocate (h : Linked p w scope m l) {id : EnvId} {name : Bytes} (hid : id ≠ globalScope)
    (hsize : id < w.store.size) (hnew : (id,name) ∉ w.owners) :
    w.Grows (some id) ⟨w.store,w.owners ++ [(id,name)]⟩ ∧
      Linked p ⟨w.store,w.owners ++ [(id,name)]⟩ scope m
        { l with memory.cells := l.memory.cells.push .uninitialized } := by
  have hgrow : w.Grows (some id) ⟨w.store,w.owners ++ [(id,name)]⟩ := by
    refine ⟨.refl _,List.prefix_append _ _,fun o ho => ?_⟩
    rcases List.mem_append.1 ho with ho | ho
    · exact .inl ho
    · exact .inr (.inr (by rw [List.mem_singleton.1 ho]))
  refine ⟨hgrow,?_⟩
  exact {
    current := h.current
    store := h.store
    root := h.root
    globals := fun name => rel_grow (h.globals name) hgrow
    distinct := by
      rw [List.nodup_append]
      refine ⟨h.distinct,by simp,fun a ha b hb => ?_⟩
      rintro rfl
      exact hnew (List.mem_singleton.1 hb ▸ ha)
    nested := fun o ho => by
      rcases List.mem_append.1 ho with ho | ho
      · exact h.nested o ho
      · rw [List.mem_singleton.1 ho]
        exact ⟨hid,hsize⟩
    owned := fun other name hother hbound =>
      List.mem_append_left _ (h.owned other name hother hbound)
    size := by simp [h.size]
    cells := fun cell holder other howner => by
      rw [List.getElem?_append] at howner
      split at howner
      · next hlt =>
        obtain ⟨value,hvalue,hsame⟩ := h.cells cell holder other howner
        refine ⟨value,?_,hsame.grow hgrow⟩
        rw [Array.getElem?_push_lt (h.size ▸ hlt),← hvalue,Array.getElem?_eq_getElem (h.size ▸ hlt)]
      · next hge =>
        have hcell : cell = w.owners.length := by
          have := (List.getElem?_eq_some_iff.1 howner).1
          simp only [List.length_singleton] at this
          omega
        obtain ⟨rfl,rfl⟩ : id = holder ∧ name = other := by simpa [hcell] using howner
        refine ⟨.uninitialized,by rw [hcell,← h.size,Array.getElem?_push_size],?_⟩
        cases hbound : w.store.bound? id name with
        | none => rfl
        | some v => exact absurd (h.owned id name hid (by simp [hbound])) hnew
    objects := h.objects
    fields := fun id name => rel_grow (h.fields id name) hgrow
    fresh := h.fresh
    clock := h.clock
    printed := h.printed }

/-- A value for a name that has a cell. The value may refer to the name itself. -/
theorem Linked.write (h : Linked p w scope m l) {cell : Cell} {holder : EnvId} {name : Bytes}
    {value : Value} {value' : Value Names} (howner : w.owners[cell]? = some (holder,name))
    (hsame : SameValue p ⟨w.store.define holder name value,w.owners⟩ value value')
    (hkeeps : Keeps name value) :
    Linked p ⟨w.store.define holder name value,w.owners⟩ scope
      { m with memory.store := m.memory.store.define holder name value }
      { l with memory.cells := l.memory.cells.setIfInBounds cell value' } := by
  have hgrow : w.Grows none _ := .define w holder name value
  obtain ⟨hnested,hholder⟩ := h.nested _ (List.mem_of_getElem? howner)
  obtain ⟨bindings,hroot⟩ := h.root
  exact {
    current := h.current
    store := by rw [h.store]
    root := ⟨bindings,by simp [Store.get?_define,hroot,hnested]⟩
    globals := fun key => by
      rw [Store.bound?_define hholder,if_neg (fun hand => hnested hand.1)]
      exact rel_grow (h.globals key) hgrow
    distinct := h.distinct
    nested := fun o ho => by
      rw [Store.size_define]
      exact h.nested o ho
    owned := fun other key hother hbound => by
      rw [Store.bound?_define hholder] at hbound
      split at hbound
      · next heq =>
        obtain ⟨rfl,rfl⟩ := heq
        exact List.mem_of_getElem? howner
      · exact h.owned other key hother hbound
    size := by simpa using h.size
    cells := fun other holder' name' howner' => by
      obtain ⟨old,hold,hcell⟩ := h.cells other holder' name' howner'
      rw [Store.bound?_define hholder,Array.getElem?_setIfInBounds]
      by_cases hother : cell = other
      · subst hother
        obtain ⟨rfl,rfl⟩ : holder = holder' ∧ name = name' := by simpa [howner] using howner'
        have hlt : cell < l.memory.cells.size := (Array.getElem?_eq_some_iff.1 hold).1
        exact ⟨value',by simp [hlt],by simpa using ⟨hsame,hkeeps⟩⟩
      · have hdiffer : ¬ (holder = holder' ∧ name' = name) := by
          rintro ⟨rfl,rfl⟩
          have hlt := (List.getElem?_eq_some_iff.1 howner).1
          exact hother ((List.getElem?_inj hlt h.distinct).1 (howner.trans howner'.symm))
        exact ⟨old,by simpa [hother] using hold,by
          rw [if_neg hdiffer]
          exact hcell.grow hgrow⟩
    objects := h.objects
    fields := fun id name => rel_grow (h.fields id name) hgrow
    fresh := h.fresh
    clock := h.clock
    printed := h.printed }

/-- A name and its value in an environment that does not own the name yet. -/
theorem Linked.extend (h : Linked p w scope m l) {id : EnvId} {name : Bytes} {value : Value}
    {value' : Value Names} (hid : id ≠ globalScope) (hsize : id < w.store.size)
    (hnew : (id,name) ∉ w.owners) (hsame : SameValue p w value value') (hkeeps : Keeps name value) :
    w.Grows (some id) ⟨w.store.define id name value,w.owners ++ [(id,name)]⟩ ∧
      Linked p ⟨w.store.define id name value,w.owners ++ [(id,name)]⟩ scope
        { m with memory.store := m.memory.store.define id name value }
        { l with memory.cells := l.memory.cells.push value' } := by
  obtain ⟨hgrow,hlinked⟩ := h.allocate hid hsize hnew
  have howner : (w.owners ++ [(id,name)])[l.memory.cells.size]? = some (id,name) := by
    simp [h.size]
  have hgrow' := hgrow.trans (.define ⟨w.store,w.owners ++ [(id,name)]⟩ id name value)
  have hlinked' := hlinked.write howner (hsame.grow hgrow') hkeeps
  refine ⟨hgrow',?_⟩
  have hcells : (l.memory.cells.push .uninitialized).setIfInBounds l.memory.cells.size value' =
      l.memory.cells.push value' := by
    simp [Array.setIfInBounds,Array.set_push]
  simpa [hcells] using hlinked'

/-- A value for a global. -/
theorem Linked.writeGlobal (h : Linked p w scope m l) (name : Bytes) {value : Value}
    {value' : Value Names} (hsame : SameValue p w value value') :
    Linked p ⟨w.store.define globalScope name value,w.owners⟩ scope
      { m with memory.store := m.memory.store.define globalScope name value }
      { l with memory.globals := l.memory.globals.insert name value' } := by
  have hgrow : w.Grows none _ := .define w globalScope name value
  obtain ⟨bindings,hroot⟩ := h.root
  have hlt := Store.lt_size_of_get? hroot
  exact {
    current := h.current
    store := by rw [h.store]
    root := ⟨bindings.insert name value,by simp [Store.get?_define,hroot]⟩
    globals := fun key => by
      rw [Store.bound?_define hlt,NameMap.get?_insert]
      by_cases hkey : key = name
      · simpa [hkey] using hsame.grow hgrow
      · simpa [hkey] using rel_grow (h.globals key) hgrow
    distinct := h.distinct
    nested := fun o ho => by
      rw [Store.size_define]
      exact h.nested o ho
    owned := fun other key hother hbound => by
      rw [Store.bound?_define hlt,if_neg (fun hand => hother hand.1.symm)] at hbound
      exact h.owned other key hother hbound
    size := h.size
    cells := fun cell holder other howner => by
      obtain ⟨old,hold,hcell⟩ := h.cells cell holder other howner
      have hholder := (h.nested _ (List.mem_of_getElem? howner)).1
      refine ⟨old,hold,?_⟩
      rw [Store.bound?_define hlt,if_neg (fun hand => hholder hand.1.symm)]
      exact hcell.grow hgrow
    objects := h.objects
    fields := fun id name => rel_grow (h.fields id name) hgrow
    fresh := h.fresh
    clock := h.clock
    printed := h.printed }

/-! ## Steps that the machines share -/

open Steps

theorem simulates_print (h : Linked p w scope m l) (line : Bytes) :
    Simulates p w current scope (fun _ _ _ => True) (print line m) (print line l) :=
  ⟨w,.refl w,{ h with printed := congrArg (line :: ·) h.printed },trivial⟩

theorem simulates_newIdentity (h : Linked p w scope m l) :
    Simulates p w current scope (fun _ i j => j = i) (newIdentity m) (newIdentity l) :=
  ⟨w,.refl w,{ h with fresh := congrArg (· + 1) h.fresh },h.fresh⟩

/-- Functions get the same identity, also if they can not be called yet. -/
theorem simulates_newFunction (h : Linked p w scope m l) (f : Function) (g : Function Names) :
    Simulates p w current scope (fun _ v v' => ∃ id, v = .function id f ∧ v' = .function id g)
      (newFunction f m) (newFunction g l) := by
  refine ⟨w,.refl w,{ h with fresh := congrArg (· + 1) h.fresh },m.fresh,rfl,?_⟩
  rw [h.fresh]

theorem simulates_newObject (h : Linked p w scope m l) {c : Class} {c' : Class Names}
    (hc : SameClass p w c c') :
    Simulates p w current scope (fun w' v v' => SameValue p w' v v' ∧ ∃ id, v = .object c id)
      (newObject c m) (newObject c' l) := by
  refine ⟨w,.refl w,?_,?_,m.objects.size,rfl⟩
  · exact { h with
      objects := by simp [h.objects]
      fields := fun id name => by
        rw [Array.getElem?_push,Array.getElem?_push,h.objects]
        split
        · exact .none
        · exact h.fields id name }
  · rw [h.objects]
    exact .object m.objects.size hc

theorem simulates_field? (h : Linked p w scope m l) (object : Nat) (name : Bytes) :
    Simulates p w current scope (fun w' => Option.Rel (SameValue p w'))
      (field? object name m) (field? object name l) :=
  ⟨w,.refl w,h,h.fields object name⟩

theorem simulates_setField (h : Linked p w scope m l) (object : Nat) (name : Bytes) {v : Value}
    {v' : Value Names} (hv : SameValue p w v v') :
    Simulates p w current scope (fun _ _ _ => True) (setField object name v m)
      (setField object name v' l) := by
  refine ⟨w,.refl w,?_,trivial⟩
  exact { h with
    objects := by simp [h.objects]
    fields := fun id key => by
      rw [Array.getElem?_modify,Array.getElem?_modify]
      have hfield := h.fields id
      split
      · by_cases hid : id < m.objects.size
        · rw [Array.getElem?_eq_getElem hid,Array.getElem?_eq_getElem (h.objects ▸ hid)] at hfield ⊢
          exact rel_insert hfield hv name key
        · rw [Array.getElem?_eq_none (by omega),Array.getElem?_eq_none (by have := h.objects; omega)]
          exact .none
      · exact hfield key }

theorem simulates_readClock (h : Linked p w scope m l) :
    Simulates p w current scope (SameValue p) (readClock m) (readClock l) := by
  refine ⟨w,.refl w,{ h with clock := congrArg Clock.tick h.clock },?_⟩
  rw [h.clock]
  exact .scalar _

/-- A result that does not depend on the machine. -/
theorem simulates_orFault (h : Linked p w scope m l) {token : Token} {x : Except EvalError α}
    (hx : ∀ e, x = .error e → Ordinary (.fault e token)) :
    Simulates p w current scope (fun _ a b => b = a) (orFault token x m)
      (orFault token x l) := by
  cases x with
  | ok a => exact .pure h rfl
  | error e => exact .throw h (hx e rfl)

theorem simulates_callBuiltin (h : Linked p w scope m l) (vars : NameMap Bytes) (paren : Token)
    (b : Builtin) {args : List Value} {args' : List (Value Names)}
    (hargs : List.Forall₂ (SameValue p w) args args') (hlength : args.length = b.arity) :
    Simulates p w current scope (SameValue p) (callBuiltin vars paren b args m)
      (callBuiltin vars paren b args' l) := by
  by_cases hclock : b = .clock
  · subst hclock
    obtain rfl : args = [] := List.length_eq_zero_iff.1 hlength
    obtain rfl : args' = [] := List.forall₂_nil_left_iff.1 hargs
    exact simulates_readClock h
  · have hone : b.arity = 1 := by cases b <;> simp_all [Builtin.arity]
    obtain ⟨v,rfl⟩ := List.length_eq_one_iff.1 (hlength.trans hone)
    obtain ⟨v',rest,hv,hnil,rfl⟩ := List.forall₂_cons_left_iff.1 hargs
    obtain rfl : rest = [] := List.forall₂_nil_left_iff.1 hnil
    cases b with
    | clock => exact absurd rfl hclock
    | type =>
      refine Simulates.pure h ?_
      rw [hv.alike.typeName]
      exact .scalar _
    | str =>
      refine Simulates.pure h ?_
      rw [hv.alike.text]
      exact .scalar _
    | env =>
      cases hv with
      | scalar s =>
        cases s with
        | str name =>
          simp only [callBuiltin]
          cases vars.get? name with
          | none => exact .pure h (.scalar _)
          | some value => exact .pure h (.scalar _)
        | _ => exact .throw h trivial
      | _ => exact .throw h trivial

end

end Scriptlet.Lexical
