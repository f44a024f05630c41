import Mathlib.Data.List.Forall2
import Scriptlet.Proofs.Environments
import Scriptlet.Proofs.Lexical
import Scriptlet.Proofs.Likeness
import Scriptlet.Proofs.Scoping.Resolved

/-! # Environments against cells

How the two evaluators keep the same names. Each cell of the lexical evaluator belongs to one name
of one environment of the machine, its owner. A map of names fits an environment and static scopes
if each name of the scopes is found at its distance, in the environment that owns the cell of the
name. Such a fit lasts: environments and cells are only added, so it holds for a function long after
its block has ended, whatever is declared in between.
-/
namespace Scriptlet.Lexical

/-- All environments, and for each cell the environment and the name it belongs to. -/
structure World where
  store : Store
  owners : List (EnvId × Bytes)

namespace World

/-- A later state of the world. New owners belong to new environments, or else to `current`. -/
structure Grows (current : Option EnvId) (w w' : World) : Prop where
  store : w.store.Extends w'.store
  owners : w.owners <+: w'.owners
  apart : ∀ o ∈ w'.owners, o ∈ w.owners ∨ w.store.size ≤ o.1 ∨ current = some o.1

namespace Grows

variable {current : Option EnvId} {w w' w'' : World}

theorem refl (w : World) : Grows current w w := ⟨.refl _,List.prefix_refl _,fun _ h => .inl h⟩

theorem trans (h : Grows current w w') (h' : Grows current w' w'') : Grows current w w'' where
  store := h.store.trans h'.store
  owners := h.owners.trans h'.owners
  apart o ho := by
    rcases h'.apart o ho with ho | hsize | hcurrent
    · exact h.apart o ho
    · exact .inr (.inl (Nat.le_trans h.store.size_le hsize))
    · exact .inr (.inr hcurrent)

theorem weaken (h : Grows none w w') : Grows current w w' where
  store := h.store
  owners := h.owners
  apart o ho := by
    rcases h.apart o ho with ho | hsize | hcurrent
    · exact .inl ho
    · exact .inr (.inl hsize)
    · cases hcurrent

/-- What happens to an environment that is new is of no concern to the older ones. -/
theorem fresh {id : EnvId} (h : Grows none w w') (hid : w.store.size ≤ id)
    (h' : Grows (some id) w' w'') : Grows none w w'' where
  store := h.store.trans h'.store
  owners := h.owners.trans h'.owners
  apart o ho := by
    rcases h'.apart o ho with ho | hsize | hcurrent
    · exact h.apart o ho
    · exact .inr (.inl (Nat.le_trans h.store.size_le hsize))
    · obtain rfl : id = o.1 := by simpa using hcurrent
      exact .inr (.inl hid)

/-- A binding for a name, new or not. -/
theorem define (w : World) (id : EnvId) (name : Bytes) (value : Value) :
    Grows current w ⟨w.store.define id name value,w.owners⟩ :=
  ⟨.define _ _ _ _,List.prefix_refl _,fun _ ho => .inl ho⟩

theorem owner (h : Grows current w w') {cell : Cell} {o : EnvId × Bytes}
    (ho : w.owners[cell]? = some o) : w'.owners[cell]? = some o := by
  obtain ⟨more,hmore⟩ := h.owners
  rw [← hmore,List.getElem?_append_left (List.getElem?_eq_some_iff.1 ho).1,ho]

end Grows

/-! ## Names -/

/-- A map of names fits an environment in the given scopes: a name is found at its distance in the
environment that owns its cell, and is bound there once its initializer is finished. -/
def Fits (w : World) (id : EnvId) (scopes : Scopes) (names : Names) : Prop :=
  ∀ name, match scopes.find? name with
    | none => names.get? name = none
    | some (distance,finished) => ∃ holder cell, w.store.ancestor? id distance = some holder ∧
        names.get? name = some cell ∧ w.owners[cell]? = some (holder,name) ∧
        (finished = true → (w.store.bound? holder name).isSome)

variable {w w' : World} {id : EnvId} {scopes : Scopes} {names : Names} {name : Bytes}
  {current : Option EnvId}

theorem Fits.absent (h : w.Fits id scopes names) (hfind : scopes.find? name = none) :
    names.get? name = none := by
  have hname := h name
  rwa [hfind] at hname

theorem Fits.found (h : w.Fits id scopes names) {distance : Nat} {finished : Bool}
    (hfind : scopes.find? name = some (distance,finished)) :
    ∃ holder cell, w.store.ancestor? id distance = some holder ∧ names.get? name = some cell ∧
      w.owners[cell]? = some (holder,name) ∧
      (finished = true → (w.store.bound? holder name).isSome) := by
  have hname := h name
  rwa [hfind] at hname

theorem fits_nil (w : World) (id : EnvId) : w.Fits id [] .empty := fun _ => rfl

theorem Fits.grow (h : w.Fits id scopes names) (hw : w.Grows current w') :
    w'.Fits id scopes names := by
  intro name
  cases hfind : scopes.find? name with
  | none => exact h.absent hfind
  | some found =>
    obtain ⟨holder,cell,hholder,hcell,howner,hbound⟩ := h.found hfind
    exact ⟨holder,cell,hw.store.ancestor? hholder,hcell,hw.owner howner,
      fun hfinished => hw.store.bound? (hbound hfinished)⟩

/-- A new environment around which nothing is declared yet. -/
theorem Fits.inner (h : w.Fits id scopes names) {bindings : NameMap Value} :
    World.Fits ⟨w.store.push ⟨some id,bindings⟩,w.owners⟩ w.store.size (.empty :: scopes) names := by
  intro name
  have hgrow : w.Grows none ⟨w.store.push ⟨some id,bindings⟩,w.owners⟩ :=
    ⟨.push _ _,List.prefix_refl _,fun _ ho => .inl ho⟩
  rw [Scopes.find?_empty_cons]
  cases hfind : scopes.find? name with
  | none => exact h.absent hfind
  | some found =>
    obtain ⟨holder,cell,hholder,hcell,howner,hbound⟩ := (h.grow hgrow).found hfind
    exact ⟨holder,cell,Store.ancestor?_push_succ.trans hholder,hcell,howner,hbound⟩

/-- One more name in the innermost scope, with a cell that belongs to it. -/
theorem Fits.bind (h : w.Fits id scopes names) (hne : scopes ≠ []) {cell : Cell} {finished : Bool}
    (howner : w.owners[cell]? = some (id,name))
    (hbound : finished = true → (w.store.bound? id name).isSome) :
    w.Fits id (scopes.bind name finished) (names.insert name cell) := by
  intro other
  rw [Scopes.find?_bind hne]
  by_cases heq : other = name
  · subst heq
    simp only [beq_self_eq_true,if_true]
    exact ⟨id,cell,rfl,by simp [NameMap.get?_insert],howner,hbound⟩
  · have hget : (names.insert name cell).get? other = names.get? other := by
      simp [NameMap.get?_insert,heq]
    simp only [beq_iff_eq,heq,if_false,hget]
    exact h other

/-- The initializer of a name is finished. -/
theorem Fits.finish {finished : Bool} (h : w.Fits id (scopes.bind name finished) names)
    (hne : scopes ≠ []) (hbound : (w.store.bound? id name).isSome) :
    w.Fits id (scopes.bind name true) names := by
  intro other
  have hother := h other
  rw [Scopes.find?_bind hne] at hother ⊢
  by_cases heq : other = name
  · subst heq
    simp only [beq_self_eq_true,if_true] at hother ⊢
    obtain ⟨holder,cell,hholder,hcell,howner,-⟩ := hother
    obtain rfl : id = holder := by simpa [Store.ancestor?] using hholder
    exact ⟨id,cell,rfl,hcell,howner,fun _ => hbound⟩
  · simpa [heq] using hother

end World

/-! ## Values -/

/-- A table whose entries for the places below `limit` are settled. -/
structure Places where
  table : Table
  limit : Nat

/-- The declaration of a function that is well scoped inside the given scopes, now and later. No
function is declared in an initializer, so all names around it are finished. -/
structure Places.Covers (p : Places) (scopes : Scopes) (decl : FunctionDecl) : Prop where
  settled : scopes.Settled
  wellScoped : decl.Scoped p.table scopes
  below : ∀ x ∈ decl.refs, x.index < p.limit

/-- One declaration twice: with an environment, and with the names that fit it. The scopes of the
closure are `outer`; inside of `inner` the parameters and the body are scoped. -/
structure SameFunction (p : Places) (w : World) (outer inner : Scopes) (f : Function)
    (g : Function Names) : Prop where
  decl : g.decl = f.decl
  isInitializer : g.isInitializer = f.isInitializer
  closure : w.Fits f.closure outer g.closure
  covers : p.Covers inner f.decl

/-- A function that can be called. If it is an initializer, its closure binds the instance. -/
def SameCallable (p : Places) (w : World) (f : Function) (g : Function Names) : Prop :=
  ∃ scopes, SameFunction p w scopes scopes f g ∧
    (f.isInitializer = true → scopes.find? thisName = some (0,true))

/-- A method that is still to be bound to an instance. -/
def SameMethod (p : Places) (w : World) (f : Function) (g : Function Names) : Prop :=
  ∃ scopes, SameFunction p w scopes (.ofList [(thisName,true)] :: scopes) f g

structure SameBody (p : Places) (w : World) (b : ClassBody) (b' : ClassBody Names) : Prop where
  id : b'.id = b.id
  name : b'.name = b.name
  methods : ∀ name, Option.Rel (SameMethod p w) (b.methods.get? name) (b'.methods.get? name)

def SameClass (p : Places) (w : World) (c : Class) (c' : Class Names) : Prop :=
  List.Forall₂ (SameBody p w) c.lineage c'.lineage

/-- Values that a program can not tell apart. -/
inductive SameValue (p : Places) (w : World) : Value → Value Names → Prop
  | scalar (s : Scalar) : SameValue p w (.scalar s) (.scalar s)
  | builtin (b : Builtin) : SameValue p w (.builtin b) (.builtin b)
  | function (id : Nat) {f : Function} {g : Function Names} :
      SameCallable p w f g → SameValue p w (.function id f) (.function id g)
  | class_ {c : Class} {c' : Class Names} : SameClass p w c c' → SameValue p w (.class_ c) (.class_ c')
  | object (id : Nat) {c : Class} {c' : Class Names} :
      SameClass p w c c' → SameValue p w (.object c id) (.object c' id)
  | uninitialized : SameValue p w .uninitialized .uninitialized

section

variable {p p' : Places} {w w' : World} {current : Option EnvId}

theorem rel_mono {α β : Type} {R S : α → β → Prop} (h : ∀ a b, R a b → S a b)
    {a : Option α} {b : Option β} (hab : Option.Rel R a b) : Option.Rel S a b := by
  cases hab with
  | some hab => exact .some (h _ _ hab)
  | none => exact .none

/-- Closures still fit, and declarations are still well scoped. -/
structure Persists (p p' : Places) (w w' : World) : Prop where
  fits : ∀ {id scopes names}, w.Fits id scopes names → w'.Fits id scopes names
  covers : ∀ {scopes decl}, p.Covers scopes decl → p'.Covers scopes decl

theorem SameFunction.persist {outer inner : Scopes} {f : Function} {g : Function Names}
    (h : SameFunction p w outer inner f g) (hp : Persists p p' w w') :
    SameFunction p' w' outer inner f g :=
  ⟨h.decl,h.isInitializer,hp.fits h.closure,hp.covers h.covers⟩

theorem SameCallable.persist {f : Function} {g : Function Names} (h : SameCallable p w f g)
    (hp : Persists p p' w w') : SameCallable p' w' f g := by
  obtain ⟨scopes,hsame,hinit⟩ := h
  exact ⟨scopes,hsame.persist hp,hinit⟩

theorem SameMethod.persist {f : Function} {g : Function Names} (h : SameMethod p w f g)
    (hp : Persists p p' w w') : SameMethod p' w' f g := by
  obtain ⟨scopes,hsame⟩ := h
  exact ⟨scopes,hsame.persist hp⟩

theorem SameClass.persist {c : Class} {c' : Class Names} (h : SameClass p w c c')
    (hp : Persists p p' w w') : SameClass p' w' c c' :=
  List.Forall₂.imp (fun _ _ hbody => ⟨hbody.id,hbody.name,fun name =>
    rel_mono (fun _ _ hmethod => hmethod.persist hp) (hbody.methods name)⟩) h

theorem SameValue.persist {v : Value} {v' : Value Names} (h : SameValue p w v v')
    (hp : Persists p p' w w') : SameValue p' w' v v' := by
  cases h with
  | scalar s => exact .scalar s
  | builtin b => exact .builtin b
  | function id hf => exact .function id (hf.persist hp)
  | class_ hc => exact .class_ (hc.persist hp)
  | object id hc => exact .object id (hc.persist hp)
  | uninitialized => exact .uninitialized

theorem World.Grows.persists (hw : w.Grows current w') : Persists p p w w' :=
  ⟨fun hfits => hfits.grow hw,fun hcovers => hcovers⟩

theorem SameCallable.grow {f : Function} {g : Function Names} (h : SameCallable p w f g)
    (hw : w.Grows current w') : SameCallable p w' f g :=
  h.persist hw.persists

theorem SameMethod.grow {f : Function} {g : Function Names} (h : SameMethod p w f g)
    (hw : w.Grows current w') : SameMethod p w' f g :=
  h.persist hw.persists

theorem SameClass.grow {c : Class} {c' : Class Names} (h : SameClass p w c c')
    (hw : w.Grows current w') : SameClass p w' c c' :=
  h.persist hw.persists

theorem SameValue.grow {v : Value} {v' : Value Names} (h : SameValue p w v v')
    (hw : w.Grows current w') : SameValue p w' v v' :=
  h.persist hw.persists

/-- A table that has more entries, none of them for the old places. -/
structure Places.Later (p p' : Places) : Prop where
  limit : p.limit ≤ p'.limit
  table : ∀ i < p.limit, p'.table[i]? = p.table[i]?

theorem Places.Later.refl (p : Places) : p.Later p := ⟨Nat.le_refl _,fun _ _ => rfl⟩

theorem Places.Covers.later {scopes : Scopes} {decl : FunctionDecl} (hcovers : p.Covers scopes decl)
    (h : p.Later p') : p'.Covers scopes decl where
  settled := hcovers.settled
  wellScoped := hcovers.wellScoped.congr _ decl fun x hx => h.table x.index (hcovers.below x hx)
  below := fun x hx => Nat.lt_of_lt_of_le (hcovers.below x hx) h.limit

theorem Places.Later.persists (h : p.Later p') : Persists p p' w w where
  fits hfits := hfits
  covers hcovers := hcovers.later h

theorem SameClass.own {c : Class} {c' : Class Names} (h : SameClass p w c c') :
    SameBody p w c.own c'.own :=
  (List.forall₂_cons.1 h).1

theorem SameClass.findMethod? {c : Class} {c' : Class Names} (h : SameClass p w c c')
    (name : Bytes) : Option.Rel (SameMethod p w) (c.findMethod? name) (c'.findMethod? name) := by
  unfold SameClass at h
  unfold Class.findMethod?
  generalize c.lineage = l, c'.lineage = l' at h
  induction h with
  | nil => exact .none
  | @cons b b' rest rest' hbody _ ih =>
    have hmethod := hbody.methods name
    simp only [List.findSome?_cons]
    generalize b.methods.get? name = f, b'.methods.get? name = g at hmethod ⊢
    cases hmethod with
    | none => exact ih
    | some hsame => exact .some hsame

theorem SameValue.alike {v : Value} {v' : Value Names} (h : SameValue p w v v') : v.Alike v' := by
  cases h with
  | scalar s => exact .scalar s
  | builtin b => exact .builtin b
  | function id hf =>
    obtain ⟨scopes,hsame,-⟩ := hf
    exact .function id (by rw [hsame.decl])
  | class_ hc => exact .class_ hc.own.id hc.own.name
  | object id hc => exact .object id hc.own.name
  | uninitialized => exact .uninitialized

theorem SameValue.arity? {v : Value} {v' : Value Names} (h : SameValue p w v v') :
    v'.arity? = v.arity? := by
  cases h with
  | function id hf =>
    obtain ⟨scopes,hsame,-⟩ := hf
    simp [Value.arity?,Function.arity,hsame.decl]
  | @class_ c c' hc =>
    have hmethod := hc.findMethod? initializerName
    simp only [Value.arity?]
    generalize c.findMethod? initializerName = f, c'.findMethod? initializerName = g at hmethod ⊢
    cases hmethod with
    | none => rfl
    | some hmethod =>
      obtain ⟨scopes,hsame⟩ := hmethod
      simp [Function.arity,hsame.decl]
  | _ => rfl

theorem rel_insert {α β : Type} {R : α → β → Prop} {m : NameMap α} {m' : NameMap β} {a : α} {b : β}
    (h : ∀ key, Option.Rel R (m.get? key) (m'.get? key)) (hab : R a b) (name key : Bytes) :
    Option.Rel R ((m.insert name a).get? key) ((m'.insert name b).get? key) := by
  rw [NameMap.get?_insert,NameMap.get?_insert]
  split
  · exact .some hab
  · exact h key

theorem rel_insertAll {α β ι : Type} {R : α → β → Prop} {m : NameMap α} {m' : NameMap β}
    (items : List ι) (name : ι → Bytes) (f : ι → α) (g : ι → β)
    (hitems : ∀ i ∈ items, R (f i) (g i)) (h : ∀ key, Option.Rel R (m.get? key) (m'.get? key))
    (key : Bytes) :
    Option.Rel R
      (((items.map fun i => (name i,f i)).foldl (fun m b => m.insert b.1 b.2) m).get? key)
      (((items.map fun i => (name i,g i)).foldl (fun m b => m.insert b.1 b.2) m').get? key) := by
  induction items generalizing m m' with
  | nil => exact h key
  | cons i items ih =>
    exact ih (fun j hj => hitems j (by simp [hj])) (rel_insert h (hitems i (by simp)) (name i))

/-- A class whose methods see names that fit their environment. -/
theorem sameBody_declared {closure : EnvId} {scopes : Scopes} {names : Names}
    {methods : List FunctionDecl} (hfits : w.Fits closure scopes names)
    (hcovers : ∀ decl ∈ methods, p.Covers (.ofList [(thisName,true)] :: scopes) decl)
    (id : Nat) (name : Bytes) :
    SameBody p w (.declared id name closure methods) (.declared id name names methods) := by
  refine ⟨rfl,rfl,rel_insertAll methods _ _ _ (fun decl hdecl => ?_) fun key => .none⟩
  exact ⟨scopes,rfl,rfl,hfits,hcovers decl hdecl⟩

end

end Scriptlet.Lexical
