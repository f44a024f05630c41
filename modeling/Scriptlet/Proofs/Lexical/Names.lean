import Scriptlet.Proofs.Lexical.Steps
import Scriptlet.Proofs.LookUps

/-! # Operations on names

Reading, assigning and declaring names, and the environments of methods, on both machines. The
invariant is that the current environment, the static scopes of the place that is being evaluated
and the map of names fit together.
-/
namespace Scriptlet.Lexical

open Steps

/-- The scope of a statement. Inside of a block the current environment owns exactly the names of
the innermost scope. -/
inductive Current (w : World) : EnvId → Scope → Scopes → Prop
  | global : Current w globalScope .global []
  | nested {id : EnvId} {names : Names} {scopes : Scopes} : scopes ≠ [] → id ≠ globalScope →
      id < w.store.size → w.Fits id scopes names →
      (∀ name, (id,name) ∈ w.owners → ∃ finished, scopes.find? name = some (0,finished)) →
      Current w id (.nested names) scopes

section

variable {p : Places} {w w' : World} {current : Option EnvId} {id here : EnvId} {scope : Scope}
  {scopes : Scopes} {names : Names} {m : Scriptlet.Machine} {l : Machine} {vars : NameMap Bytes}

theorem Current.fits (h : Current w id scope scopes) : w.Fits id scopes scope.names := by
  cases h with
  | global => exact w.fits_nil globalScope
  | nested _ _ _ hfits _ => exact hfits

theorem Current.eq_global (h : Current w globalScope scope scopes) : scope = .global ∧ scopes = [] := by
  cases h with
  | global => exact ⟨rfl,rfl⟩
  | nested _ hid _ _ _ => exact absurd rfl hid

theorem Current.ne_global (h : Current w id (.nested names) scopes) :
    id ≠ globalScope ∧ id < w.store.size := by
  cases h with
  | nested _ hid hsize _ _ => exact ⟨hid,hsize⟩

theorem Current.grow (h : Current w id scope scopes) (hw : w.Grows none w') :
    Current w' id scope scopes := by
  cases h with
  | global => exact .global
  | nested hne hid hsize hfits howned =>
    refine .nested hne hid (Nat.lt_of_lt_of_le hsize hw.store.size_le) (hfits.grow hw) ?_
    intro name hname
    rcases hw.apart _ hname with ho | hnew | hcurrent
    · exact howned name ho
    · exact absurd hsize (Nat.not_lt_of_le hnew)
    · cases hcurrent

/-- A scope is still good if another one of the same names is. -/
theorem Current.renew {scope' : Scope} (h : Current w id scope scopes) (hw : w.Grows current w')
    (h' : Current w' id scope' scopes) : Current w' id scope scopes := by
  cases h with
  | global => exact .global
  | nested hne hid hsize hfits _ =>
    cases h' with
    | global => exact absurd rfl hid
    | nested _ _ hsize' _ howned => exact .nested hne hid hsize' (hfits.grow hw) howned

/-! ## Reading and assigning names -/

theorem lookUp_of_value? {name : Bytes} {value : Option (Value Names)} (token : Token)
    (h : Eval.value? names name l = value) :
    Eval.lookUp names name token l = (match value with
      | some value => orFault token (Store.initialized name value)
      | none => fault (.undefinedVariable name) token) l :=
  h ▸ rfl

theorem assign_global {name : Token} {value : Value Names} (h : names.get? name.lexeme = none) :
    Eval.assign names name value l = (match l.memory.globals.get? name.lexeme with
      | some _ => Eval.setGlobal name.lexeme value
      | none => fault (.undefinedVariable name.lexeme) name) l := by
  rw [Eval.assign,h]
  rfl

theorem simulates_initialized (h : Linked p w here m l) {name : Bytes} {token : Token} {v : Value}
    {v' : Value Names} (hv : SameValue p w v v') (hname : name = superName → v ≠ .uninitialized) :
    Simulates p w current here (fun w' a b => SameValue p w' a b ∧ a = v)
      (orFault token (Store.initialized name v) m)
      (orFault token (Store.initialized name v') l) := by
  cases hv with
  | uninitialized => exact .throw h fun hsuper => hname hsuper rfl
  | scalar s => exact .pure h ⟨.scalar s,rfl⟩
  | builtin b => exact .pure h ⟨.builtin b,rfl⟩
  | function id hf => exact .pure h ⟨.function id hf,rfl⟩
  | class_ hc => exact .pure h ⟨.class_ hc,rfl⟩
  | object id hc => exact .pure h ⟨.object id hc,rfl⟩

/-- A finished name at its distance. -/
theorem simulates_readAt (h : Linked p w here m l) (hfits : w.Fits id scopes names) {name : Bytes}
    {distance : Nat} (hfind : scopes.find? name = some (distance,true)) (token : Token) :
    Simulates p w current here (fun w' v v' => SameValue p w' v v' ∧ Keeps name v)
      (Scriptlet.Eval.readAt id distance name token m) (Eval.lookUp names name token l) := by
  obtain ⟨holder,cell,hholder,hcell,howner,hbound⟩ := hfits.found hfind
  obtain ⟨v,hv⟩ := Option.isSome_iff_exists.1 (hbound rfl)
  obtain ⟨v',hv',hsame⟩ := h.cells cell holder name howner
  rw [hv] at hsame
  have hmachine : Scriptlet.Eval.readAt id distance name token m =
      orFault token (Store.initialized name v) m := by
    rw [← h.store] at hholder hv
    exact Scriptlet.Eval.readAt_of_ancestor token hholder hv
  have hlexical : Eval.lookUp names name token l =
      orFault token (Store.initialized name v') l := by
    have hvalue : Eval.value? names name l = some v' := by simp [Eval.value?,hcell,hv']
    exact lookUp_of_value? token hvalue
  have hsuper : name = superName → v ≠ .uninitialized := by
    rintro rfl rfl
    obtain ⟨c,hc⟩ := hsame.2.2 rfl
    cases hc
  rw [hmachine,hlexical]
  exact (simulates_initialized h hsame.1 hsuper).mono fun _ _ _ _ hq => ⟨hq.1,hq.2 ▸ hsame.2⟩

theorem simulates_lookUp (h : Linked p w here m l) (hfits : w.Fits here scopes names)
    {name : Token} (hname : name.lexeme ≠ superName) (hread : scopes.Readable p.table name) :
    Simulates p w current here (SameValue p)
      (Scriptlet.Eval.lookUp ⟨p.table,vars⟩ name m) (Eval.lookUp names name.lexeme name l) := by
  obtain ⟨hlocated,hfinished⟩ := hread
  rw [Scopes.Located,Scopes.distance?] at hlocated
  cases hfind : scopes.find? name.lexeme with
  | some found =>
    obtain ⟨distance,finished⟩ := found
    rw [hfind] at hlocated
    rw [Scriptlet.Eval.lookUp_of_distance hlocated,h.current]
    cases finished with
    | false => exact absurd hfind (hfinished distance)
    | true => exact (simulates_readAt h hfits hfind name).mono fun _ _ _ _ hq => hq.1
  | none =>
    rw [hfind] at hlocated
    rw [Scriptlet.Eval.lookUp_of_none hlocated]
    obtain ⟨bindings,hroot⟩ := h.root
    have hglobal := h.globals name.lexeme
    have hvalue : Eval.value? names name.lexeme l = l.memory.globals.get? name.lexeme := by
      simp [Eval.value?,hfits.absent hfind]
    rw [lookUp_of_value? name hvalue,h.store,Store.read_of_enclosing_none hroot rfl]
    generalize w.store.bound? globalScope name.lexeme = v, l.memory.globals.get? name.lexeme = v'
      at hglobal ⊢
    cases hglobal with
    | none => exact .throw h trivial
    | some hsame =>
      exact (simulates_initialized h hsame (fun hsuper => absurd hsuper hname)).mono
        fun _ _ _ _ hq => hq.1

theorem simulates_store (h : Linked p w here m l) {cell : Cell} {holder : EnvId} {name : Bytes}
    {v : Value} {v' : Value Names} (howner : w.owners[cell]? = some (holder,name))
    (hv : SameValue p ⟨w.store.define holder name v,w.owners⟩ v v') (hkeeps : Keeps name v) :
    Simulates p w current here (fun w' _ _ => w' = ⟨w.store.define holder name v,w.owners⟩)
      (Scriptlet.Eval.store holder name v m) (Eval.setCell cell v' l) :=
  ⟨_,.define w holder name v,h.write howner hv hkeeps,rfl⟩

theorem simulates_storeGlobal (h : Linked p w here m l) (name : Bytes) {v : Value} {v' : Value Names}
    (hv : SameValue p w v v') :
    Simulates p w current here (fun _ _ _ => True)
      (Scriptlet.Eval.store globalScope name v m) (Eval.setGlobal name v' l) :=
  ⟨_,.define w globalScope name v,h.writeGlobal name hv,trivial⟩

/-- The cell of a name, or the global, gets the same value on both sides. -/
theorem simulates_assign (h : Linked p w here m l) (hfits : w.Fits here scopes names)
    {name : Token} (hplain : IsPlain name.lexeme) (hlocated : scopes.Located p.table name)
    {v : Value} {v' : Value Names} (hv : SameValue p w v v') :
    Simulates p w current here (fun _ _ _ => True)
      (Scriptlet.Eval.assign ⟨p.table,vars⟩ name v m) (Eval.assign names name v' l) := by
  rw [Scopes.Located,Scopes.distance?] at hlocated
  simp only [Scriptlet.Eval.assign,bind,EStateM.bind]
  cases hfind : scopes.find? name.lexeme with
  | some found =>
    obtain ⟨holder,cell,hfound,hcell,howner,-⟩ := hfits.found hfind
    rw [hfind] at hlocated
    rw [← h.store,← h.current] at hfound
    rw [Scriptlet.Eval.holder_of_ancestor hlocated hfound,Eval.assign,hcell]
    have hgrow : w.Grows none _ := .define w holder name.lexeme v
    exact (simulates_store h howner (hv.grow hgrow) (keeps_of_isPlain hplain v)).mono
      fun _ _ _ _ _ => trivial
  | none =>
    obtain ⟨bindings,hroot⟩ := h.root
    have hglobal := h.globals name.lexeme
    rw [hfind] at hlocated
    rw [← h.store] at hroot hglobal
    rw [Scriptlet.Eval.holder_of_global hlocated hroot,assign_global (hfits.absent hfind)]
    generalize m.memory.store.bound? globalScope name.lexeme = u, l.memory.globals.get? name.lexeme = u'
      at hglobal ⊢
    cases hglobal with
    | none => exact .throw h trivial
    | some hsame => exact simulates_storeGlobal h name.lexeme hv

/-! ## New environments -/

theorem fresh_owner (h : Linked p w here m l) (name : Bytes) : (w.store.size,name) ∉ w.owners :=
  fun ho => Nat.lt_irrefl _ (h.nested _ ho).2

theorem size_ne_global (h : Linked p w here m l) : w.store.size ≠ globalScope := by
  obtain ⟨bindings,hroot⟩ := h.root
  exact Nat.ne_of_gt (Store.lt_size_of_get? hroot)

/-- Nothing is declared yet in a new environment. -/
theorem Current.inner (h : Linked p w here m l) (hfits : w.Fits id scopes names) :
    Current ⟨w.store.push ⟨some id,.empty⟩,w.owners⟩ w.store.size (.nested names)
      (.empty :: scopes) :=
  .nested (by simp) (size_ne_global h) (by simp) hfits.inner fun name hname =>
    absurd hname (fresh_owner h name)

/-- An environment with one name, against a map with one name more. -/
theorem simulates_newEnv (h : Linked p w here m l) (hfits : w.Fits id scopes names) {name : Bytes}
    {v : Value} {v' : Value Names} (hv : SameValue p w v v') (hkeeps : Keeps name v) :
    Simulates p w none here
      (fun w' env names' => w'.Fits env (.ofList [(name,true)] :: scopes) names')
      (Scriptlet.Eval.newEnv id (.ofList [(name,v)]) m) (Eval.extend names name v' l) := by
  obtain ⟨hgrow,hlinked⟩ := h.push id
  have hsize : w.store.size < (w.store.push ⟨some id,.empty⟩).size := by simp
  obtain ⟨hgrow',hlinked'⟩ := hlinked.extend (size_ne_global h) hsize (fresh_owner h name)
    (hv.grow hgrow) hkeeps
  have hinner : World.Fits ⟨w.store.push ⟨some id,.empty⟩,w.owners⟩ w.store.size
    (.empty :: scopes) names := hfits.inner
  have howner : (w.owners ++ [(w.store.size,name)])[l.memory.cells.size]? =
      some (w.store.size,name) := by
    simp [h.size]
  refine ⟨_,hgrow.fresh (Nat.le_refl _) hgrow',{ hlinked' with store := ?_ },?_⟩
  · rw [h.store]
    exact Store.push_insert
  · rw [h.store]
    exact (hinner.grow hgrow').bind (by simp) howner fun _ => by simp [Store.bound?_define hsize]

theorem simulates_bind (h : Linked p w here m l) {f : Function} {g : Function Names}
    (hf : SameMethod p w f g) {v : Value} {v' : Value Names} (hv : SameValue p w v v')
    (hobject : ∃ c i, v = .object c i) :
    Simulates p w none here (fun w' f' g' => SameCallable p w' f' g' ∧ f'.decl = f.decl)
      (Scriptlet.Eval.bind f v m) (Eval.bind g v' l) := by
  obtain ⟨scopes,hsame⟩ := hf
  have hkeeps : Keeps thisName v := ⟨fun _ => hobject,fun heq => absurd heq (by decide)⟩
  refine Simulates.bind (simulates_newEnv h hsame.closure hv hkeeps) ?_
  rintro w' env names' m' l' hgrow hlinked hfits
  refine .pure hlinked ⟨⟨_,⟨hsame.decl,hsame.isInitializer,hfits,hsame.covers⟩,fun _ => ?_⟩,rfl⟩
  simp [Scopes.find?_ofList_cons]

theorem simulates_methodFor (h : Linked p w here m l) {c : Class} {c' : Class Names}
    (hc : SameClass p w c c') (name : Token) {v : Value} {v' : Value Names}
    (hv : SameValue p w v v') (hobject : ∃ c i, v = .object c i) :
    Simulates p w none here (SameValue p) (Scriptlet.Eval.methodFor c name v m)
      (Eval.methodFor c' name v' l) := by
  have hmethod := hc.findMethod? name.lexeme
  unfold Scriptlet.Eval.methodFor Eval.methodFor
  generalize c.findMethod? name.lexeme = f, c'.findMethod? name.lexeme = g at hmethod ⊢
  cases hmethod with
  | none => exact .throw h trivial
  | some hmethod =>
    refine Simulates.bind (simulates_bind h hmethod hv hobject) ?_
    rintro w' f' g' m' l' hgrow hlinked ⟨hsame,-⟩
    refine (simulates_newFunction hlinked f' g').mono ?_
    rintro w'' _ _ hgrow' ⟨id,rfl,rfl⟩
    exact .function id (hsame.grow hgrow')

theorem simulates_property (h : Linked p w here m l) {v : Value} {v' : Value Names}
    (hv : SameValue p w v v') (name : Token) :
    Simulates p w none here (SameValue p) (Scriptlet.Eval.property v name m)
      (Eval.property v' name l) := by
  cases hv with
  | object id hc =>
    refine Simulates.bind (simulates_field? h id name.lexeme) ?_
    rintro w' field field' m' l' hgrow hlinked hfield
    cases hfield with
    | none =>
      have hc' := hc.grow hgrow
      exact simulates_methodFor hlinked hc' name (.object id hc') ⟨_,_,rfl⟩
    | some hvalue => exact .pure hlinked hvalue
  | _ => exact .throw h trivial

theorem simulates_superMethod (h : Linked p w here m l) (hfits : w.Fits here scopes names)
    {keyword : Token} (method : Token)
    (hscoped : (Expr.superMethod keyword method).Scoped p.table scopes) :
    Simulates p w none here (SameValue p)
      (Scriptlet.Eval.superMethod ⟨p.table,vars⟩ keyword method m)
      (Eval.superMethod names keyword method l) := by
  obtain ⟨d,hentry,hsuper,hthis⟩ := hscoped
  rw [Scriptlet.Eval.superMethod_of_distance method hentry,h.current]
  refine Simulates.bind (simulates_readAt h hfits hsuper keyword) ?_
  rintro w' parent parent' m' l' hgrow hlinked ⟨hparent,hkeeps⟩
  refine Simulates.bind (simulates_readAt hlinked (hfits.grow hgrow) hthis keyword) ?_
  rintro w'' object object' m'' l'' hgrow' hlinked' ⟨hobject,hkeeps'⟩
  obtain ⟨c,rfl⟩ := hkeeps.2 rfl
  obtain ⟨c',i,rfl⟩ := hkeeps'.1 rfl
  have hvalue := hobject
  cases hparent with
  | class_ hc =>
    cases hobject with
    | object _ hc' => exact simulates_methodFor hlinked' (hc.grow hgrow') method hvalue ⟨_,_,rfl⟩

/-! ## Declarations -/

/-- The slot of a name that is declared in an environment. -/
inductive Holds (w : World) : EnvId → Bytes → Slot → Prop
  | global (name : Bytes) : Holds w globalScope name (.global name)
  | cell {id : EnvId} {name : Bytes} {cell : Cell} :
      w.owners[cell]? = some (id,name) → Holds w id name (.cell cell)

theorem Holds.grow {name : Bytes} {slot : Slot} (h : Holds w id name slot)
    (hw : w.Grows current w') : Holds w' id name slot := by
  cases h with
  | global => exact .global name
  | cell howner => exact .cell (hw.owner howner)

/-- One more name in the innermost scope, and one more owner. -/
theorem Current.bind (h : Current w id (.nested names) scopes) {name : Bytes} (finished : Bool)
    {cell : Cell} (hw : w.Grows (some id) w') (howners : w'.owners = w.owners ++ [(id,name)])
    (howner : w'.owners[cell]? = some (id,name))
    (hbound : finished = true → (w'.store.bound? id name).isSome) :
    Current w' id (.nested (names.insert name cell)) (scopes.bind name finished) := by
  cases h with
  | nested hne hid hsize hfits howned =>
    refine .nested (by simpa using hne) hid (Nat.lt_of_lt_of_le hsize hw.store.size_le)
      ((hfits.grow hw).bind hne howner hbound) ?_
    intro other hother
    rw [Scopes.find?_bind hne]
    by_cases heq : other = name
    · exact ⟨finished,by simp [heq]⟩
    · have hold : (id,other) ∈ w.owners := by simpa [howners,heq] using hother
      simpa [heq] using howned other hold

/-- The initializer of a name is finished. -/
theorem Current.finish {name : Bytes} {finished : Bool}
    (h : Current w id scope (scopes.bind name finished)) (hid : id ≠ globalScope)
    (hbound : (w.store.bound? id name).isSome) : Current w id scope (scopes.bind name true) := by
  generalize hs : scopes.bind name finished = inner at h
  cases h with
  | global => exact absurd rfl hid
  | nested hne _ hsize hfits howned =>
    subst hs
    have hne' : scopes ≠ [] := by simpa using hne
    refine .nested (by simpa using hne') hid hsize (hfits.finish hne' hbound) fun other hother => ?_
    obtain ⟨f,hfind⟩ := howned other hother
    rw [Scopes.find?_bind hne'] at hfind ⊢
    split at hfind
    · exact ⟨true,by simp_all⟩
    · exact ⟨f,by simp_all⟩

theorem Current.not_owned (h : Current w id scope scopes) (hlinked : Linked p w here m l)
    {name : Bytes} (hopen : scopes.Open name) : (id,name) ∉ w.owners := by
  intro ho
  cases h with
  | global => exact (hlinked.nested _ ho).1 rfl
  | nested _ _ _ _ howned =>
    obtain ⟨finished,hfind⟩ := howned name ho
    exact hopen finished hfind

/-- Making room for a name takes no step of the first machine. -/
theorem exists_declare (h : Linked p w here m l) (hcurrent : Current w here scope scopes)
    {name : Bytes} (hopen : scopes.Open name) :
    ∃ w' scope' slot l', Eval.declare name scope l = .ok (scope',slot) l' ∧
      w.Grows (some here) w' ∧ Linked p w' here m l' ∧
      Current w' here scope' (scopes.bind name false) ∧ Holds w' here name slot := by
  have hnew := hcurrent.not_owned h hopen
  have hnested := hcurrent
  cases hcurrent with
  | global => exact ⟨w,.global,.global name,l,rfl,.refl w,h,.global,.global name⟩
  | @nested _ names _ hne hid hsize hfits howned =>
    obtain ⟨hgrow,hlinked⟩ := h.allocate hid hsize hnew
    have howner : (w.owners ++ [(here,name)])[l.memory.cells.size]? = some (here,name) := by
      simp [h.size]
    exact ⟨_,.nested (names.insert name l.memory.cells.size),.cell l.memory.cells.size,_,rfl,hgrow,
      hlinked,hnested.bind false hgrow rfl howner (by simp),.cell howner⟩

/-- A declared name gets its value, which may refer to the name itself. -/
theorem simulates_fill (h : Linked p w here m l) {name : Bytes} {finished : Bool} {slot : Slot}
    (hcurrent : Current w here scope (scopes.bind name finished)) (hslot : Holds w here name slot)
    (hplain : IsPlain name) {v : Value} {v' : Value Names}
    (hv : ∀ w', w.Grows none w' → Current w' here scope (scopes.bind name true) →
      SameValue p w' v v') :
    Simulates p w current here
      (fun w' _ _ => Current w' here scope (scopes.bind name true) ∧ Holds w' here name slot)
      (Scriptlet.Eval.store here name v m) (Eval.fill slot v' l) := by
  cases hslot with
  | global =>
    obtain ⟨rfl,hnil⟩ := hcurrent.eq_global
    obtain rfl : scopes = [] := by simpa using hnil
    exact (simulates_storeGlobal h name (hv w (.refl w) .global)).mono
      fun _ _ _ _ _ => ⟨.global,.global name⟩
  | @cell _ _ cell howner =>
    have hgrow : w.Grows none _ := .define w here name v
    have hcurrent' := (hcurrent.grow hgrow).finish (h.nested _ (List.mem_of_getElem? howner)).1
      (by simp [Store.bound?_define (h.nested _ (List.mem_of_getElem? howner)).2])
    refine (simulates_store h howner (hv _ hgrow hcurrent') (keeps_of_isPlain hplain v)).mono ?_
    rintro w' _ _ - rfl
    exact ⟨hcurrent',.cell howner⟩

theorem simulates_superclass? (h : Linked p w here m l) (hfits : w.Fits here scopes names)
    {superclass : Option Token} (hparent : ∀ parent ∈ superclass, IsPlain parent.lexeme ∧
      scopes.Readable p.table parent) :
    Simulates p w none here
      (fun w' c c' => Option.Rel (SameClass p w') c c' ∧ c.isSome = superclass.isSome)
      (Scriptlet.Eval.superclass? ⟨p.table,vars⟩ superclass m)
      (Eval.superclass? names superclass l) := by
  cases superclass with
  | none => exact .pure h ⟨.none,rfl⟩
  | some parent =>
    obtain ⟨hplain,hread⟩ := hparent parent rfl
    refine Simulates.bind (simulates_lookUp h hfits hplain.2 hread) ?_
    rintro w' v v' m' l' hgrow hlinked hv
    cases hv with
    | class_ hc => exact .pure hlinked ⟨.some hc,rfl⟩
    | _ => exact .throw hlinked trivial

theorem simulates_methodScope (h : Linked p w here m l) (hfits : w.Fits id scopes names)
    {superclass : Option Token} {c : Option Class} {c' : Option (Class Names)}
    (hparent : Option.Rel (SameClass p w) c c') (hsome : c.isSome = superclass.isSome) :
    Simulates p w none here (fun w' env names' => w'.Fits env (scopes.aroundMethods superclass) names')
      (Scriptlet.Eval.methodScope id c m) (Eval.methodNames names c' l) := by
  cases hparent with
  | none =>
    obtain rfl : superclass = none := by cases superclass <;> simp_all
    exact .pure h hfits
  | some hc =>
    obtain ⟨parent,rfl⟩ := Option.isSome_iff_exists.1 hsome.symm
    exact simulates_newEnv h hfits (.class_ hc)
      ⟨fun heq => absurd heq (by decide),fun _ => ⟨_,rfl⟩⟩

theorem covers_of_allScoped {decls : List FunctionDecl} (hsettled : scopes.Settled)
    (h : FunctionDecl.AllScoped p.table scopes decls)
    (hbelow : ∀ x ∈ FunctionDecl.allRefs decls, x.index < p.limit) :
    ∀ decl ∈ decls, p.Covers scopes decl := by
  induction decls with
  | nil => simp
  | cons decl rest ih =>
    simp only [FunctionDecl.allRefs,List.mem_append] at hbelow
    exact List.forall_mem_cons.2 ⟨⟨hsettled,h.1,fun x hx => hbelow x (.inl hx)⟩,
      ih h.2 fun x hx => hbelow x (.inr hx)⟩

theorem sameClass_extending {b : ClassBody} {b' : ClassBody Names} (h : SameBody p w b b')
    {c : Option Class} {c' : Option (Class Names)} (hparent : Option.Rel (SameClass p w) c c') :
    SameClass p w (b.extending c) (b'.extending c') := by
  cases hparent with
  | none => exact .cons h .nil
  | some hc => exact .cons h hc

theorem simulates_define (h : Linked p w here m l) {name : Bytes} {finished : Bool} {slot : Slot}
    (hcurrent : Current w here scope (scopes.bind name finished)) (hslot : Holds w here name slot)
    (hplain : IsPlain name) {v : Value} {v' : Value Names}
    (hv : ∀ w', w.Grows none w' → Current w' here scope (scopes.bind name true) →
      SameValue p w' v v') :
    Simulates p w current here
      (fun w' _ _ => Current w' here scope (scopes.bind name true) ∧ Holds w' here name slot)
      (Scriptlet.Eval.define name v m) (Eval.fill slot v' l) := by
  have hdefine : Scriptlet.Eval.define name v m = Scriptlet.Eval.store here name v m := by
    rw [← h.current]
    rfl
  rw [hdefine]
  exact simulates_fill h hcurrent hslot hplain hv

theorem simulates_declareClass (h : Linked p w here m l) (hcurrent : Current w here scope scopes)
    (hsettled : scopes.Settled) {name : Token} {superclass : Option Token} {methods : List FunctionDecl}
    (hscoped : (Stmt.classDecl name superclass methods).Scoped p.table scopes)
    (hbelow : ∀ x ∈ FunctionDecl.allRefs methods, x.index < p.limit) :
    Simulates p w (some here) here
      (fun w' _ scope' => Current w' here scope' (scopes.bind name.lexeme true))
      (Scriptlet.Eval.declareClass ⟨p.table,vars⟩ name superclass methods m)
      (Eval.declareClass scope name superclass methods l) := by
  obtain ⟨⟨hplain,hopen⟩,hparent,hmethods⟩ := hscoped
  unfold Scriptlet.Eval.declareClass Eval.declareClass
  refine Simulates.andThen (simulates_superclass? h hcurrent.fits hparent) ?_
  rintro w₁ c c' m₁ l₁ hgrow₁ hlinked₁ ⟨hc,hsome⟩
  obtain ⟨w₂,scope',slot,l₂,hdeclare,hgrow₂,hlinked₂,hcurrent₂,hslot₂⟩ :=
    exists_declare hlinked₁ (hcurrent.grow hgrow₁) hopen
  refine (Simulates.bind_right hdeclare ?_).grow hgrow₂
  refine Simulates.andThen (simulates_define hlinked₂ hcurrent₂ hslot₂ hplain
    fun _ _ _ => .scalar .nil) ?_
  rintro w₃ _ _ m₃ l₃ hgrow₃ hlinked₃ ⟨hcurrent₃,hslot₃⟩
  have hc₃ := rel_mono (fun _ _ h => (h.grow hgrow₂).grow hgrow₃) hc
  show Simulates p w₃ _ here _ ((Scriptlet.Eval.methodScope m₃.memory.scope c >>= _) m₃) _
  rw [hlinked₃.current]
  refine Simulates.andThen (simulates_methodScope hlinked₃ hcurrent₃.fits hc₃ hsome) ?_
  rintro w₄ closure names m₄ l₄ hgrow₄ hlinked₄ hfits₄
  refine Simulates.andThen (simulates_newIdentity hlinked₄) ?_
  rintro w₅ i j m₅ l₅ hgrow₅ hlinked₅ rfl
  have hgrow := hgrow₄.trans hgrow₅
  have hcovers := covers_of_allScoped (hsettled.bind.insideClass superclass) hmethods hbelow
  have hbody := sameBody_declared (hfits₄.grow hgrow₅) hcovers j name.lexeme
  have hc₅ := rel_mono (fun _ _ h => h.grow hgrow) hc₃
  have hclass := SameValue.class_ (sameClass_extending hbody hc₅)
  exact (simulates_fill hlinked₅ (hcurrent₃.grow hgrow) (hslot₃.grow hgrow) hplain
    fun _ hgrow' _ => hclass.grow hgrow').map_right fun _ _ _ hq => hq.1

/-! ## Parameters -/

/-- The environment of a call takes its parameters one by one, as do the names. -/
theorem exists_bindParameters {s : Store} {params : List Token} {args : List Value}
    {args' : List (Value Names)} {bindings : NameMap Value}
    (hstore : w.store = s.push ⟨some id,bindings⟩)
    (h : Linked p w here { m with memory.store := s.push ⟨some id,bindings⟩ } l)
    (hcurrent : Current w s.size (.nested names) scopes) (hparams : scopes.CanDeclareAll params)
    (hargs : List.Forall₂ (SameValue p w) args args') (hlength : args.length = params.length) :
    ∃ bindings' w' names' l', Scriptlet.Eval.bindParameters params args bindings = some bindings' ∧
      Eval.bindParameters params args' names l = .ok names' l' ∧ w.Grows (some s.size) w' ∧
      Linked p w' here { m with memory.store := s.push ⟨some id,bindings'⟩ } l' ∧
      Current w' s.size (.nested names') (scopes.bindAll params) := by
  induction params generalizing w l names scopes args args' bindings with
  | nil => exact ⟨bindings,w,names,l,rfl,rfl,.refl w,h,hcurrent⟩
  | cons param params ih =>
    obtain ⟨v,args,rfl⟩ := List.exists_cons_of_length_eq_add_one hlength
    obtain ⟨v',rest,hv,hrest,rfl⟩ := List.forall₂_cons_left_iff.1 hargs
    obtain ⟨⟨hplain,hopen⟩,hparams⟩ := hparams
    obtain ⟨hid,hsize⟩ := hcurrent.ne_global
    obtain ⟨hgrow,hlinked⟩ := h.extend hid hsize (hcurrent.not_owned h hopen) hv
      (keeps_of_isPlain hplain v)
    have hdefine : w.store.define s.size param.lexeme v =
        s.push ⟨some id,bindings.insert param.lexeme v⟩ := by
      rw [hstore,Store.push_insert]
    have howner : (w.owners ++ [(s.size,param.lexeme)])[l.memory.cells.size]? =
        some (s.size,param.lexeme) := by
      simp [h.size]
    have hcurrent' := hcurrent.bind true hgrow rfl howner fun _ => by
      simp [Store.bound?_define hsize]
    obtain ⟨bindings',w',names',l',hmachine,hlexical,hgrow',hlinked',hcurrent'⟩ :=
      ih hdefine { hlinked with store := hdefine.symm } hcurrent' hparams
        (hrest.imp fun _ _ h => h.grow hgrow) (by simpa using hlength)
    exact ⟨bindings',w',names',l',hmachine,hlexical,hgrow.trans hgrow',hlinked',hcurrent'⟩

end

end Scriptlet.Lexical
