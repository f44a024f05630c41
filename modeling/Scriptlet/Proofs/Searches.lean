import Mathlib.Data.List.Nodup
import Mathlib.Data.List.Perm.Subperm
import Mathlib.Order.Bounds.Defs
import Scriptlet.Proofs.Environments

/-! # Search and distance

There are two ways from an environment to a binding: the search outwards for a name, and the walk over
a number of enclosing links. On a chain of environments that comes to an end, both lead to the same
binding if the walk goes as far as the nearest environment that binds the name. The search is bounded
by the number of environments; no chain is longer, since it never comes to an environment twice.
-/
namespace Scriptlet.Store

variable {s : Store} {id other : EnvId} {chain : List EnvId} {name key : Bytes} {value : Value}

/-- The environments from `id` on outwards, up to one that nothing encloses. -/
inductive Outward (s : Store) : EnvId → List EnvId → Prop
  | last {id : EnvId} {env : Env} : s.get? id = some env → env.enclosing = none → Outward s id [id]
  | link {id outer : EnvId} {env : Env} {rest : List EnvId} : s.get? id = some env →
      env.enclosing = some outer → Outward s outer rest → Outward s id (id :: rest)

/-- The environment that many links away binds the name. -/
def BindsAt (s : Store) (id : EnvId) (name : Bytes) (distance : Nat) : Prop :=
  ∃ holder, s.ancestor? id distance = some holder ∧ (s.bound? holder name).isSome

/-! ## Chains that come to an end -/

namespace Outward

theorem unique {chain' : List EnvId} (h : s.Outward id chain) (h' : s.Outward id chain') :
    chain' = chain := by
  induction h generalizing chain' with
  | last hget hnone =>
    cases h' with
    | last => rfl
    | link hget' hsome _ =>
      rw [hget] at hget'
      obtain rfl := Option.some.inj hget'
      rw [hnone] at hsome
      cases hsome
  | link hget hsome _ ih =>
    cases h' with
    | last hget' hnone =>
      rw [hget] at hget'
      obtain rfl := Option.some.inj hget'
      rw [hnone] at hsome
      cases hsome
    | link hget' hsome' hrest =>
      rw [hget] at hget'
      obtain rfl := Option.some.inj hget'
      rw [hsome] at hsome'
      obtain rfl := Option.some.inj hsome'
      rw [ih hrest]

/-- The chain of a member is the rest of the chain. -/
theorem of_mem (h : s.Outward id chain) (hmem : other ∈ chain) :
    ∃ rest, s.Outward other rest ∧ rest <:+ chain := by
  induction h with
  | last hget hnone =>
    obtain rfl := List.mem_singleton.1 hmem
    exact ⟨_,.last hget hnone,List.suffix_refl _⟩
  | link hget hsome hrest ih =>
    rcases List.mem_cons.1 hmem with rfl | hmem
    · exact ⟨_,.link hget hsome hrest,List.suffix_refl _⟩
    · obtain ⟨rest,hother,hsuffix⟩ := ih hmem
      exact ⟨rest,hother,hsuffix.trans (List.suffix_cons _ _)⟩

/-- No environment is met twice: from there on the chain would have to go on as before. -/
theorem nodup (h : s.Outward id chain) : chain.Nodup := by
  induction h with
  | last => exact List.nodup_singleton _
  | link hget hsome hrest ih =>
    refine List.nodup_cons.2 ⟨fun hmem => ?_,ih⟩
    obtain ⟨rest',hagain,hsuffix⟩ := hrest.of_mem hmem
    have hlength := hsuffix.length_le
    rw [(Outward.link hget hsome hrest).unique hagain,List.length_cons] at hlength
    exact Nat.not_succ_le_self _ hlength

theorem lt_size (h : s.Outward id chain) (hmem : other ∈ chain) : other < s.size := by
  obtain ⟨rest,hother,-⟩ := h.of_mem hmem
  cases hother with
  | last hget => exact lt_size_of_get? hget
  | link hget => exact lt_size_of_get? hget

theorem length_le (h : s.Outward id chain) : chain.length ≤ s.size := by
  have hrange : chain ⊆ List.range s.size := fun e he => List.mem_range.2 (h.lt_size he)
  simpa using (h.nodup.subperm hrange).length_le

theorem chainUpTo (h : s.Outward id chain) {limit : Nat} (hlimit : chain.length ≤ limit) :
    s.chainUpTo limit id = chain := by
  induction h generalizing limit with
  | last hget hnone =>
    obtain ⟨limit,rfl⟩ := Nat.exists_eq_add_one.2 hlimit
    simp [Store.chainUpTo,hget,hnone]
  | link hget hsome _ ih =>
    obtain ⟨limit,rfl⟩ := Nat.exists_eq_add_one.2 (Nat.zero_lt_of_lt hlimit)
    simp [Store.chainUpTo,hget,hsome,ih (Nat.le_of_succ_le_succ hlimit)]

/-- The search goes through the whole chain. -/
theorem chain_eq (h : s.Outward id chain) : s.chain id = chain := h.chainUpTo h.length_le

/-- The walk counts the members of the chain. -/
theorem ancestor?_eq (h : s.Outward id chain) (distance : Nat) :
    s.ancestor? id distance = chain[distance]? := by
  induction h generalizing distance with
  | last hget hnone =>
    cases distance with
    | zero => rfl
    | succ distance => simp [ancestor?,hget,hnone]
  | link hget hsome _ ih =>
    cases distance with
    | zero => rfl
    | succ distance => simp [ancestor?,hget,hsome,ih]

/-- The search finds the nearest environment that binds the name. -/
theorem holder?_of_isLeast (h : s.Outward id chain) {distance : Nat} {holder : EnvId}
    (hleast : IsLeast {d | s.BindsAt id name d} distance)
    (hholder : s.ancestor? id distance = some holder) : s.holder? id name = some holder := by
  obtain ⟨⟨holder',hholder',hbound⟩,hlower⟩ := hleast
  rw [hholder] at hholder'
  obtain rfl := Option.some.inj hholder'
  rw [h.ancestor?_eq] at hholder
  obtain ⟨hlt,hget⟩ := List.getElem?_eq_some_iff.1 hholder
  rw [holder?,h.chain_eq,List.find?_eq_some_iff_getElem]
  refine ⟨hbound,distance,hlt,hget,fun nearer hnearer => ?_⟩
  have hunbound : ¬ s.BindsAt id name nearer := fun hbinds => Nat.not_le.2 hnearer (hlower hbinds)
  have hmember : s.ancestor? id nearer = some chain[nearer] := by
    rw [h.ancestor?_eq,List.getElem?_eq_getElem]
  simpa using fun hsome => hunbound ⟨_,hmember,hsome⟩

theorem holder?_eq_none (h : s.Outward id chain) (hnone : ∀ e ∈ chain, s.bound? e name = none) :
    s.holder? id name = none := by
  rw [holder?,h.chain_eq,List.find?_eq_none]
  intro e he
  simp [hnone e he]

end Outward

/-! ## Binding a name -/

theorem enclosing_define (holder e : EnvId) :
    ((s.define holder name value).get? e).map Env.enclosing = (s.get? e).map Env.enclosing := by
  rw [get?_define,Option.map_map]
  congr 1
  funext env
  simp only [Function.comp_apply]
  split <;> rfl

theorem get?_define_of_none (holder : EnvId) (h : s.get? id = none) :
    (s.define holder name value).get? id = none := by
  rw [get?_define,h]
  rfl

theorem get?_define_of_some (holder : EnvId) (name : Bytes) (value : Value) {env : Env}
    (h : s.get? id = some env) :
    ∃ env', (s.define holder name value).get? id = some env' ∧ env'.enclosing = env.enclosing := by
  have hlinks : ((s.define holder name value).get? id).map Env.enclosing = _ := enclosing_define holder id
  rw [h] at hlinks
  exact Option.map_eq_some_iff.1 hlinks

/-- A walk only looks at the links. -/
theorem ancestor?_define (holder : EnvId) (distance : Nat) :
    (s.define holder name value).ancestor? id distance = s.ancestor? id distance := by
  induction distance generalizing id with
  | zero => rfl
  | succ distance ih =>
    rw [ancestor?,ancestor?]
    cases hget : s.get? id with
    | none => rw [get?_define_of_none holder hget]
    | some env =>
      obtain ⟨env',hget',hsame⟩ := get?_define_of_some holder name value hget
      simp only [hget',hsame,ih]

theorem chainUpTo_define (holder : EnvId) (limit : Nat) :
    (s.define holder name value).chainUpTo limit id = s.chainUpTo limit id := by
  induction limit generalizing id with
  | zero => rfl
  | succ limit ih =>
    rw [chainUpTo,chainUpTo]
    cases hget : s.get? id with
    | none => rw [get?_define_of_none holder hget]
    | some env =>
      obtain ⟨env',hget',hsame⟩ := get?_define_of_some holder name value hget
      simp only [hget',hsame,ih]

theorem bound?_define_of_ne (holder e : EnvId) (hkey : key ≠ name) :
    (s.define holder name value).bound? e key = s.bound? e key := by
  rw [bound?,get?_define,bound?,Option.bind_map]
  congr 1
  funext env
  simp only [Function.comp_apply]
  split
  · rw [NameMap.get?_insert,if_neg (by simpa using hkey)]
  · rfl

theorem read_define_of_ne (holder : EnvId) (hkey : key ≠ name) :
    (s.define holder name value).read id key = s.read id key := by
  have hbound : ∀ e, (s.define holder name value).bound? e key = s.bound? e key :=
    fun e => bound?_define_of_ne holder e hkey
  rw [read,read,holder?,holder?,chain,chain,size_define,chainUpTo_define]
  simp only [hbound]

theorem readAt?_define_of_ne (holder : EnvId) (distance : Nat) (hkey : key ≠ name) :
    (s.define holder name value).readAt? id distance key = s.readAt? id distance key := by
  rw [readAt?,readAt?,ancestor?_define]
  simp only [bound?_define_of_ne holder _ hkey]

theorem Outward.define (h : s.Outward id chain) (holder : EnvId) :
    (s.define holder name value).Outward id chain := by
  induction h with
  | last hget hnone =>
    obtain ⟨env',hget',hsame⟩ := get?_define_of_some holder name value hget
    exact .last hget' (hsame.trans hnone)
  | link hget hsome _ ih =>
    obtain ⟨env',hget',hsame⟩ := get?_define_of_some holder name value hget
    exact .link hget' (hsame.trans hsome) ih

/-- A name that is given a value where it is bound is bound at the same distances as before. -/
theorem bindsAt_define {holder : EnvId} (hholder : (s.bound? holder name).isSome) (distance : Nat) :
    (s.define holder name value).BindsAt id name distance ↔ s.BindsAt id name distance := by
  have hlt : holder < s.size := by
    obtain ⟨x,hx⟩ := Option.isSome_iff_exists.1 hholder
    obtain ⟨env,hget,-⟩ := Option.bind_eq_some_iff.1 hx
    exact lt_size_of_get? hget
  have hsame : ∀ e, ((s.define holder name value).bound? e name).isSome = (s.bound? e name).isSome := by
    intro e
    rw [bound?_define hlt]
    by_cases he : holder = e
    · subst he
      simp [hholder]
    · simp [he]
  simp only [BindsAt,ancestor?_define,hsame]

/-! ## Both ways agree -/

/-- What both ways read at the nearest binding. -/
theorem Outward.reads (h : s.Outward id chain) {distance : Nat} {holder : EnvId} {x : Value}
    (hleast : IsLeast {d | s.BindsAt id name d} distance)
    (hholder : s.ancestor? id distance = some holder) (hbound : s.bound? holder name = some x) :
    s.read id name = initialized name x ∧ s.readAt? id distance name = some (initialized name x) := by
  constructor
  · rw [read,h.holder?_of_isLeast hleast hholder,Option.bind_some,hbound]
  · simp [readAt?,hholder,hbound]

theorem initialized_of_ne (hvalue : value ≠ .uninitialized) : initialized name value = .ok value := by
  cases value with
  | uninitialized => exact absurd rfl hvalue
  | _ => rfl

/-- The walk to the nearest binding of a name agrees with the search for it, on every chain of
environments that comes to an end. Both read the same value, or fail in the same way if the variable
has none. Both give it a new value in the same store, in which nothing else has changed: the
environments are linked as before, no other binding is another one, both ways now read the new value,
and from every environment all other names read as before. If the chain does not bind the name, the
search fails to read it and to give it a value. -/
theorem distance_agrees_with_search (s : Store) (id : EnvId) (chain : List EnvId)
    (h : s.Outward id chain) (name : Bytes) :
    (∀ distance, IsLeast {d | s.BindsAt id name d} distance →
      ∃ holder x, chain[distance]? = some holder ∧ s.bound? holder name = some x ∧
        s.readAt? id distance name = some (s.read id name) ∧
        (x = .uninitialized → s.read id name = .error (.uninitializedVariable name)) ∧
        (x ≠ .uninitialized → s.read id name = .ok x) ∧
        ∀ value, ∃ s', s.assign id name value = .ok s' ∧
          s.assignAt? id distance name value = some s' ∧ s'.Outward id chain ∧
          (∀ e, (s'.get? e).map Env.enclosing = (s.get? e).map Env.enclosing) ∧
          (∀ e key, s'.bound? e key =
            if holder = e ∧ key = name then some value else s.bound? e key) ∧
          (value ≠ .uninitialized →
            s'.read id name = .ok value ∧ s'.readAt? id distance name = some (.ok value)) ∧
          ∀ e key, key ≠ name → s'.read e key = s.read e key ∧
            ∀ d, s'.readAt? e d key = s.readAt? e d key) ∧
    ((∀ e ∈ chain, s.bound? e name = none) →
      s.read id name = .error (.undefinedVariable name) ∧
      ∀ value, s.assign id name value = .error (.undefinedVariable name)) := by
  constructor
  · intro distance hleast
    obtain ⟨holder,hholder,hsome⟩ := hleast.1
    obtain ⟨x,hx⟩ := Option.isSome_iff_exists.1 hsome
    have hmember : chain[distance]? = some holder := by rw [← h.ancestor?_eq,hholder]
    have hlt : holder < s.size := h.lt_size (List.mem_of_getElem? hmember)
    obtain ⟨hread,hreadAt⟩ := h.reads hleast hholder hx
    refine ⟨holder,x,hmember,hx,by rw [hreadAt,hread],?_,?_,?_⟩
    · rintro rfl
      exact hread
    · intro hne
      rw [hread,initialized_of_ne hne]
    · intro value
      refine ⟨s.define holder name value,?_,?_,h.define holder,enclosing_define holder,
        fun e key => bound?_define hlt,?_,?_⟩
      · rw [assign,h.holder?_of_isLeast hleast hholder]
      · rw [assignAt?,hholder,Option.map_some]
      · intro hne
        have hleast' : IsLeast {d | (s.define holder name value).BindsAt id name d} distance := by
          simpa only [bindsAt_define hsome] using hleast
        have hbound : (s.define holder name value).bound? holder name = some value := by
          rw [bound?_define hlt,if_pos ⟨rfl,rfl⟩]
        have hreads := (h.define holder).reads hleast' (by rw [ancestor?_define,hholder]) hbound
        rwa [initialized_of_ne hne] at hreads
      · intro e key hkey
        exact ⟨read_define_of_ne holder hkey,fun d => readAt?_define_of_ne holder d hkey⟩
  · intro hnone
    have hholder := h.holder?_eq_none hnone
    refine ⟨?_,fun value => ?_⟩
    · rw [read,hholder]
      rfl
    · rw [assign,hholder]

/-- A variable without a value hides one of the same name, two links away from it. A third name is not
bound at all. -/
theorem distance_agrees_with_search_hidden :
    let a := utf8 "a"
    let b := utf8 "b"
    let s : Store := ⟨#[⟨none,.ofList [(a,.nil)]⟩,⟨some 0,.ofList [(a,.uninitialized)]⟩,
      ⟨some 1,.empty⟩]⟩
    s.Outward 2 [2,1,0] ∧ IsLeast {d | s.BindsAt 2 a d} 1 ∧
      s.readAt? 2 1 a = some (s.read 2 a) ∧ s.read 2 a = .error (.uninitializedVariable a) ∧
      (∃ s', s.assign 2 a (.bool true) = .ok s' ∧ s.assignAt? 2 1 a (.bool true) = some s' ∧
        s'.read 2 a = .ok (.bool true) ∧ s'.bound? 0 a = some .nil) ∧
      s.read 2 b = .error (.undefinedVariable b) := by
  intro a b s
  have hchain : s.Outward 2 [2,1,0] := .link rfl rfl (.link rfl rfl (.last rfl rfl))
  have hleast : IsLeast {d | s.BindsAt 2 a d} 1 := by
    refine ⟨⟨1,rfl,rfl⟩,fun d hd => Nat.one_le_iff_ne_zero.2 ?_⟩
    rintro rfl
    obtain ⟨holder,hholder,hbound⟩ := hd
    cases hholder
    cases hbound
  obtain ⟨holder,x,hmember,hx,hreadAt,hunset,-,hwrites⟩ :=
    (distance_agrees_with_search s 2 [2,1,0] hchain a).1 1 hleast
  cases hmember
  cases hx
  obtain ⟨s',hassign,hassignAt,-,-,hbound,hreads,-⟩ := hwrites (.bool true)
  refine ⟨hchain,hleast,hreadAt,hunset rfl,⟨s',hassign,hassignAt,(hreads nofun).1,hbound 0 a⟩,?_⟩
  exact ((distance_agrees_with_search s 2 [2,1,0] hchain b).2 (by decide)).1

end Scriptlet.Store
