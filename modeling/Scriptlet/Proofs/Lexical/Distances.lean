import Scriptlet.Proofs.Calls
import Scriptlet.Proofs.Lexical.Sessions
import Scriptlet.Proofs.Visits

/-! # Distances lead to bindings

The resolver and the evaluator walk separately, one over static scopes and one along chains of
environments, and never drift apart: wherever a run evaluates a name that has a distance, that many
links lead to an environment that binds the name. The invariant is that each visit of a run has its
counterpart on the lexical machine; calls keep it.
-/
namespace Scriptlet.Lexical

/-- A visit that has a counterpart on the lexical machine. -/
inductive Sound (p : Places) : Visit → Prop
  | expr {n e m w here l scopes names} : Linked p w here m l → w.Fits here scopes names →
      e.Scoped p.table scopes → Sound p ⟨n,.expr e,m⟩
  | exprs {n es m w here l scopes names} : Linked p w here m l → w.Fits here scopes names →
      Expr.AllScoped p.table scopes es → Sound p ⟨n,.exprs es,m⟩
  | call {n paren callee args m w here l callee' args'} : Linked p w here m l →
      SameValue p w callee callee' → List.Forall₂ (SameValue p w) args args' →
      Sound p ⟨n,.call paren callee args,m⟩
  | invoke {n paren f args m w here l g args'} : Linked p w here m l → SameCallable p w f g →
      List.Forall₂ (SameValue p w) args args' → args.length = f.arity →
      Sound p ⟨n,.invoke paren f args,m⟩
  | stmt {n s m w here l scope scopes} : Linked p w here m l → Current w here scope scopes →
      scopes.Settled → s.Scoped p.table scopes → (∀ x ∈ s.refs, x.index < p.limit) → Sound p ⟨n,.stmt s,m⟩
  | stmts {n ss m w here l scope scopes} : Linked p w here m l → Current w here scope scopes →
      scopes.Settled → Stmt.AllScoped p.table scopes ss → (∀ x ∈ Stmt.allRefs ss, x.index < p.limit) →
      Sound p ⟨n,.stmts ss,m⟩

section

variable {α β : Type} {p : Places} {vars : NameMap Bytes} {w : World} {current : Option EnvId}
  {here : EnvId} {scope : Scope} {scopes : Scopes} {names : Names} {m m' : Scriptlet.Machine}
  {l : Machine} {n : Nat}

theorem Simulates.of_error {Q : World → α → β → Prop}
    {r : EStateM.Result Abort Scriptlet.Machine α} {r' : EStateM.Result Abort Machine β}
    (h : Simulates p w current here Q r r') {e : Abort} (hr : r = .error e m') : Ordinary e := by
  subst hr
  cases r' with
  | ok b l' => exact h.elim
  | error e' l' => exact h.2.1

theorem Simulates.of_ok {Q : World → α → β → Prop} {r : EStateM.Result Abort Scriptlet.Machine α}
    {r' : EStateM.Result Abort Machine β} (h : Simulates p w current here Q r r') {a : α}
    (hr : r = .ok a m') : ∃ w' l' b, w.Grows current w' ∧ Linked p w' here m' l' ∧ Q w' a b := by
  subst hr
  cases r' with
  | ok b l' =>
    obtain ⟨w',hgrow,hlinked,hq⟩ := h
    exact ⟨w',l',b,hgrow,hlinked,hq⟩
  | error e l' => exact h.elim

/-- The state after an expression. -/
theorem linked_after_expr {e : Expr} {v : Value} (h : Linked p w here m l)
    (hfits : w.Fits here scopes names) (hscoped : e.Scoped p.table scopes)
    (he : Scriptlet.Eval.expr ⟨p.table,vars⟩ n e m = .ok v m') :
    ∃ w' l' v', w.Grows none w' ∧ Linked p w' here m' l' ∧ SameValue p w' v v' :=
  ((Matching.all p vars n).expr e h hfits hscoped).of_ok he

/-- A new environment, with a counterpart that binds nothing yet. -/
theorem exists_inner (h : Linked p w here m l) (id : EnvId) (hfits : w.Fits id scopes names)
    {env : EnvId} (henv : Scriptlet.Eval.newEnv id .empty m = .ok env m') :
    ∃ w', Linked p w' env { m' with memory.scope := env } l ∧
      Current w' env (.nested names) (.empty :: scopes) := by
  cases henv
  have hlinked := (h.push id).2.enter w.store.size
  rw [h.store] at hlinked ⊢
  exact ⟨_,hlinked,.inner h hfits⟩

/-- A visit of expressions in given scopes, with a counterpart on the lexical machine. -/
inductive Seated (p : Places) (here : EnvId) (scopes : Scopes) : Visit → Prop
  | expr {n e m w l names} : Linked p w here m l → w.Fits here scopes names →
      e.Scoped p.table scopes → Seated p here scopes ⟨n,.expr e,m⟩
  | exprs {n es m w l names} : Linked p w here m l → w.Fits here scopes names →
      Expr.AllScoped p.table scopes es → Seated p here scopes ⟨n,.exprs es,m⟩

theorem Seated.sound {v : Visit} (h : Seated p here scopes v) : Sound p v := by
  cases h with
  | expr hlinked hfits hscoped => exact .expr hlinked hfits hscoped
  | exprs hlinked hfits hscoped => exact .exprs hlinked hfits hscoped

/-- Parts of an expression are evaluated in the scopes of the expression. -/
theorem seated_of_expr {e : Expr} {v : Visit} (h : Linked p w here m l)
    (hfits : w.Fits here scopes names) (hscoped : e.Scoped p.table scopes)
    (hcall : Visit.Calls ⟨p.table,vars⟩ ⟨n,.expr e,m⟩ v) (hv : v.task.IsExpr) :
    Seated p here scopes v := by
  cases hcall with
  | grouping | operand | getObject => exact .expr h hfits hscoped
  | assigned => exact .expr h hfits hscoped.1
  | binaryLeft | logicalLeft | setValue | callee => exact .expr h hfits hscoped.1
  | binaryRight hl | setObject hl =>
    obtain ⟨w',l',v',hgrow,hlinked,-⟩ := linked_after_expr h hfits hscoped.1 hl
    exact .expr hlinked (hfits.grow hgrow) hscoped.2
  | logicalRight hl _ =>
    obtain ⟨w',l',v',hgrow,hlinked,-⟩ := linked_after_expr h hfits hscoped.1 hl
    exact .expr hlinked (hfits.grow hgrow) hscoped.2
  | arguments hf =>
    obtain ⟨w',l',v',hgrow,hlinked,-⟩ := linked_after_expr h hfits hscoped.1 hf
    exact .exprs hlinked (hfits.grow hgrow) hscoped.2
  | application => exact hv.elim

theorem seated_of_exprs {es : List Expr} {v : Visit} (h : Linked p w here m l)
    (hfits : w.Fits here scopes names) (hscoped : Expr.AllScoped p.table scopes es)
    (hcall : Visit.Calls ⟨p.table,vars⟩ ⟨n,.exprs es,m⟩ v) : Seated p here scopes v := by
  cases hcall with
  | firstExpr => exact .expr h hfits hscoped.1
  | restExprs he =>
    obtain ⟨w',l',v',hgrow,hlinked,-⟩ := linked_after_expr h hfits hscoped.1 he
    exact .exprs hlinked (hfits.grow hgrow) hscoped.2

/-- Calls from an expression. -/
theorem sound_of_expr {e : Expr} {v : Visit} (h : Linked p w here m l)
    (hfits : w.Fits here scopes names) (hscoped : e.Scoped p.table scopes)
    (hcall : Visit.Calls ⟨p.table,vars⟩ ⟨n,.expr e,m⟩ v) : Sound p v := by
  by_cases hv : v.task.IsExpr
  · exact (seated_of_expr h hfits hscoped hcall hv).sound
  · cases hcall with
    | application hf hargs =>
      obtain ⟨w₁,l₁,v',hgrow₁,hlinked₁,hv⟩ := linked_after_expr h hfits hscoped.1 hf
      obtain ⟨w₂,l₂,args',hgrow₂,hlinked₂,hsame⟩ :=
        ((Matching.all p vars _).exprs _ hlinked₁ (hfits.grow hgrow₁) hscoped.2).of_ok hargs
      exact .call hlinked₂ (hv.grow hgrow₂) hsame
    | _ => exact absurd trivial hv

theorem sound_of_call {paren : Token} {callee : Value} {callee' : Value Names} {args : List Value}
    {args' : List (Value Names)} {v : Visit} (h : Linked p w here m l)
    (hcallee : SameValue p w callee callee') (hargs : List.Forall₂ (SameValue p w) args args')
    (hcall : Visit.Calls ⟨p.table,vars⟩ ⟨n,.call paren callee args,m⟩ v) : Sound p v := by
  cases hcall with
  | function hlength =>
    cases hcallee with
    | function _ hf => exact .invoke h hf hargs hlength
  | @initializer _ _ _ c _ method _ _ _ _ hmethod hlength hobject hbind =>
    cases hcallee with
    | @class_ _ c' hc =>
      have hfound := hc.findMethod? initializerName
      rw [hmethod] at hfound
      generalize c'.findMethod? initializerName = g at hfound
      cases hfound with
      | some hmethod =>
        have hnew : Simulates p w none here _ _ _ := simulates_newObject h hc
        obtain ⟨w₁,l₁,o',hgrow₁,hlinked₁,ho,id,rfl⟩ := hnew.of_ok hobject
        obtain ⟨w₂,l₂,f',hgrow₂,hlinked₂,hf,hdecl⟩ :=
          (simulates_bind hlinked₁ (hmethod.grow hgrow₁) ho ⟨c,id,rfl⟩).of_ok hbind
        refine .invoke hlinked₂ hf (hargs.imp fun _ _ hv => (hv.grow hgrow₁).grow hgrow₂) ?_
        rw [hlength,Function.arity,Function.arity,hdecl]

theorem sound_of_invoke {paren : Token} {f : Function} {g : Function Names} {args : List Value}
    {args' : List (Value Names)} {v : Visit} (h : Linked p w here m l) (hf : SameCallable p w f g)
    (hargs : List.Forall₂ (SameValue p w) args args') (hlength : args.length = f.arity)
    (hcall : Visit.Calls ⟨p.table,vars⟩ ⟨n,.invoke paren f args,m⟩ v) : Sound p v := by
  cases hcall with
  | @body _ _ _ _ _ bindings _ _ hparams henv =>
    cases henv
    obtain ⟨scopes,hsame,-⟩ := hf
    obtain ⟨hdeclare,hbody⟩ := FunctionDecl.scoped_iff.1 hsame.covers.wellScoped
    obtain ⟨hgrow,hlinked⟩ := h.push f.closure
    rw [h.store] at hlinked ⊢
    obtain ⟨bindings',w',names,l',hmachine,-,-,hlinked',hcurrent'⟩ :=
      exists_bindParameters rfl hlinked (.inner h hsame.closure) hdeclare
        (hargs.imp fun _ _ hv => hv.grow hgrow) hlength
    obtain rfl : bindings' = bindings := Option.some.inj (hmachine.symm.trans hparams)
    exact .stmts (hlinked'.enter w.store.size) hcurrent'
      (hsame.covers.settled.inner.bindAll f.decl.params) hbody
      (FunctionDecl.refs_eq f.decl ▸ hsame.covers.below)

theorem sound_of_stmt {s : Stmt} {v : Visit} (h : Linked p w here m l)
    (hcurrent : Current w here scope scopes) (hsettled : scopes.Settled)
    (hscoped : s.Scoped p.table scopes) (hbelow : ∀ x ∈ s.refs, x.index < p.limit)
    (hcall : Visit.Calls ⟨p.table,vars⟩ ⟨n,.stmt s,m⟩ v) : Sound p v := by
  cases hcall with
  | expression | print | returned => exact .expr h hcurrent.fits hscoped
  | initial =>
    obtain ⟨⟨hplain,hopen⟩,hvalue⟩ := hscoped
    obtain ⟨w',scope',slot,l',-,-,hlinked,hcurrent',-⟩ := exists_declare h hcurrent hopen
    exact .expr hlinked hcurrent'.fits hvalue
  | block henv =>
    rw [h.current] at henv
    obtain ⟨w',hlinked,hinner⟩ := exists_inner h here hcurrent.fits henv
    exact .stmts hlinked hinner hsettled.inner hscoped hbelow
  | @ifCondition _ _ _ _ elseBranch =>
    cases elseBranch with
    | none => exact .expr h hcurrent.fits hscoped.1
    | some s => exact .expr h hcurrent.fits hscoped.1
  | @thenBranch _ _ _ _ elseBranch _ _ hc _ =>
    cases elseBranch with
    | none =>
      simp only [Stmt.refs,List.mem_append] at hbelow
      obtain ⟨w',l',v',hgrow,hlinked,-⟩ := linked_after_expr h hcurrent.fits hscoped.1 hc
      exact .stmt hlinked (hcurrent.grow hgrow) hsettled hscoped.2.2 fun x hx => hbelow x (.inr hx)
    | some s =>
      simp only [Stmt.refs,List.mem_append] at hbelow
      obtain ⟨w',l',v',hgrow,hlinked,-⟩ := linked_after_expr h hcurrent.fits hscoped.1 hc
      exact .stmt hlinked (hcurrent.grow hgrow) hsettled hscoped.2.1.2 fun x hx => hbelow x (.inr (.inl hx))
  | elseBranch hc _ =>
    simp only [Stmt.refs,List.mem_append] at hbelow
    obtain ⟨w',l',v',hgrow,hlinked,-⟩ := linked_after_expr h hcurrent.fits hscoped.1 hc
    exact .stmt hlinked (hcurrent.grow hgrow) hsettled hscoped.2.2.2 fun x hx => hbelow x (.inr (.inr hx))
  | whileCondition => exact .expr h hcurrent.fits hscoped.1
  | whileBody hc _ =>
    simp only [Stmt.refs,List.mem_append] at hbelow
    obtain ⟨w',l',v',hgrow,hlinked,-⟩ := linked_after_expr h hcurrent.fits hscoped.1 hc
    exact .stmt hlinked (hcurrent.grow hgrow) hsettled hscoped.2.2 fun x hx => hbelow x (.inr hx)
  | @whileAgain _ _ _ body _ _ _ hc _ hbody =>
    have hrefs := hbelow
    simp only [Stmt.refs,List.mem_append] at hbelow
    obtain ⟨w₁,l₁,v',hgrow₁,hlinked₁,-⟩ := linked_after_expr h hcurrent.fits hscoped.1 hc
    have hcurrent₁ := hcurrent.grow hgrow₁
    obtain ⟨w₂,l₂,r,hgrow₂,hlinked₂,-,hcurrent₂⟩ := ((Matching.all p vars _).stmt body hlinked₁
      hcurrent₁ hsettled hscoped.2.2 fun x hx => hbelow x (.inr hx)).of_ok hbody
    rw [Scopes.after,hscoped.2.1] at hcurrent₂
    exact .stmt hlinked₂ (hcurrent₁.renew hgrow₂ hcurrent₂) hsettled hscoped hrefs

theorem sound_of_stmts {ss : List Stmt} {v : Visit} (h : Linked p w here m l)
    (hcurrent : Current w here scope scopes) (hsettled : scopes.Settled)
    (hscoped : Stmt.AllScoped p.table scopes ss) (hbelow : ∀ x ∈ Stmt.allRefs ss, x.index < p.limit)
    (hcall : Visit.Calls ⟨p.table,vars⟩ ⟨n,.stmts ss,m⟩ v) : Sound p v := by
  cases hcall with
  | firstStmt =>
    exact .stmt h hcurrent hsettled hscoped.1 fun x hx => hbelow x (by simp [Stmt.allRefs,hx])
  | restStmts hs =>
    obtain ⟨w',l',r,-,hlinked,-,hnext⟩ := ((Matching.all p vars _).stmt _ h hcurrent hsettled hscoped.1
      fun x hx => hbelow x (by simp [Stmt.allRefs,hx])).of_ok hs
    exact .stmts hlinked hnext (hsettled.after _) hscoped.2
      fun x hx => hbelow x (by simp [Stmt.allRefs,hx])

/-- A call keeps the counterpart. -/
theorem Sound.of_calls {u v : Visit} (h : Sound p u) (hcall : Visit.Calls ⟨p.table,vars⟩ u v) :
    Sound p v := by
  cases h with
  | expr hlinked hfits hscoped => exact sound_of_expr hlinked hfits hscoped hcall
  | exprs hlinked hfits hscoped => exact (seated_of_exprs hlinked hfits hscoped hcall).sound
  | call hlinked hcallee hargs => exact sound_of_call hlinked hcallee hargs hcall
  | invoke hlinked hf hargs hlength => exact sound_of_invoke hlinked hf hargs hlength hcall
  | stmt hlinked hcurrent hsettled hscoped hbelow =>
    exact sound_of_stmt hlinked hcurrent hsettled hscoped hbelow hcall
  | stmts hlinked hcurrent hsettled hscoped hbelow =>
    exact sound_of_stmts hlinked hcurrent hsettled hscoped hbelow hcall

theorem Sound.of_reaches {u v : Visit} (h : Sound p u)
    (hreach : Visit.Reaches ⟨p.table,vars⟩ u v) : Sound p v := by
  induction hreach with
  | self => exact h
  | call _ hcall ih => exact ih.of_calls hcall

/-! ## Names at their distances -/

/-- A number of links leads from the current environment to one that binds a name. -/
def Finds (m : Scriptlet.Machine) (distance : Nat) (name : Bytes) : Prop :=
  ∃ holder, m.memory.store.ancestor? m.memory.scope distance = some holder ∧
    (m.memory.store.bound? holder name).isSome

/-- The occurrence of a name that a task reads first, and the name it is bound under. A class reads
the name of its superclass. -/
def occurrence? : Task → Option (Token × Bytes)
  | .expr (.variable_ name) => some (name,name.lexeme)
  | .expr (.self keyword) => some (keyword,thisName)
  | .expr (.superMethod keyword _) => some (keyword,superName)
  | .stmt (.classDecl _ (some parent) _) => some (parent,parent.lexeme)
  | _ => none

theorem finds_of_fits (h : Linked p w here m l) (hfits : w.Fits here scopes names) {name : Bytes}
    {distance : Nat} (hfind : scopes.find? name = some (distance,true)) : Finds m distance name := by
  obtain ⟨holder,cell,hholder,-,-,hbound⟩ := hfits.found hfind
  rw [Finds,h.store,h.current]
  exact ⟨holder,hholder,hbound rfl⟩

theorem finds_of_readable (h : Linked p w here m l) (hfits : w.Fits here scopes names)
    {name : Token} {distance : Nat} (hread : scopes.Readable p.table name)
    (hentry : p.table[name.index]? = some distance) : Finds m distance name.lexeme := by
  obtain ⟨hlocated,hfinished⟩ := hread
  rw [Scopes.Located,hentry] at hlocated
  obtain ⟨⟨d,finished⟩,hfind,rfl⟩ := Option.map_eq_some_iff.1 hlocated.symm
  cases finished with
  | false => exact absurd hfind (hfinished d)
  | true => exact finds_of_fits h hfits hfind

theorem Sound.finds {v : Visit} (h : Sound p v) {token : Token} {name : Bytes} {distance : Nat}
    (hoccurrence : occurrence? v.task = some (token,name))
    (hentry : p.table[token.index]? = some distance) : Finds v.machine distance name := by
  cases h with
  | @expr _ e _ _ _ _ _ _ hlinked hfits hscoped =>
    cases e with
    | variable_ x =>
      cases hoccurrence
      exact finds_of_readable hlinked hfits hscoped.2 hentry
    | self keyword =>
      cases hoccurrence
      rw [← hscoped.1]
      exact finds_of_readable hlinked hfits hscoped.2 hentry
    | superMethod keyword method =>
      cases hoccurrence
      obtain ⟨d,hd,hsuper,-⟩ := hscoped
      obtain rfl : d + 1 = distance := by simpa [hd] using hentry
      exact finds_of_fits hlinked hfits hsuper
    | _ => cases hoccurrence
  | @stmt _ s _ _ _ _ _ _ hlinked hcurrent _ hscoped _ =>
    cases s with
    | classDecl x superclass methods =>
      cases superclass with
      | none => cases hoccurrence
      | some parent =>
        cases hoccurrence
        exact finds_of_readable hlinked hcurrent.fits (hscoped.2.1 token rfl).2 hentry
    | _ => cases hoccurrence
  | _ => cases hoccurrence

/-- Where `super` is used, the instance is bound one environment further in. -/
theorem Sound.finds_this {keyword method : Token}
    (h : Sound p ⟨n,.expr (.superMethod keyword method),m⟩) :
    ∃ d, p.table[keyword.index]? = some (d + 1) ∧ Finds m d thisName := by
  cases h with
  | expr hlinked hfits hscoped =>
    obtain ⟨d,hd,-,hthis⟩ := hscoped
    exact ⟨d,hd,finds_of_fits hlinked hfits hthis⟩

/-- An assignment can follow its distance too. -/
theorem Sound.ancestor {name : Token} {value : Expr} {distance : Nat}
    (h : Sound p ⟨n,.expr (.assign name value),m⟩) (hentry : p.table[name.index]? = some distance) :
    (m.memory.store.ancestor? m.memory.scope distance).isSome := by
  cases h with
  | expr hlinked hfits hscoped =>
    have hlocated := hscoped.2.2
    rw [Scopes.Located,hentry] at hlocated
    obtain ⟨⟨d,finished⟩,hfind,rfl⟩ := Option.map_eq_some_iff.1 hlocated.symm
    obtain ⟨holder,cell,hholder,-⟩ := hfits.found hfind
    rw [hlinked.store,hlinked.current,hholder]
    rfl

theorem Sound.arity {paren : Token} {f : Function} {args : List Value}
    (h : Sound p ⟨n,.invoke paren f args,m⟩) : args.length = f.decl.params.length := by
  cases h with
  | invoke _ _ _ hlength => exact hlength

end

/-! ## Histories -/

theorem exists_agrees (clock : Clock) (history : List Request) :
    ∃ t, Agrees ((Scriptlet.Session.start clock).after history) t :=
  Scriptlet.Session.after_induction (P := fun s => ∃ t, Agrees s t) ⟨_,agrees_start clock⟩
    (fun _ r ⟨_,h⟩ => ⟨_,(h.perform r).2⟩) history

theorem Agrees.past {s : Scriptlet.Session} {t : Session} (h : Agrees s t) (source : Bytes) :
    Agrees (s.past (load s.nextIndex source).tokens)
      { t with nextIndex := t.nextIndex + (load s.nextIndex source).tokens.length } := by
  obtain ⟨w,hlinked⟩ := h.linked
  refine ⟨by rw [h.nextIndex]; rfl,fun i hi => ?_,w,?_⟩
  · exact h.free i (Nat.le_trans (Nat.le_add_right _ _) hi)
  · exact hlinked.later ⟨Nat.le_add_right _ _,fun _ _ => rfl⟩

theorem exists_agrees_afterCalls (clock : Clock) (calls : List Scriptlet.Session.Call) :
    ∃ t, Agrees ((Scriptlet.Session.start clock).afterCalls calls) t :=
  Scriptlet.Session.afterCalls_induction (P := fun s => ∃ t, Agrees s t) ⟨_,agrees_start clock⟩
    (fun _ r ⟨_,h⟩ => ⟨_,(h.perform r).2⟩) (fun _ source ⟨_,h⟩ => ⟨_,h.past source⟩) calls

theorem allScoped_append {table : Table} {ss ss' : List Stmt} :
    Stmt.AllScoped table [] (ss ++ ss') ↔
      Stmt.AllScoped table [] ss ∧ Stmt.AllScoped table [] ss' := by
  induction ss with
  | nil => simp [Stmt.AllScoped]
  | cons s rest ih => simp [Stmt.AllScoped,ih,and_assoc]

theorem allRefs_append (ss ss' : List Stmt) :
    Stmt.allRefs (ss ++ ss') = Stmt.allRefs ss ++ Stmt.allRefs ss' := by
  induction ss with
  | nil => rfl
  | cons s rest ih => simp [Stmt.allRefs,ih]

/-- Every visit of a run has its counterpart. -/
theorem sound_of_makes {s : Scriptlet.Session} {t : Session} (h : Agrees s t) {r : Request}
    {v : Visit} (hmakes : s.Makes r v) :
    Sound ⟨(s.perform r).2.table,(s.perform r).2.nextIndex⟩ v := by
  obtain ⟨hload,hclean,before,statement,rest,m,hsplit,hbefore,hreach⟩ := hmakes
  obtain ⟨w,hlinked⟩ := h.linked
  have hsound := sound_load hload
  have hscoped := allScoped_of_resolve hsound.regular (h.fresh hload) hclean
  have hbelow := fun x hx => (hsound.range x hx).2
  have hstart := (hlinked.later (later_resolve hload)).clear
  rw [hsplit,allRefs_append] at hbelow
  rw [(Session.perform_of_resolved hload hclean).2]
  generalize (resolve s.table (load s.nextIndex r.source).statements).table = table at *
  rw [hsplit,allScoped_append] at hscoped
  have hprefix := simulates_program r.processVars r.budget before hstart hscoped.1
    fun x hx => hbelow x (by simp [hx])
  obtain ⟨w',l',-,-,hlinked',-⟩ := hprefix.of_ok hbefore
  exact (Sound.stmt hlinked' .global .nil hscoped.2.1
    fun x hx => hbelow x (by simp [Stmt.allRefs,hx])).of_reaches hreach

/-! ## Messages -/

/-- A message that does not say that a name is unresolved. -/
def Other (message : Bytes) : Prop := message.take 3 ≠ utf8 "Unr"

theorem Other.ne {message : Bytes} (h : Other message) (name : Bytes) :
    message ≠ (EvalError.unresolvedVariable name).message := by
  rintro rfl
  exact h rfl

theorem other_runtime {e : EvalError} (h : ∀ name, e ≠ .unresolvedVariable name) :
    Other e.message := by
  cases e with
  | unresolvedVariable name => exact absurd rfl (h name)
  | _ => exact of_decide_eq_false rfl

theorem other_static (e : StaticError) : Other e.message := by
  cases e <;> exact of_decide_eq_false rfl

theorem other_load {index : Nat} {source : Bytes} {d : Diagnostic}
    (hd : d ∈ (load index source).diagnostics) : Other d.message := by
  rcases List.mem_append.1 hd with hd | hd
  · obtain ⟨fault,-,rfl⟩ := List.mem_map.1 hd
    rw [Diagnostic.ofLexical]
    cases fault.error <;> exact of_decide_eq_false rfl
  · obtain ⟨fault,-,rfl⟩ := List.mem_map.1 hd
    have hmessage : (Diagnostic.ofParse (scanFrom index source).endLine fault).message =
        fault.error.message := by
      unfold Diagnostic.ofParse
      split <;> rfl
    rw [hmessage]
    cases fault.error <;> exact of_decide_eq_false rfl

/-- No visit of a run loses its way, as the run would end with it. -/
theorem not_lost_of_makes {s : Scriptlet.Session} {t : Session} (h : Agrees s t) {r : Request}
    {v : Visit} (hmakes : s.Makes r v) :
    ¬ v.Fails ⟨(s.perform r).2.table,r.processVars⟩ .lost := by
  intro hlost
  obtain ⟨m,herror⟩ := hmakes.fails hlost
  obtain ⟨w,hsim⟩ := h.evaluation hmakes.1 hmakes.2.1
  exact hsim.of_error herror

/-- An evaluation of a resolved source does not lose its way, and no name in it is unresolved. -/
theorem other_evaluation {s : Scriptlet.Session} {t : Session} (h : Agrees s t) {r : Request}
    (hload : (load s.nextIndex r.source).diagnostics = [])
    (hclean : (resolve s.table (load s.nextIndex r.source).statements).faults = []) :
    (Ending.ofResult (s.evaluation r)).1 ≠ .lost ∧
      ∀ d ∈ (Ending.ofResult (s.evaluation r)).2, Other d.message := by
  obtain ⟨w,hsim⟩ := h.evaluation hload hclean
  generalize s.evaluation r = result at hsim
  cases result with
  | ok _ m => simp [Ending.ofResult]
  | error e m =>
    have hordinary := hsim.of_error rfl
    cases e with
    | lost => exact hordinary.elim
    | exhausted => simp [Ending.ofResult]
    | fault error token =>
      refine ⟨by simp [Ending.ofResult],fun d hd => ?_⟩
      obtain rfl : d = ⟨.runtime,token.line,[],error.message⟩ := by
        simpa [Ending.ofResult] using hd
      refine other_runtime ?_
      rintro name rfl
      exact hordinary

theorem other_perform {s : Scriptlet.Session} {t : Session} (h : Agrees s t) (r : Request) :
    (s.perform r).1.answer.ending ≠ .lost ∧
      ∀ d ∈ (s.perform r).1.answer.diagnostics, Other d.message := by
  by_cases hload : (load s.nextIndex r.source).diagnostics = []
  · by_cases hclean : (resolve s.table (load s.nextIndex r.source).statements).faults = []
    · rw [(Session.perform_of_resolved hload hclean).1]
      exact other_evaluation h hload hclean
    · rw [(Session.perform_of_unresolved hload hclean).1]
      refine ⟨by simp,fun d hd => ?_⟩
      obtain ⟨fault,-,rfl⟩ := List.mem_map.1 hd
      exact other_static fault.error
  · rw [(Session.perform_of_unreadable hload).1]
    exact ⟨by simp,fun d hd => other_load hd⟩

/-- In every history of runs, distances and environments fit together. No run, and no evaluation
inside of it, loses its way, and none reports an unresolved name. Wherever a run evaluates a
variable, `this` or `super` that has a distance, the links lead to an environment that binds the
name; where it is `super`, one link less leads to `this`. Assignments reach an environment, and each
call has an argument for each parameter. -/
theorem distances_lead_to_bindings (clock : Clock) (history : List Request) (r : Request) :
    let s := (Scriptlet.Session.start clock).after history
    let table := (s.perform r).2.table
    (s.perform r).1.ending ≠ .lost ∧
      (∀ d ∈ (s.perform r).1.diagnostics, ∀ name,
        d.message ≠ (EvalError.unresolvedVariable name).message) ∧
      (∀ v, s.Makes r v → ¬ v.Fails ⟨table,r.processVars⟩ .lost) ∧
      (∀ v, s.Makes r v → ∀ token name distance, occurrence? v.task = some (token,name) →
        table[token.index]? = some distance → Finds v.machine distance name) ∧
      (∀ n keyword method m, s.Makes r ⟨n,.expr (.superMethod keyword method),m⟩ →
        ∃ d, table[keyword.index]? = some (d + 1) ∧ Finds m d thisName) ∧
      (∀ n name value m distance, s.Makes r ⟨n,.expr (.assign name value),m⟩ →
        table[name.index]? = some distance →
        (m.memory.store.ancestor? m.memory.scope distance).isSome) ∧
      ∀ n paren f args m, s.Makes r ⟨n,.invoke paren f args,m⟩ →
        args.length = f.decl.params.length := by
  intro s table
  obtain ⟨t,h⟩ := exists_agrees clock history
  obtain ⟨hending,hother⟩ := other_perform h r
  refine ⟨hending,fun d hd name => (hother d hd).ne name,fun v => not_lost_of_makes h,?_,?_,?_,?_⟩
  · intro v hmakes token name distance hoccurrence hentry
    exact (sound_of_makes h hmakes).finds hoccurrence hentry
  · intro n keyword method m hmakes
    exact (sound_of_makes h hmakes).finds_this
  · intro n name value m distance hmakes hentry
    exact (sound_of_makes h hmakes).ancestor hentry
  · intro n paren f args m hmakes
    exact (sound_of_makes h hmakes).arity

end Scriptlet.Lexical
