import Scriptlet.Proofs.Origins.Steps

/-! # Evaluation keeps closures rooted

A task is rooted if the scopes in which its text stands are backed by the current environment, or if
the values that it is given are rooted. Such a task, begun in a rooted machine, ends in one that is
rooted with the environments that the task creates, and gives rooted values. This is proved by
induction on the budget, with one case for each form of expression and statement.
-/
namespace Scriptlet

open Lexical (Places)

/-- The value of a return is rooted. -/
def Outcome.Rooted (p : Places) (os : List Origin) : Outcome → Prop
  | .normal => True
  | .returned value => value.Rooted p os

theorem Outcome.Rooted.result {p : Places} {os : List Origin} {outcome : Outcome}
    (h : outcome.Rooted p os) : outcome.result.Rooted p os := by
  cases outcome with
  | normal => trivial
  | returned value => exact h

/-! ## Tasks -/

/-- A task that can be begun in the environment `here`. -/
def Task.Rooted (p : Places) (os : List Origin) (here : EnvId) : Task → Prop
  | .expr e => ∃ scopes home, Backed os here scopes home ∧ e.Scoped p.table scopes ∧
      Belongs os home e.receivers
  | .exprs es => ∃ scopes home, Backed os here scopes home ∧ Expr.AllScoped p.table scopes es ∧
      Belongs os home (Expr.allReceivers es)
  | .call _ callee args => callee.Rooted p os ∧ ∀ x ∈ args, x.Rooted p os
  | .invoke _ f args => f.Rooted p os ∧ ∀ x ∈ args, x.Rooted p os
  | .stmt s => ∃ scopes home, Hosts os here scopes home ∧ s.Scoped p.table scopes ∧
      (∀ x ∈ s.refs, x.index < p.limit) ∧ Belongs os home s.receivers ∧ Houses os here [s]
  | .stmts ss => ∃ scopes home, Hosts os here scopes home ∧ Stmt.AllScoped p.table scopes ss ∧
      (∀ x ∈ Stmt.allRefs ss, x.index < p.limit) ∧ Belongs os home (Stmt.allReceivers ss) ∧
      Houses os here ss

/-- The operands of an expression, apart from the arguments of a call. -/
def Expr.operands : Expr → List Expr
  | .literal _ | .variable_ _ | .self _ | .superMethod _ _ => []
  | .grouping inner => [inner]
  | .unary _ _ operand => [operand]
  | .binary _ _ left right | .logical _ left right => [left,right]
  | .assign _ value => [value]
  | .get object _ => [object]
  | .set object _ value => [value,object]
  | .call callee _ _ => [callee]

/-- The expressions that a statement evaluates itself. -/
def Stmt.operands : Stmt → List Expr
  | .expression value | .print value | .varDecl _ (some value) | .return_ _ (some value) => [value]
  | .ifElse condition _ _ | .while_ condition _ => [condition]
  | _ => []

/-- The statements that a statement runs in its own environment. -/
def Stmt.branches : Stmt → List Stmt
  | .ifElse _ thenBranch elseBranch => thenBranch :: elseBranch.toList
  | .while_ _ body => [body]
  | _ => []

namespace Task.Rooted

variable {p : Places} {os os' more : List Origin} {here : EnvId}

theorem mono {t : Task} (h : t.Rooted p os here) (hos : os <+: os') : t.Rooted p os' here := by
  have hvalue : ∀ x : Value, x.Rooted p os → x.Rooted p os' :=
    fun x hx => hx.mono (.refl p) hos
  cases t with
  | expr e =>
    obtain ⟨scopes,home,hbacked,hscoped,hbelongs⟩ := h
    exact ⟨scopes,home,hbacked.mono hos,hscoped,hbelongs.mono hos⟩
  | exprs es =>
    obtain ⟨scopes,home,hbacked,hscoped,hbelongs⟩ := h
    exact ⟨scopes,home,hbacked.mono hos,hscoped,hbelongs.mono hos⟩
  | call paren callee args => exact ⟨hvalue _ h.1,fun x hx => hvalue x (h.2 x hx)⟩
  | invoke paren f args => exact ⟨h.1.mono (.refl p) hos,fun x hx => hvalue x (h.2 x hx)⟩
  | stmt s =>
    obtain ⟨scopes,home,hhosts,hscoped,hbelow,hbelongs,hhouses⟩ := h
    exact ⟨scopes,home,hhosts.mono hos,hscoped,hbelow,hbelongs.mono hos,hhouses.mono hos⟩
  | stmts ss =>
    obtain ⟨scopes,home,hhosts,hscoped,hbelow,hbelongs,hhouses⟩ := h
    exact ⟨scopes,home,hhosts.mono hos,hscoped,hbelow,hbelongs.mono hos,hhouses.mono hos⟩

theorem append {t : Task} (h : t.Rooted p os here) : t.Rooted p (os ++ more) here :=
  h.mono (List.prefix_append _ _)

theorem operand {e : Expr} (h : (Task.expr e).Rooted p os here) (e' : Expr) (hmem : e' ∈ e.operands) :
    (Task.expr e').Rooted p os here := by
  obtain ⟨scopes,home,hbacked,hscoped,hbelongs⟩ := h
  have hpart : e'.Scoped p.table scopes ∧ e'.receivers ⊆ e.receivers := by
    cases e with
    | literal | variable_ | self | superMethod => cases hmem
    | grouping inner =>
      obtain rfl := List.mem_singleton.1 hmem
      exact ⟨hscoped,List.Subset.refl _⟩
    | unary op token operand =>
      obtain rfl := List.mem_singleton.1 hmem
      exact ⟨hscoped,List.Subset.refl _⟩
    | binary op token left right =>
      rcases List.mem_pair.1 hmem with rfl | rfl
      · exact ⟨hscoped.1,List.subset_append_left _ _⟩
      · exact ⟨hscoped.2,List.subset_append_right _ _⟩
    | logical op left right =>
      rcases List.mem_pair.1 hmem with rfl | rfl
      · exact ⟨hscoped.1,List.subset_append_left _ _⟩
      · exact ⟨hscoped.2,List.subset_append_right _ _⟩
    | assign name value =>
      obtain rfl := List.mem_singleton.1 hmem
      exact ⟨hscoped.1,List.Subset.refl _⟩
    | get object name =>
      obtain rfl := List.mem_singleton.1 hmem
      exact ⟨hscoped,List.Subset.refl _⟩
    | set object name value =>
      rcases List.mem_pair.1 hmem with rfl | rfl
      · exact ⟨hscoped.1,List.subset_append_left _ _⟩
      · exact ⟨hscoped.2,List.subset_append_right _ _⟩
    | call callee paren arguments =>
      obtain rfl := List.mem_singleton.1 hmem
      exact ⟨hscoped.1,List.subset_append_left _ _⟩
  exact ⟨scopes,home,hbacked,hpart.1,hbelongs.part hpart.2⟩

theorem arguments {callee : Expr} {paren : Token} {arguments : List Expr}
    (h : (Task.expr (.call callee paren arguments)).Rooted p os here) :
    (Task.exprs arguments).Rooted p os here := by
  obtain ⟨scopes,home,hbacked,hscoped,hbelongs⟩ := h
  exact ⟨scopes,home,hbacked,hscoped.2,hbelongs.part (List.subset_append_right _ _)⟩

theorem first {e : Expr} {rest : List Expr} (h : (Task.exprs (e :: rest)).Rooted p os here) :
    (Task.expr e).Rooted p os here := by
  obtain ⟨scopes,home,hbacked,hscoped,hbelongs⟩ := h
  exact ⟨scopes,home,hbacked,hscoped.1,hbelongs.part (List.subset_append_left _ _)⟩

theorem rest {e : Expr} {rest : List Expr} (h : (Task.exprs (e :: rest)).Rooted p os here) :
    (Task.exprs rest).Rooted p os here := by
  obtain ⟨scopes,home,hbacked,hscoped,hbelongs⟩ := h
  exact ⟨scopes,home,hbacked,hscoped.2,hbelongs.part (List.subset_append_right _ _)⟩

/-- An initializer stands where its variable is declared already, but not finished. -/
theorem evaluated {s : Stmt} (h : (Task.stmt s).Rooted p os here) (e : Expr) (hmem : e ∈ s.operands) :
    (Task.expr e).Rooted p os here := by
  obtain ⟨scopes,home,hhosts,hscoped,-,hbelongs,hhouses⟩ := h
  cases s with
  | expression value =>
    obtain rfl := List.mem_singleton.1 hmem
    exact ⟨scopes,home,hhosts.backed,hscoped,hbelongs⟩
  | print value =>
    obtain rfl := List.mem_singleton.1 hmem
    exact ⟨scopes,home,hhosts.backed,hscoped,hbelongs⟩
  | varDecl name initial =>
    cases initial with
    | none => cases hmem
    | some value =>
      obtain rfl := List.mem_singleton.1 hmem
      have hadmits := hhouses _ List.mem_cons_self name rfl
      exact ⟨_,home,hhosts.bind_backed hscoped.1.1 hadmits false,hscoped.2,hbelongs⟩
  | ifElse condition thenBranch elseBranch =>
    obtain rfl := List.mem_singleton.1 hmem
    cases elseBranch with
    | none =>
      exact ⟨scopes,home,hhosts.backed,hscoped.1,hbelongs.part (List.subset_append_left _ _)⟩
    | some branch =>
      exact ⟨scopes,home,hhosts.backed,hscoped.1,hbelongs.part (List.subset_append_left _ _)⟩
  | while_ condition body =>
    obtain rfl := List.mem_singleton.1 hmem
    exact ⟨scopes,home,hhosts.backed,hscoped.1,hbelongs.part (List.subset_append_left _ _)⟩
  | return_ keyword value =>
    cases value with
    | none => cases hmem
    | some value =>
      obtain rfl := List.mem_singleton.1 hmem
      exact ⟨scopes,home,hhosts.backed,hscoped,hbelongs⟩
  | block | funDecl | classDecl => cases hmem

theorem branch {s : Stmt} (h : (Task.stmt s).Rooted p os here) (s' : Stmt) (hmem : s' ∈ s.branches) :
    (Task.stmt s').Rooted p os here := by
  obtain ⟨scopes,home,hhosts,hscoped,hbelow,hbelongs,-⟩ := h
  have hpart : s'.declared? = none ∧ s'.Scoped p.table scopes ∧ s'.refs ⊆ s.refs ∧
      s'.receivers ⊆ s.receivers := by
    cases s with
    | ifElse condition thenBranch elseBranch =>
      cases elseBranch with
      | none =>
        obtain rfl := List.mem_singleton.1 hmem
        exact ⟨hscoped.2.1,hscoped.2.2,List.subset_append_right _ _,List.subset_append_right _ _⟩
      | some other =>
        rcases List.mem_pair.1 hmem with rfl | rfl
        · exact ⟨hscoped.2.1.1,hscoped.2.1.2,by simp [Stmt.refs],by simp [Stmt.receivers]⟩
        · exact ⟨hscoped.2.2.1,hscoped.2.2.2,by simp [Stmt.refs],by simp [Stmt.receivers]⟩
    | while_ condition body =>
      obtain rfl := List.mem_singleton.1 hmem
      exact ⟨hscoped.2.1,hscoped.2.2,List.subset_append_right _ _,List.subset_append_right _ _⟩
    | _ => cases hmem
  obtain ⟨hsilent,hscoped',hrefs,hreceivers⟩ := hpart
  have hhouses : Houses os here [s'] := by
    intro s hs token hdeclared
    obtain rfl := List.mem_singleton.1 hs
    rw [hsilent] at hdeclared
    cases hdeclared
  exact ⟨scopes,home,hhosts,hscoped',fun x hx => hbelow x (hrefs hx),hbelongs.part hreceivers,hhouses⟩

theorem firstStmt {s : Stmt} {rest : List Stmt} (h : (Task.stmts (s :: rest)).Rooted p os here) :
    (Task.stmt s).Rooted p os here := by
  obtain ⟨scopes,home,hhosts,hscoped,hbelow,hbelongs,hhouses⟩ := h
  exact ⟨scopes,home,hhosts,hscoped.1,fun x hx => hbelow x (List.mem_append_left _ hx),
    hbelongs.part (List.subset_append_left _ _),fun s' hs' => hhouses s' (by simp_all)⟩

theorem restStmts {s : Stmt} {rest : List Stmt} (h : (Task.stmts (s :: rest)).Rooted p os here) :
    (Task.stmts rest).Rooted p os here := by
  obtain ⟨scopes,home,hhosts,hscoped,hbelow,hbelongs,hhouses⟩ := h
  exact ⟨_,home,hhosts.after hscoped.1 (hhouses s List.mem_cons_self),hscoped.2,
    fun x hx => hbelow x (List.mem_append_right _ hx),hbelongs.part (List.subset_append_right _ _),
    fun s' hs' => hhouses s' (List.mem_cons_of_mem _ hs')⟩

/-- The body of a block stands in an environment of its own. -/
theorem block {body : List Stmt} (h : (Task.stmt (.block body)).Rooted p os here) (hos : os <+: os')
    {e : EnvId} (he : os'[e]? = some (.block here body)) : (Task.stmts body).Rooted p os' e := by
  obtain ⟨scopes,home,hhosts,hscoped,hbelow,hbelongs,-⟩ := h
  exact ⟨_,home,.inner he rfl (hhosts.backed.mono hos) hhosts.settled,hscoped,hbelow,
    hbelongs.mono hos,fun s hs token hdeclared => ⟨_,he,s,hs,token,hdeclared,rfl⟩⟩

/-- The body of a function stands in the environment of the call, inside of the scopes of its
closure. -/
theorem body {f : Function} (h : f.Rooted p os) (hos : os <+: os') {e : EnvId}
    (he : os'[e]? = some (.call f)) : (Task.stmts f.decl.body).Rooted p os' e := by
  obtain ⟨⟨scopes,home,hbacked,hcovers,hbelongs⟩,-⟩ := h
  obtain ⟨hparams,hbody⟩ := FunctionDecl.scoped_iff.1 hcovers.wellScoped
  have hinner : Hosts os' e (.empty :: scopes) home :=
    .inner he rfl (hbacked.mono hos) hcovers.settled
  have hbelow := hcovers.below
  rw [FunctionDecl.refs_eq] at hbelow
  rw [FunctionDecl.receivers_eq] at hbelongs
  have hadmits : ∀ name, Admits os' e name := fun _ => ⟨_,he,trivial⟩
  exact ⟨_,home,hinner.bindAll hparams hadmits,hbody,hbelow,hbelongs.mono hos,
    fun _ _ token _ => hadmits token.lexeme⟩

end Task.Rooted

/-! ## The induction -/

/-- Every rooted task with the given budget leaves a rooted machine and gives rooted values. -/
structure Rooting (p : Places) (vars : NameMap Bytes) (n : Nat) : Prop where
  expr (e : Expr) {m : Machine} {os : List Origin} {here : EnvId} : m.Rooted p os here →
    (Task.expr e).Rooted p os here →
    Roots p (os ++ (Task.expr e).environments ⟨p.table,vars⟩ n m) here (fun os x => x.Rooted p os)
      (Eval.expr ⟨p.table,vars⟩ n e m)
  exprs (es : List Expr) {m : Machine} {os : List Origin} {here : EnvId} : m.Rooted p os here →
    (Task.exprs es).Rooted p os here →
    Roots p (os ++ (Task.exprs es).environments ⟨p.table,vars⟩ n m) here
      (fun os xs => ∀ x ∈ xs, x.Rooted p os) (Eval.exprs ⟨p.table,vars⟩ n es m)
  call (paren : Token) {callee : Value} {args : List Value} {m : Machine} {os : List Origin}
    {here : EnvId} : m.Rooted p os here → (Task.call paren callee args).Rooted p os here →
    Roots p (os ++ (Task.call paren callee args).environments ⟨p.table,vars⟩ n m) here
      (fun os x => x.Rooted p os) (Eval.call ⟨p.table,vars⟩ n paren callee args m)
  invoke (paren : Token) {f : Function} {args : List Value} {m : Machine} {os : List Origin}
    {here : EnvId} : m.Rooted p os here → (Task.invoke paren f args).Rooted p os here →
    Roots p (os ++ (Task.invoke paren f args).environments ⟨p.table,vars⟩ n m) here
      (fun os x => x.Rooted p os) (Eval.invoke ⟨p.table,vars⟩ n paren f args m)
  stmt (s : Stmt) {m : Machine} {os : List Origin} {here : EnvId} : m.Rooted p os here →
    (Task.stmt s).Rooted p os here →
    Roots p (os ++ (Task.stmt s).environments ⟨p.table,vars⟩ n m) here
      (fun os outcome => outcome.Rooted p os) (Eval.stmt ⟨p.table,vars⟩ n s m)
  stmts (ss : List Stmt) {m : Machine} {os : List Origin} {here : EnvId} : m.Rooted p os here →
    (Task.stmts ss).Rooted p os here →
    Roots p (os ++ (Task.stmts ss).environments ⟨p.table,vars⟩ n m) here
      (fun os outcome => outcome.Rooted p os) (Eval.stmts ⟨p.table,vars⟩ n ss m)

namespace Rooting

variable {p : Places} {vars : NameMap Bytes} {n : Nat} {m : Machine} {os : List Origin} {here : EnvId}

/-- Without a budget nothing is done. -/
theorem zero (p : Places) (vars : NameMap Bytes) : Rooting p vars 0 where
  expr _ _ _ _ hm _ := .idle hm
  exprs _ _ _ _ hm _ := .idle hm
  call _ _ _ _ _ _ hm _ := .idle hm
  invoke _ _ _ _ _ _ hm _ := .idle hm
  stmt _ _ _ _ hm _ := .idle hm
  stmts _ _ _ _ hm _ := .idle hm

theorem expr_succ (h : Rooting p vars n) (e : Expr) (hm : m.Rooted p os here)
    (ht : (Task.expr e).Rooted p os here) :
    Roots p (os ++ (Task.expr e).environments ⟨p.table,vars⟩ (n + 1) m) here
      (fun os x => x.Rooted p os) (Eval.expr ⟨p.table,vars⟩ (n + 1) e m) := by
  cases e <;> simp only [Task.environments,Task.opening,Task.callees,Task.closing,List.nil_append,
    List.flatMap_cons,List.flatMap_nil,flatMap_onResult,List.append_nil,← List.append_assoc]
  case literal value => exact .pure hm trivial
  case variable_ name => exact roots_lookUp hm
  case self keyword => exact roots_lookUp hm
  case superMethod keyword method => exact roots_superMethod hm
  case grouping inner => exact h.expr inner hm (ht.operand inner (by simp [Expr.operands]))
  case unary op token operand =>
    have hoperand := ht.operand operand (by simp [Expr.operands])
    apply (h.expr operand hm hoperand).next
    intro x m₁ _ hm₁ _
    have happly : Roots p _ here (fun _ _ => True) (Steps.orFault token (op.apply x) m₁) :=
      roots_orFault hm₁ fun _ _ => trivial
    exact happly.next fun s m₂ _ hm₂ _ => .pure hm₂ trivial
  case binary op token left right =>
    have hleft := ht.operand left (by simp [Expr.operands])
    have hright := ht.operand right (by simp [Expr.operands])
    apply (h.expr left hm hleft).bind
    intro l m₁ _ hm₁ _
    apply (h.expr right hm₁ hright.append).next
    intro r m₂ _ hm₂ _
    have happly : Roots p _ here (fun _ _ => True) (Steps.orFault token (op.apply l r) m₂) :=
      roots_orFault hm₂ fun _ _ => trivial
    exact happly.next fun s m₃ _ hm₃ _ => .pure hm₃ trivial
  case logical op left right =>
    have hleft := ht.operand left (by simp [Expr.operands])
    have hright := ht.operand right (by simp [Expr.operands])
    apply (h.expr left hm hleft).bind
    intro l m₁ _ hm₁ hl
    split
    · rw [List.flatMap_nil,List.append_nil]
      exact .pure hm₁ hl
    · rw [List.flatMap_singleton]
      exact h.expr right hm₁ hright.append
  case assign name value =>
    have hvalue := ht.operand value (by simp [Expr.operands])
    obtain ⟨scopes,home,hbacked,⟨-,hname,hlocated⟩,-⟩ := ht
    apply (h.expr value hm hvalue).next
    intro x m₁ _ hm₁ hx
    have hassign : Roots p _ here (fun _ _ => True) (Eval.assign ⟨p.table,vars⟩ name x m₁) :=
      roots_assign hm₁ (hbacked.mono (List.prefix_append _ _)) hname hlocated hx
    exact hassign.next fun _ m₂ _ hm₂ _ => .pure hm₂ hx
  case get object name =>
    have hobject := ht.operand object (by simp [Expr.operands])
    exact (h.expr object hm hobject).bind fun o m₁ _ hm₁ ho => roots_property hm₁ ho
  case set object name value =>
    have hvalue := ht.operand value (by simp [Expr.operands])
    have hobject := ht.operand object (by simp [Expr.operands])
    apply (h.expr value hm hvalue).bind
    intro x m₁ _ hm₁ hx
    apply (h.expr object hm₁ hobject.append).next
    intro o m₂ _ hm₂ _
    cases o with
    | object c id =>
      have hset : Roots p _ here (fun _ _ => True) (Steps.setField id name.lexeme x m₂) :=
        ⟨hm₂.setField hx.append,trivial⟩
      exact hset.next fun _ m₃ _ hm₃ _ => .pure hm₃ hx.append
    | _ => exact .error hm₂
  case call callee paren arguments =>
    have hcallee := ht.operand callee (by simp [Expr.operands])
    apply (h.expr callee hm hcallee).bind
    intro f m₁ _ hm₁ hf
    rw [← List.append_assoc]
    apply (h.exprs arguments hm₁ ht.arguments.append).bind
    intro args m₂ _ hm₂ hargs
    exact h.call paren hm₂ ⟨hf.append,hargs⟩

theorem exprs_succ (h : Rooting p vars n) (es : List Expr) (hm : m.Rooted p os here)
    (ht : (Task.exprs es).Rooted p os here) :
    Roots p (os ++ (Task.exprs es).environments ⟨p.table,vars⟩ (n + 1) m) here
      (fun os xs => ∀ x ∈ xs, x.Rooted p os) (Eval.exprs ⟨p.table,vars⟩ (n + 1) es m) := by
  cases es with
  | nil =>
    simp only [Task.environments,Task.opening,Task.callees,Task.closing,List.flatMap_nil,
      List.append_nil]
    exact .pure hm fun _ hx => absurd hx List.not_mem_nil
  | cons e rest =>
    simp only [Task.environments,Task.opening,Task.callees,Task.closing,List.nil_append,
      List.flatMap_cons,List.flatMap_nil,flatMap_onResult,List.append_nil,← List.append_assoc]
    apply (h.expr e hm ht.first).bind
    intro x m₁ _ hm₁ hx
    apply (h.exprs rest hm₁ ht.rest.append).next
    intro xs m₂ _ hm₂ hxs
    apply Roots.pure hm₂
    intro y hy
    rcases List.mem_cons.1 hy with rfl | hy
    · exact hx.append
    · exact hxs y hy

theorem call_succ (h : Rooting p vars n) (paren : Token) {callee : Value} {args : List Value}
    (hm : m.Rooted p os here) (ht : (Task.call paren callee args).Rooted p os here) :
    Roots p (os ++ (Task.call paren callee args).environments ⟨p.table,vars⟩ (n + 1) m) here
      (fun os x => x.Rooted p os) (Eval.call ⟨p.table,vars⟩ (n + 1) paren callee args m) := by
  obtain ⟨hcallee,hargs⟩ := ht
  by_cases harity : callee.arity? = some args.length
  · cases callee with
    | builtin b =>
      simp only [Task.environments,Task.opening,Task.callees,Task.closing,harity,if_true,Eval.call,
        ne_eq,not_true_eq_false,if_false,List.flatMap_nil,List.append_nil]
      exact roots_callBuiltin hm
    | function id f =>
      simp only [Task.environments,Task.opening,Task.callees,Task.closing,harity,if_true,Eval.call,
        ne_eq,not_true_eq_false,if_false,List.nil_append,List.flatMap_singleton,List.append_nil]
      exact h.invoke paren hm ⟨hcallee,hargs⟩
    | class_ c =>
      -- the initializer is bound to the new object, which adds an environment before the call does
      let created : Machine := { m with objects := m.objects.push .empty }
      have hcreated : created.Rooted p os here := hm.newObject
      cases hmethod : c.findMethod? initializerName with
      | none =>
        simp only [Task.environments,Task.opening,Task.callees,Task.closing,Origin.ofMethod,harity,
          hmethod,if_true,Option.toList_none,List.map_nil,Eval.call,ne_eq,not_true_eq_false,if_false,
          List.flatMap_nil,List.append_nil]
        exact ⟨hcreated,hcallee⟩
      | some method =>
        simp only [Task.environments,Task.opening,Task.callees,Task.closing,Origin.ofMethod,harity,
          hmethod,Steps.newObject_eq,onResult_ok,if_true,Option.toList_some,List.map_cons,List.map_nil,
          Eval.call,ne_eq,not_true_eq_false,if_false,flatMap_onResult,List.flatMap_singleton,
          List.append_nil,← List.append_assoc]
        show Roots p _ here _ ((do
          let initializer ← Eval.bind method (.object c m.objects.size)
          let _ ← Eval.invoke ⟨p.table,vars⟩ n paren initializer args
          return .object c m.objects.size : Eval Value) created)
        apply (roots_bind hcreated (Class.Rooted.findMethod? hcallee hmethod) hcallee).bind
        intro f m₁ _ hm₁ hf
        have hargs₁ : ∀ x ∈ args, x.Rooted p (os ++ [.bound method c m.objects.size]) :=
          fun x hx => (hargs x hx).append
        apply (h.invoke paren hm₁ ⟨hf,hargs₁⟩).next
        intro _ m₂ _ hm₂ _
        exact .pure hm₂ (Class.Rooted.append (Class.Rooted.append hcallee))
    | scalar s => cases harity
    | object c id => cases harity
    | uninitialized => cases harity
  · have hopening : (Task.call paren callee args).opening m = [] := by
      cases callee <;> simp [Task.opening,harity]
    simp only [Task.environments,Task.callees,Task.closing,hopening,if_neg harity,List.flatMap_nil,
      List.append_nil]
    cases hcallable : callee.arity? with
    | none =>
      simp only [Eval.call,hcallable]
      exact .error hm
    | some arity =>
      rw [hcallable] at harity
      have hlength : args.length ≠ arity := fun heq => harity (by rw [heq])
      simp only [Eval.call,hcallable,if_pos hlength]
      exact .error hm

theorem invoke_succ (h : Rooting p vars n) (paren : Token) {f : Function} {args : List Value}
    (hm : m.Rooted p os here) (ht : (Task.invoke paren f args).Rooted p os here) :
    Roots p (os ++ (Task.invoke paren f args).environments ⟨p.table,vars⟩ (n + 1) m) here
      (fun os x => x.Rooted p os) (Eval.invoke ⟨p.table,vars⟩ (n + 1) paren f args m) := by
  obtain ⟨hf,hargs⟩ := ht
  cases hparams : Eval.bindParameters f.decl.params args .empty with
  | none =>
    simp only [Task.environments,Task.opening,Task.callees,Task.closing,Eval.invoke,hparams,
      Option.isSome_none,Bool.false_eq_true,if_false,List.flatMap_nil,List.append_nil]
    exact .error hm
  | some bindings =>
    simp only [Task.environments,Task.opening,Task.callees,Task.closing,Eval.invoke,hparams,
      Option.isSome_some,if_true,Steps.orLost,pure_bind,flatMap_onResult,List.flatMap_singleton,
      List.append_nil,← List.append_assoc]
    have hbindings := Eval.of_bindParameters hargs (fun _ _ hget => by cases hget) hparams
    apply (roots_newEnv hm (.call f) rfl trivial (fun _ _ => trivial) hbindings).bind
    intro scope m₁ _ hm₁ hscope
    have hbody := Task.Rooted.body hf (List.prefix_append os [.call f]) hscope
    apply (Roots.inScope hm₁.scope (h.stmts f.decl.body (hm₁.enter scope) hbody)).next
    intro outcome m₂ _ hm₂ houtcome
    split
    · exact roots_readAt hm₂
    · exact .pure hm₂ houtcome.result

theorem stmts_succ (h : Rooting p vars n) (ss : List Stmt) (hm : m.Rooted p os here)
    (ht : (Task.stmts ss).Rooted p os here) :
    Roots p (os ++ (Task.stmts ss).environments ⟨p.table,vars⟩ (n + 1) m) here
      (fun os outcome => outcome.Rooted p os) (Eval.stmts ⟨p.table,vars⟩ (n + 1) ss m) := by
  cases ss with
  | nil =>
    simp only [Task.environments,Task.opening,Task.callees,Task.closing,List.flatMap_nil,
      List.append_nil]
    exact .pure hm trivial
  | cons s rest =>
    simp only [Task.environments,Task.opening,Task.callees,Task.closing,List.nil_append,
      List.flatMap_cons,flatMap_onResult,List.append_nil,← List.append_assoc]
    apply (h.stmt s hm ht.firstStmt).bind
    intro outcome m₁ _ hm₁ houtcome
    cases outcome with
    | normal =>
      rw [List.flatMap_singleton]
      exact h.stmts rest hm₁ ht.restStmts.append
    | returned value =>
      rw [List.flatMap_nil,List.append_nil]
      exact .pure hm₁ houtcome

theorem stmt_succ (h : Rooting p vars n) (s : Stmt) (hm : m.Rooted p os here)
    (ht : (Task.stmt s).Rooted p os here) :
    Roots p (os ++ (Task.stmt s).environments ⟨p.table,vars⟩ (n + 1) m) here
      (fun os outcome => outcome.Rooted p os) (Eval.stmt ⟨p.table,vars⟩ (n + 1) s m) := by
  cases s
  case expression value =>
    have hvalue := ht.evaluated value (by simp [Stmt.operands])
    simp only [Task.environments,Task.opening,Task.callees,Task.closing,List.nil_append,
      List.flatMap_singleton,List.append_nil]
    exact (h.expr value hm hvalue).next fun _ m₁ _ hm₁ _ => .pure hm₁ trivial
  case print value =>
    have hvalue := ht.evaluated value (by simp [Stmt.operands])
    simp only [Task.environments,Task.opening,Task.callees,Task.closing,List.nil_append,
      List.flatMap_singleton,List.append_nil]
    apply (h.expr value hm hvalue).next
    intro x m₁ _ hm₁ _
    exact ⟨hm₁.congr rfl rfl,trivial⟩
  case varDecl name initial =>
    cases initial with
    | none =>
      obtain ⟨scopes,home,-,⟨hname,-⟩,-,-,hhouses⟩ := ht
      simp only [Task.environments,Task.opening,Task.callees,Task.closing,List.flatMap_nil,
        List.append_nil]
      have hdefine : Roots p os here (fun _ _ => True) (Eval.define name.lexeme .uninitialized m) :=
        roots_define hm hname (hhouses _ List.mem_cons_self name rfl) trivial
      exact hdefine.next fun _ m₁ _ hm₁ _ => .pure hm₁ trivial
    | some value =>
      have hvalue := ht.evaluated value (by simp [Stmt.operands])
      obtain ⟨scopes,home,-,⟨⟨hname,-⟩,-⟩,-,-,hhouses⟩ := ht
      have hadmits := hhouses _ List.mem_cons_self name rfl
      simp only [Task.environments,Task.opening,Task.callees,Task.closing,List.nil_append,
        List.flatMap_singleton,List.append_nil]
      apply (h.expr value hm hvalue).next
      intro x m₁ _ hm₁ hx
      have hdefine := roots_define hm₁ hname (hadmits.mono (List.prefix_append _ _)) hx
      exact hdefine.next fun _ m₂ _ hm₂ _ => .pure hm₂ trivial
  case block body =>
    simp only [Task.environments,Task.opening,Task.callees,Task.closing,flatMap_onResult,
      List.flatMap_singleton,List.append_nil,← List.append_assoc,hm.scope]
    have hempty : ∀ name x, (NameMap.empty : NameMap Value).get? name = some x → x.Rooted p os :=
      fun _ _ hget => by cases hget
    apply Roots.get
    rw [hm.scope]
    apply (roots_newEnv hm (.block here body) rfl trivial (fun _ h => by cases h) hempty).bind
    intro scope m₁ _ hm₁ hscope
    have hbody := ht.block (List.prefix_append os [.block here body]) hscope
    exact .inScope hm₁.scope (h.stmts body (hm₁.enter scope) hbody)
  case ifElse condition thenBranch elseBranch =>
    have hcondition := ht.evaluated condition (by simp [Stmt.operands])
    simp only [Task.environments,Task.opening,Task.callees,Task.closing,List.nil_append,
      List.flatMap_cons,flatMap_onResult,List.append_nil,← List.append_assoc]
    apply (h.expr condition hm hcondition).bind
    intro c m₁ _ hm₁ _
    split
    · have hbranch := ht.branch thenBranch (by simp [Stmt.branches])
      rw [List.flatMap_singleton]
      exact h.stmt thenBranch hm₁ hbranch.append
    · cases elseBranch with
      | none =>
        simp only [Option.toList_none,List.map_nil,List.flatMap_nil,List.append_nil]
        exact .pure hm₁ trivial
      | some branch =>
        have hbranch := ht.branch branch (by simp [Stmt.branches])
        simp only [Option.toList_some,List.map_cons,List.map_nil,List.flatMap_singleton]
        exact h.stmt branch hm₁ hbranch.append
  case while_ condition body =>
    have hcondition := ht.evaluated condition (by simp [Stmt.operands])
    have hbody := ht.branch body (by simp [Stmt.branches])
    simp only [Task.environments,Task.opening,Task.callees,Task.closing,List.nil_append,
      List.flatMap_cons,flatMap_onResult,List.append_nil,← List.append_assoc]
    apply (h.expr condition hm hcondition).bind
    intro c m₁ _ hm₁ _
    split
    · simp only [List.flatMap_cons,flatMap_onResult,← List.append_assoc]
      apply (h.stmt body hm₁ hbody.append).bind
      intro outcome m₂ _ hm₂ houtcome
      cases outcome with
      | normal =>
        -- the loop goes on as the same task, with a smaller budget and a longer log
        rw [List.flatMap_singleton]
        exact h.stmt (.while_ condition body) hm₂ ht.append.append
      | returned value =>
        rw [List.flatMap_nil,List.append_nil]
        exact .pure hm₂ houtcome
    · rw [List.flatMap_nil,List.append_nil]
      exact .pure hm₁ trivial
  case return_ keyword value =>
    cases value with
    | none =>
      simp only [Task.environments,Task.opening,Task.callees,Task.closing,List.flatMap_nil,
        List.append_nil]
      exact .pure hm trivial
    | some value =>
      have hvalue := ht.evaluated value (by simp [Stmt.operands])
      simp only [Task.environments,Task.opening,Task.callees,Task.closing,List.nil_append,
        List.flatMap_singleton,List.append_nil]
      exact (h.expr value hm hvalue).next fun x m₁ _ hm₁ hx => .pure hm₁ hx
  case funDecl decl =>
    obtain ⟨scopes,home,hhosts,⟨⟨hname,-⟩,hdecl⟩,hbelow,hbelongs,hhouses⟩ := ht
    have hadmits := hhouses _ List.mem_cons_self decl.name rfl
    have hfunction : (⟨decl,here,false⟩ : Function).Rooted p os :=
      ⟨⟨_,home,hhosts.bind_backed hname hadmits true,⟨hhosts.settled.bind,hdecl,hbelow⟩,hbelongs⟩,
        hhosts.kept decl⟩
    simp only [Task.environments,Task.opening,Task.callees,Task.closing,List.flatMap_nil,
      List.append_nil]
    apply Roots.get
    rw [hm.scope]
    apply (roots_newFunction hm hfunction).next
    intro f m₁ _ hm₁ hf
    exact (roots_define hm₁ hname hadmits hf).next fun _ m₂ _ hm₂ _ => .pure hm₂ trivial
  case classDecl name superclass methods =>
    -- the words in methods of the class do not belong to the method around the statement
    obtain ⟨scopes,home,hhosts,hscoped,hbelow,-,hhouses⟩ := ht
    simp only [Task.environments,Task.opening,Task.callees,Task.closing,List.flatMap_nil,
      List.nil_append]
    have hbelow' : ∀ x ∈ FunctionDecl.allRefs methods, x.index < p.limit :=
      fun x hx => hbelow x (List.mem_append_right _ hx)
    have hadmits := hhouses _ List.mem_cons_self name rfl
    exact (roots_declareClass hm hhosts hscoped hbelow' hadmits).next fun _ m₁ _ hm₁ _ =>
      .pure hm₁ trivial

/-- Every task keeps closures rooted, by induction on the budget. -/
theorem all (p : Places) (vars : NameMap Bytes) (n : Nat) : Rooting p vars n := by
  induction n with
  | zero => exact zero p vars
  | succ n ih =>
    exact ⟨fun e _ _ _ => ih.expr_succ e,fun es _ _ _ => ih.exprs_succ es,
      fun paren _ _ _ _ _ => ih.call_succ paren,fun paren _ _ _ _ _ => ih.invoke_succ paren,
      fun s _ _ _ => ih.stmt_succ s,fun ss _ _ _ => ih.stmts_succ ss⟩

end Rooting

end Scriptlet
