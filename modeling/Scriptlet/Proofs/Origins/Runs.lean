import Scriptlet.Proofs.Lexical.Sessions
import Scriptlet.Proofs.Origins.Evaluation
import Scriptlet.Proofs.References

/-! # Runs keep closures rooted

From the tasks to all visits of a run, and from one run to the next. Whenever a visit begins, the
machine is rooted in the part of the log that was written until then. At the top level there is no
method around a statement; that no `this` and no `super` stands there is checked before the run.
-/
namespace Scriptlet

open Lexical (Places)

/-! ## Tasks one after the other -/

/-- Tasks that are begun one after the other, each in a rooted machine. -/
def Successive (p : Places) (vars : NameMap Bytes) (n : Nat) :
    List Origin → List (Task × Machine) → Prop
  | _, [] => True
  | os, (t,m) :: rest => m.Rooted p os m.memory.scope ∧ t.Rooted p os m.memory.scope ∧
      Successive p vars n (os ++ t.environments ⟨p.table,vars⟩ n m) rest

section

variable {p : Places} {vars : NameMap Bytes} {n : Nat} {m : Machine} {os : List Origin} {here : EnvId}

namespace Successive

theorem cons {t : Task} {rest : List (Task × Machine)} (hm : m.Rooted p os here)
    (ht : t.Rooted p os here)
    (hrest : Successive p vars n (os ++ t.environments ⟨p.table,vars⟩ n m) rest) :
    Successive p vars n os ((t,m) :: rest) := by
  obtain rfl := hm.scope
  exact ⟨hm,ht,hrest⟩

theorem single {t : Task} (hm : m.Rooted p os here) (ht : t.Rooted p os here) :
    Successive p vars n os [(t,m)] :=
  .cons hm ht trivial

theorem onResult {α : Type} {P : List Origin → α → Prop} {r : EStateM.Result Abort Machine α}
    {next : α → Machine → List (Task × Machine)} (h : Roots p os here P r)
    (hnext : ∀ a m', r = .ok a m' → m'.Rooted p os here → P os a →
      Successive p vars n os (next a m')) :
    Successive p vars n os (Scriptlet.onResult r next) := by
  cases r with
  | ok a m' => exact hnext a m' rfl h.1 h.2
  | error e m' => trivial

theorem split {before rest : List (Task × Machine)} {t : Task}
    (h : Successive p vars n os (before ++ (t,m) :: rest)) :
    m.Rooted p (os ++ before.flatMap fun c => c.1.environments ⟨p.table,vars⟩ n c.2) m.memory.scope ∧
      t.Rooted p (os ++ before.flatMap fun c => c.1.environments ⟨p.table,vars⟩ n c.2)
        m.memory.scope := by
  induction before generalizing os with
  | nil =>
    rw [List.flatMap_nil,List.append_nil]
    exact ⟨h.1,h.2.1⟩
  | cons first before ih =>
    rw [List.flatMap_cons,← List.append_assoc]
    exact ih h.2.2

end Successive

theorem successive_expr (e : Expr) (hm : m.Rooted p os here) (ht : (Task.expr e).Rooted p os here) :
    Successive p vars n os ((Task.expr e).callees ⟨p.table,vars⟩ n m) := by
  have hall := Rooting.all p vars n
  cases e with
  | literal | variable_ | self | superMethod => trivial
  | grouping inner => exact .single hm (ht.operand inner (by simp [Expr.operands]))
  | unary op token operand => exact .single hm (ht.operand operand (by simp [Expr.operands]))
  | assign name value => exact .single hm (ht.operand value (by simp [Expr.operands]))
  | get object name => exact .single hm (ht.operand object (by simp [Expr.operands]))
  | binary op token left right =>
    have hleft := ht.operand left (by simp [Expr.operands])
    have hright := ht.operand right (by simp [Expr.operands])
    apply Successive.cons hm hleft
    apply Successive.onResult (hall.expr left hm hleft)
    intro l m₁ _ hm₁ _
    exact .single hm₁ hright.append
  | logical op left right =>
    have hleft := ht.operand left (by simp [Expr.operands])
    have hright := ht.operand right (by simp [Expr.operands])
    apply Successive.cons hm hleft
    apply Successive.onResult (hall.expr left hm hleft)
    intro l m₁ _ hm₁ _
    split
    · trivial
    · exact .single hm₁ hright.append
  | set object name value =>
    have hvalue := ht.operand value (by simp [Expr.operands])
    have hobject := ht.operand object (by simp [Expr.operands])
    apply Successive.cons hm hvalue
    apply Successive.onResult (hall.expr value hm hvalue)
    intro x m₁ _ hm₁ _
    exact .single hm₁ hobject.append
  | call callee paren arguments =>
    have hcallee := ht.operand callee (by simp [Expr.operands])
    apply Successive.cons hm hcallee
    apply Successive.onResult (hall.expr callee hm hcallee)
    intro f m₁ _ hm₁ hf
    apply Successive.cons hm₁ ht.arguments.append
    apply Successive.onResult (hall.exprs arguments hm₁ ht.arguments.append)
    intro args m₂ _ hm₂ hargs
    exact .single hm₂ ⟨hf.append,hargs⟩

theorem successive_call {paren : Token} {callee : Value} {args : List Value}
    (hm : m.Rooted p os here) (ht : (Task.call paren callee args).Rooted p os here) :
    Successive p vars n (os ++ (Task.call paren callee args).opening m)
      ((Task.call paren callee args).callees ⟨p.table,vars⟩ n m) := by
  simp only [Task.callees]
  split
  · next harity =>
    cases callee with
    | function id f =>
      simp only [Task.opening,List.append_nil]
      exact .single (t := .invoke paren f args) hm ht
    | class_ c =>
      have hcreated : Machine.Rooted p os here { m with objects := m.objects.push .empty } :=
        hm.newObject
      cases hmethod : c.findMethod? initializerName with
      | none =>
        simp only [hmethod]
        trivial
      | some method =>
        simp only [Task.opening,if_pos harity,Origin.ofMethod,hmethod,Steps.newObject_eq,onResult_ok,
          Option.toList_some,List.map_cons,List.map_nil]
        apply Successive.onResult (roots_bind hcreated (Class.Rooted.findMethod? ht.1 hmethod) ht.1)
        intro f m₁ _ hm₁ hf
        exact .single (t := .invoke paren f args) hm₁ ⟨hf,fun x hx => (ht.2 x hx).append⟩
    | _ => trivial
  · trivial

theorem successive_stmt (s : Stmt) (hm : m.Rooted p os here) (ht : (Task.stmt s).Rooted p os here) :
    Successive p vars n (os ++ (Task.stmt s).opening m)
      ((Task.stmt s).callees ⟨p.table,vars⟩ n m) := by
  have hall := Rooting.all p vars n
  cases s with
  | block body =>
    have hempty : ∀ name x, (NameMap.empty : NameMap Value).get? name = some x → x.Rooted p os :=
      fun _ _ hget => by cases hget
    rw [Task.callees,Task.opening,hm.scope]
    apply Successive.onResult (roots_newEnv hm (.block here body) rfl trivial (fun _ h => by cases h) hempty)
    intro scope m₁ _ hm₁ hscope
    exact .single (hm₁.enter scope) (ht.block (List.prefix_append os [.block here body]) hscope)
  | expression value =>
    simp only [Task.opening,List.append_nil]
    exact .single hm (ht.evaluated value (by simp [Stmt.operands]))
  | print value =>
    simp only [Task.opening,List.append_nil]
    exact .single hm (ht.evaluated value (by simp [Stmt.operands]))
  | varDecl name initial =>
    simp only [Task.opening,List.append_nil]
    cases initial with
    | none => trivial
    | some value => exact .single hm (ht.evaluated value (by simp [Stmt.operands]))
  | return_ keyword value =>
    simp only [Task.opening,List.append_nil]
    cases value with
    | none => trivial
    | some value => exact .single hm (ht.evaluated value (by simp [Stmt.operands]))
  | ifElse condition thenBranch elseBranch =>
    have hcondition := ht.evaluated condition (by simp [Stmt.operands])
    simp only [Task.opening,List.append_nil]
    apply Successive.cons hm hcondition
    apply Successive.onResult (hall.expr condition hm hcondition)
    intro c m₁ _ hm₁ _
    split
    · exact .single hm₁ (ht.branch thenBranch (by simp [Stmt.branches])).append
    · cases elseBranch with
      | none => trivial
      | some branch => exact .single hm₁ (ht.branch branch (by simp [Stmt.branches])).append
  | while_ condition body =>
    have hcondition := ht.evaluated condition (by simp [Stmt.operands])
    have hbody := ht.branch body (by simp [Stmt.branches])
    simp only [Task.opening,List.append_nil]
    apply Successive.cons hm hcondition
    apply Successive.onResult (hall.expr condition hm hcondition)
    intro c m₁ _ hm₁ _
    split
    · apply Successive.cons hm₁ hbody.append
      apply Successive.onResult (hall.stmt body hm₁ hbody.append)
      intro outcome m₂ _ hm₂ _
      cases outcome with
      | normal => exact .single hm₂ ht.append.append
      | returned value => trivial
    · trivial
  | funDecl | classDecl => trivial

/-- The tasks that a task calls are begun in rooted machines, after the environments that the task
creates first. -/
theorem successive_callees (t : Task) (hm : m.Rooted p os here) (ht : t.Rooted p os here) :
    Successive p vars n (os ++ t.opening m) (t.callees ⟨p.table,vars⟩ n m) := by
  have hall := Rooting.all p vars n
  cases t with
  | expr e =>
    simp only [Task.opening,List.append_nil]
    exact successive_expr e hm ht
  | exprs es =>
    simp only [Task.opening,List.append_nil]
    cases es with
    | nil => trivial
    | cons e rest =>
      apply Successive.cons hm ht.first
      apply Successive.onResult (hall.expr e hm ht.first)
      intro x m₁ _ hm₁ _
      exact .single hm₁ ht.rest.append
  | call paren callee args => exact successive_call hm ht
  | invoke paren f args =>
    rw [Task.callees,Task.opening]
    cases hparams : Eval.bindParameters f.decl.params args .empty with
    | none => trivial
    | some bindings =>
      have hbindings := Eval.of_bindParameters ht.2 (fun _ _ hget => by cases hget) hparams
      apply Successive.onResult (roots_newEnv hm (.call f) rfl trivial (fun _ _ => trivial) hbindings)
      intro scope m₁ _ hm₁ hscope
      exact .single (hm₁.enter scope) (.body ht.1 (List.prefix_append os [.call f]) hscope)
  | stmt s => exact successive_stmt s hm ht
  | stmts ss =>
    simp only [Task.opening,List.append_nil]
    cases ss with
    | nil => trivial
    | cons s rest =>
      apply Successive.cons hm ht.firstStmt
      apply Successive.onResult (hall.stmt s hm ht.firstStmt)
      intro outcome m₁ _ hm₁ _
      cases outcome with
      | normal => exact .single hm₁ ht.restStmts.append
      | returned value => trivial

/-! ## Visits -/

/-- A visit is begun in a machine that is rooted in a log. -/
structure Visit.Rooted (p : Places) (os : List Origin) (v : Visit) : Prop where
  machine : v.machine.Rooted p os v.machine.memory.scope
  task : v.task.Rooted p os v.machine.memory.scope

/-- Every visit is begun in a machine that is rooted in a first part of the log. -/
theorem Visit.Reaches.rooted {top v : Visit} (h : Reaches ⟨p.table,vars⟩ top v)
    (htop : top.Rooted p os) :
    ∃ os', v.Rooted p os' ∧ os' ++ v.task.environments ⟨p.table,vars⟩ v.budget v.machine <+:
      os ++ top.task.environments ⟨p.table,vars⟩ top.budget top.machine := by
  induction h with
  | self => exact ⟨os,htop,List.prefix_refl _⟩
  | @call u v _ hcall ih =>
    obtain ⟨os',hu,hpart⟩ := ih
    obtain ⟨hbudget,hmem⟩ := hcall.mem_callees
    obtain ⟨before,rest,hsplit⟩ := List.append_of_mem hmem
    have hcallees : Successive p vars v.budget _ (u.task.callees ⟨p.table,vars⟩ v.budget u.machine) :=
      successive_callees u.task hu.machine hu.task
    rw [hsplit] at hcallees
    obtain ⟨hm,ht⟩ := hcallees.split
    refine ⟨_,⟨hm,ht⟩,List.IsPrefix.trans ?_ hpart⟩
    rw [hbudget,Task.environments,hsplit,List.flatMap_append,List.flatMap_cons]
    simp only [List.append_assoc,List.prefix_append_right_inj,List.prefix_append]

/-! ## Programs -/

theorem roots_program (budget : Nat) (ss : List Stmt) (hm : m.Rooted p os here)
    (ht : (Task.stmts ss).Rooted p os here) :
    Roots p (os ++ Eval.programEnvironments ⟨p.table,vars⟩ budget ss m) here (fun _ _ => True)
      (Eval.program ⟨p.table,vars⟩ budget ss m) := by
  induction ss generalizing m os with
  | nil =>
    rw [Eval.programEnvironments,List.append_nil]
    exact .pure hm trivial
  | cons s rest ih =>
    rw [Eval.programEnvironments,← List.append_assoc]
    apply ((Rooting.all p vars budget).stmt s hm ht.firstStmt).bind
    intro outcome m₁ _ hm₁ _
    exact ih hm₁ ht.restStmts.append

/-- The statement that follows on the first statements of a program. -/
theorem rooted_statement {budget : Nat} {before rest : List Stmt} {statement : Stmt} {m' : Machine}
    (hm : m.Rooted p os here) (ht : (Task.stmts (before ++ statement :: rest)).Rooted p os here)
    (hbefore : Eval.program ⟨p.table,vars⟩ budget before m = .ok () m') :
    ∃ os', Visit.Rooted p os' ⟨budget,.stmt statement,m'⟩ ∧
      os' ++ (Task.stmt statement).environments ⟨p.table,vars⟩ budget m' <+:
        os ++ Eval.programEnvironments ⟨p.table,vars⟩ budget (before ++ statement :: rest) m := by
  induction before generalizing m os with
  | nil =>
    cases hbefore
    obtain rfl := hm.scope
    refine ⟨os,⟨hm,ht.firstStmt⟩,?_⟩
    rw [List.nil_append,Eval.programEnvironments,← List.append_assoc]
    exact List.prefix_append _ _
  | cons s before ih =>
    obtain ⟨outcome,m₁,hs,hrest⟩ := Eval.of_bind_ok hbefore
    obtain ⟨hm₁,-⟩ := ((Rooting.all p vars budget).stmt s hm ht.firstStmt).of_ok hs
    obtain ⟨os',hvisit,hpart⟩ := ih hm₁ ht.restStmts.append hrest
    refine ⟨os',hvisit,?_⟩
    rw [List.cons_append,Eval.programEnvironments,hs,onResult_ok,← List.append_assoc]
    exact hpart

end

/-! ## Outside of classes -/

namespace Resolver

mutual

/-- What is accepted outside of classes uses neither `this` nor `super`. -/
theorem receivers_expr : ∀ (e : Expr) {r : Resolver}, r.class_ = none → (expr e r).faults = [] →
    e.receivers = []
  | .literal _, _, _, _ => rfl
  | .variable_ _, _, _, _ => rfl
  | .self keyword, r, hclass, hclean => by
    rw [expr,hclass] at hclean
    cases hclean
  | .superMethod keyword method, r, hclass, hclean => by
    rw [expr,hclass] at hclean
    cases (frame_refer keyword _).clean hclean
  | .grouping inner, _, hclass, hclean => receivers_expr inner hclass hclean
  | .unary _ _ operand, _, hclass, hclean => receivers_expr operand hclass hclean
  | .binary _ _ left right, r, hclass, hclean => by
    have hright := receivers_expr right ((frame_expr left r).class_.trans hclass) hclean
    have hleft := receivers_expr left hclass ((frame_expr right _).clean hclean)
    rw [Expr.receivers,hleft,hright,List.append_nil]
  | .logical _ left right, r, hclass, hclean => by
    have hright := receivers_expr right ((frame_expr left r).class_.trans hclass) hclean
    have hleft := receivers_expr left hclass ((frame_expr right _).clean hclean)
    rw [Expr.receivers,hleft,hright,List.append_nil]
  | .assign name value, _, hclass, hclean =>
    receivers_expr value hclass ((frame_refer name _).clean hclean)
  | .get object _, _, hclass, hclean => receivers_expr object hclass hclean
  | .set object _ value, r, hclass, hclean => by
    have hobject := receivers_expr object ((frame_expr value r).class_.trans hclass) hclean
    have hvalue := receivers_expr value hclass ((frame_expr object _).clean hclean)
    rw [Expr.receivers,hvalue,hobject,List.append_nil]
  | .call callee _ arguments, r, hclass, hclean => by
    have harguments := receivers_exprs arguments ((frame_expr callee r).class_.trans hclass) hclean
    have hcallee := receivers_expr callee hclass ((frame_exprs arguments _).clean hclean)
    rw [Expr.receivers,hcallee,harguments,List.append_nil]

theorem receivers_exprs : ∀ (es : List Expr) {r : Resolver}, r.class_ = none →
    (exprs es r).faults = [] → Expr.allReceivers es = []
  | [], _, _, _ => rfl
  | e :: rest, r, hclass, hclean => by
    have hrest := receivers_exprs rest ((frame_expr e r).class_.trans hclass) hclean
    have hfirst := receivers_expr e hclass ((frame_exprs rest _).clean hclean)
    rw [Expr.allReceivers,hfirst,hrest,List.append_nil]

end

mutual

theorem receivers_stmt : ∀ (s : Stmt) {r : Resolver}, r.class_ = none → (stmt s r).faults = [] →
    s.receivers = []
  | .expression value, _, hclass, hclean => receivers_expr value hclass hclean
  | .print value, _, hclass, hclean => receivers_expr value hclass hclean
  | .varDecl _ none, _, _, _ => rfl
  | .varDecl name (some value), r, hclass, hclean =>
    receivers_expr value ((frame_declare name r).class_.trans hclass)
      ((frame_define name _).clean hclean)
  | .block body, r, hclass, hclean =>
    receivers_stmts body (r := { r with scopes := .empty :: r.scopes }) hclass hclean
  | .ifElse condition thenBranch none, r, hclass, hclean => by
    have hthen := receivers_stmt thenBranch ((frame_expr condition r).class_.trans hclass) hclean
    have hcondition := receivers_expr condition hclass ((frame_stmt thenBranch _).clean hclean)
    rw [Stmt.receivers,hcondition,hthen,List.append_nil]
  | .ifElse condition thenBranch (some elseBranch), r, hclass, hclean => by
    have hbranch := (frame_expr condition r).class_.trans hclass
    have hafter := (frame_stmt elseBranch _).clean hclean
    have helse := receivers_stmt elseBranch ((frame_stmt thenBranch _).class_.trans hbranch) hclean
    have hthen := receivers_stmt thenBranch hbranch hafter
    have hcondition := receivers_expr condition hclass ((frame_stmt thenBranch _).clean hafter)
    rw [Stmt.receivers,hcondition,hthen,helse,List.append_nil,List.append_nil]
  | .while_ condition body, r, hclass, hclean => by
    have hbody := receivers_stmt body ((frame_expr condition r).class_.trans hclass) hclean
    have hcondition := receivers_expr condition hclass ((frame_stmt body _).clean hclean)
    rw [Stmt.receivers,hcondition,hbody,List.append_nil]
  | .return_ _ none, _, _, _ => rfl
  | .return_ keyword (some value), r, hclass, hclean => by
    have houter := frame_reportIf (p := r.function = none) .topLevelReturn keyword r
    have hinner := fun r : Resolver =>
      frame_reportIf (p := r.function = some .initializer) .initializerReturn keyword r
    exact receivers_expr value ((hinner _).class_.trans (houter.class_.trans hclass)) hclean
  | .funDecl decl, r, hclass, hclean => by
    have hdeclared := ((frame_define decl.name _).class_.trans
      (frame_declare decl.name r).class_).trans hclass
    exact receivers_functionDecl .function decl hdeclared hclean
  | .classDecl _ _ _, _, _, _ => rfl

theorem receivers_stmts : ∀ (ss : List Stmt) {r : Resolver}, r.class_ = none →
    (stmts ss r).faults = [] → Stmt.allReceivers ss = []
  | [], _, _, _ => rfl
  | s :: rest, r, hclass, hclean => by
    have hrest := receivers_stmts rest ((frame_stmt s r).class_.trans hclass) hclean
    have hfirst := receivers_stmt s hclass ((frame_stmts rest _).clean hclean)
    rw [Stmt.allReceivers,hfirst,hrest,List.append_nil]

theorem receivers_functionDecl : ∀ (context : FunctionContext) (decl : FunctionDecl) {r : Resolver},
    r.class_ = none → (functionDecl context decl r).faults = [] → decl.receivers = []
  | context, ⟨name,params,body⟩, r, hclass, hclean => by
    have hparams := (frame_parameters params
      { r with function := some context, scopes := .empty :: r.scopes }).class_.trans hclass
    exact receivers_stmts body hparams hclean

end

end Resolver

/-! ## Sessions -/

/-- A session whose machine is rooted in a log. The table has entries only for places that are
taken. -/
structure Session.Rooted (os : List Origin) (s : Session) : Prop where
  machine : s.machine.Rooted ⟨s.table,s.nextIndex⟩ os globalScope
  globals : os[globalScope]? = some .globals
  free : s.PlacesFree

namespace Session

variable {s : Session} {os : List Origin} {r : Request}

theorem rooted_start (clock : Clock) : (start clock).Rooted [.globals] where
  machine := Machine.rooted_start _ clock
  globals := rfl
  free := placesFree_start clock

/-- The statements of a source that is accepted can be run at the top level. -/
theorem Rooted.statements (h : s.Rooted os) (hload : (load s.nextIndex r.source).diagnostics = [])
    (hclean : (resolve s.table (load s.nextIndex r.source).statements).faults = []) :
    (Task.stmts (load s.nextIndex r.source).statements).Rooted
      ⟨(resolve s.table (load s.nextIndex r.source).statements).table,
        s.nextIndex + (load s.nextIndex r.source).tokens.length⟩ os globalScope := by
  have hsound := sound_load hload
  have hfresh : Resolver.Fresh (Stmt.allRefs (load s.nextIndex r.source).statements) s.table :=
    ⟨hsound.distinct,fun x hx => h.free x.index (hsound.range x hx).1⟩
  have hscoped := allScoped_of_resolve hsound.regular hfresh hclean
  have hfaults : (Resolver.stmts (load s.nextIndex r.source).statements { table := s.table }).faults =
      [] := List.reverse_eq_nil_iff.1 hclean
  have hreceivers := Resolver.receivers_stmts _ rfl hfaults
  refine ⟨[],none,.globals h.globals,hscoped,fun x hx => (hsound.range x hx).2,?_,?_⟩
  · rw [hreceivers]
    exact fun x hx => absurd hx List.not_mem_nil
  · exact fun _ _ _ _ => ⟨.globals,h.globals,trivial⟩

/-- More is resolved, and nothing is printed yet. -/
theorem Rooted.ready (h : s.Rooted os) (hload : (load s.nextIndex r.source).diagnostics = []) :
    Machine.Rooted ⟨(resolve s.table (load s.nextIndex r.source).statements).table,
        s.nextIndex + (load s.nextIndex r.source).tokens.length⟩ os globalScope
      { s.machine with printed := [] } :=
  (h.machine.later (Lexical.later_resolve hload)).congr rfl rfl

theorem Rooted.past (h : s.Rooted os) (tokens : List Token) : (s.past tokens).Rooted os where
  machine := h.machine.later ⟨Nat.le_add_right _ _,fun _ _ => rfl⟩
  globals := h.globals
  free := h.free.past tokens

theorem Rooted.perform (h : s.Rooted os) (r : Request) :
    (s.perform r).2.Rooted (os ++ s.environments (.run r)) := by
  have hglobals : (os ++ s.environments (.run r))[globalScope]? = some .globals :=
    getElem?_of_isPrefix (List.prefix_append _ _) h.globals
  have hfree := h.free.perform r
  by_cases hload : (load s.nextIndex r.source).diagnostics = []
  · by_cases hclean : (resolve s.table (load s.nextIndex r.source).statements).faults = []
    · refine ⟨?_,hglobals,hfree⟩
      rw [(perform_of_resolved hload hclean).2,environments,if_pos ⟨hload,hclean⟩]
      exact (roots_program r.budget _ (h.ready hload) (h.statements hload hclean)).rooted
    · refine ⟨?_,hglobals,hfree⟩
      rw [(perform_of_unresolved hload hclean).2,environments,if_neg fun hboth => hclean hboth.2,
        List.append_nil]
      exact h.machine.later (Lexical.later_resolve hload)
  · rw [(perform_of_unreadable hload).2,environments,if_neg fun hboth => hload hboth.1,
      List.append_nil]
    exact h.past _

theorem Rooted.afterCalls (h : s.Rooted os) (calls : List Call) :
    (s.afterCalls calls).Rooted (os ++ s.allEnvironments calls) := by
  induction calls generalizing s os with
  | nil =>
    rw [allEnvironments,List.append_nil]
    exact h
  | cons c rest ih =>
    rw [allEnvironments,← List.append_assoc]
    apply ih
    cases c with
    | run r => exact h.perform r
    | showTree source =>
      have hnext : (s.obey (.showTree source)).2 = _ := showTree_snd source
      rw [hnext,environments,List.append_nil]
      exact h.past _

/-- Every visit of a run is begun in a machine that is rooted in a first part of the log. The
environments that the visit creates are next in the log. -/
theorem Makes.rooted {v : Visit} (h : s.Makes r v) (hs : s.Rooted os) :
    ∃ p os', p.table = (s.perform r).2.table ∧ v.Rooted p os' ∧
      os' ++ v.task.environments ⟨(s.perform r).2.table,r.processVars⟩ v.budget v.machine <+:
        os ++ s.environments (.run r) := by
  obtain ⟨hload,hclean,before,statement,rest,m,hsplit,hbefore,hreach⟩ := h
  have hstatements := hs.statements hload hclean
  have hready := hs.ready hload
  rw [(perform_of_resolved hload hclean).2,environments,if_pos ⟨hload,hclean⟩]
  generalize (resolve s.table (load s.nextIndex r.source).statements).table = table at *
  rw [hsplit] at hstatements ⊢
  obtain ⟨os₁,htop,hpart⟩ := rooted_statement hready hstatements hbefore
  obtain ⟨os₂,hvisit,hinner⟩ := hreach.rooted htop
  exact ⟨_,os₂,rfl,hvisit,hinner.trans hpart⟩

/-- In the environment of a block nothing is ever bound but what the block declares. -/
theorem Makes.declared_of_bound {n : Nat} {body : List Stmt} {m m' : Machine}
    (h : s.Makes r ⟨n + 1,.stmt (.block body),m⟩) (hs : s.Rooted os) {p : Places}
    {os' later : List Origin} {here : EnvId} (hm' : m'.Rooted p os' here)
    (hos' : os' <+: os ++ s.environments (.run r) ++ later) {name : Bytes} {x : Value}
    (hbound : m'.memory.store.bound? m.memory.store.size name = some x) :
    ∃ st ∈ body, ∃ token, st.declared? = some token ∧ token.lexeme = name := by
  obtain ⟨q,os₁,-,hvisit,hpart⟩ := h.rooted hs
  have hentry : (os ++ s.environments (.run r) ++ later)[m.memory.store.size]? =
      some (.block m.memory.scope body) := by
    have hsize : m.memory.store.size = os₁.length := hvisit.machine.formed.size
    apply getElem?_of_isPrefix (hpart.trans (List.prefix_append _ _))
    rw [hsize,List.getElem?_append_right (Nat.le_refl _),Nat.sub_self]
    rfl
  obtain ⟨origin,horigin,hadmits⟩ := hm'.admitted hbound
  have hsame := getElem?_of_isPrefix hos' horigin
  rw [hentry] at hsame
  obtain rfl := Option.some.inj hsame
  exact hadmits

/-- The log of a history goes through that of each of its calls. -/
theorem allEnvironments_append (before : List Call) (c : Call) (after : List Call) :
    s.allEnvironments (before ++ c :: after) = s.allEnvironments before ++
      ((s.afterCalls before).environments c ++ ((s.afterCalls before).obey c).2.allEnvironments after) := by
  induction before generalizing s with
  | nil => rfl
  | cons first rest ih =>
    rw [List.cons_append,allEnvironments,ih,allEnvironments,List.append_assoc,Session.afterCalls]

/-- The same for the visits of one run in a history, with the log of the whole history. -/
theorem Makes.logged {clock : Clock} {before : List Call} {v : Visit}
    (h : ((start clock).afterCalls before).Makes r v) (after : List Call) :
    let s := (start clock).afterCalls before
    ∃ p os, p.table = (s.perform r).2.table ∧ v.Rooted p os ∧
      os ++ v.task.environments ⟨(s.perform r).2.table,r.processVars⟩ v.budget v.machine <+:
        .globals :: (start clock).allEnvironments (before ++ .run r :: after) := by
  obtain ⟨p,os,htable,hrooted,hpart⟩ := h.rooted ((rooted_start clock).afterCalls before)
  refine ⟨p,os,htable,hrooted,hpart.trans ?_⟩
  rw [allEnvironments_append,← List.append_assoc]
  exact List.prefix_append _ _

end Session

end Scriptlet
