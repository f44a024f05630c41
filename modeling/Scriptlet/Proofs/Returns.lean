import Scriptlet.Proofs.Scoping.Walk
import Scriptlet.Proofs.Writes

/-! # A return ends its own call

The statements that run between a call and its end are those of one activation: the body of the
function, and what blocks, branches and loops of the body run, but not what functions run that are
called from there. A statement ends with a return exactly when its activation has come to a return
statement, which then is the last statement of the activation. Outside of functions there is none,
as the resolver reports it.
-/
namespace Scriptlet

/-! ## Statements of their own -/

mutual

/-- A statement and those inside of it that no function or class declaration in it encloses. -/
def Stmt.parts : Stmt → List Stmt
  | .block body => .block body :: Stmt.allParts body
  | .ifElse condition thenBranch none => .ifElse condition thenBranch none :: thenBranch.parts
  | .ifElse condition thenBranch (some elseBranch) =>
    .ifElse condition thenBranch (some elseBranch) :: (thenBranch.parts ++ elseBranch.parts)
  | .while_ condition body => .while_ condition body :: body.parts
  | .expression value => [.expression value]
  | .print value => [.print value]
  | .varDecl name initial => [.varDecl name initial]
  | .return_ keyword value => [.return_ keyword value]
  | .funDecl decl => [.funDecl decl]
  | .classDecl name superclass methods => [.classDecl name superclass methods]

def Stmt.allParts : List Stmt → List Stmt
  | [] => []
  | s :: rest => s.parts ++ Stmt.allParts rest

end

theorem Stmt.mem_parts_self (s : Stmt) : s ∈ s.parts := by
  cases s with
  | ifElse condition thenBranch elseBranch => cases elseBranch <;> simp [Stmt.parts]
  | _ => simp [Stmt.parts]

namespace Task

/-- The statements that a task can come to within its activation. -/
def parts : Task → List Stmt
  | .stmt s => s.parts
  | .stmts ss => Stmt.allParts ss
  | _ => []

/-- A task that runs statements. -/
def IsStmt : Task → Prop
  | .stmt _ | .stmts _ => True
  | _ => False

instance : (t : Task) → Decidable t.IsStmt
  | .stmt _ | .stmts _ => isTrue trivial
  | .expr _ | .exprs _ | .call _ _ _ | .invoke _ _ _ => isFalse id

variable (ctx : Context)

/-- The visits of an activation that begins with a task, in the order in which they are begun. What
an expression does, calls of functions above all, is no part of it. -/
def activation : Nat → Task → Machine → List Visit
  | 0, t, m => [⟨0,t,m⟩]
  | n + 1, t, m => ⟨n + 1,t,m⟩ ::
    if t.IsStmt then (t.callees ctx n m).flatMap fun c => activation n c.1 c.2 else []

end Task

/-- The second visit is made within the activation that begins with the first one. -/
inductive Visit.Runs (ctx : Context) (u : Visit) : Visit → Prop
  | self : Runs ctx u u
  | call {v v' : Visit} : Runs ctx u v → v.task.IsStmt → Visit.Calls ctx v v' → Runs ctx u v'

section

variable {ctx : Context} {n : Nat} {t : Task} {m : Machine} {u v v' : Visit}

theorem mem_activation_self (u : Visit) : u ∈ u.task.activation ctx u.budget u.machine := by
  obtain ⟨budget,task,machine⟩ := u
  cases budget <;> simp [Task.activation]

theorem mem_activation_of_calls (h : Visit.Calls ctx u v) (hu : u.task.IsStmt) :
    v ∈ u.task.activation ctx u.budget u.machine := by
  obtain ⟨hbudget,hmem⟩ := h.mem_callees
  rw [hbudget,Task.activation,if_pos hu]
  refine List.mem_cons_of_mem _ (List.mem_flatMap.2 ⟨_,hmem,?_⟩)
  exact mem_activation_self v

/-- An activation has with a visit all that this visit runs. -/
theorem activation_subset (h : v ∈ t.activation ctx n m)
    (hv : v' ∈ v.task.activation ctx v.budget v.machine) : v' ∈ t.activation ctx n m := by
  induction n generalizing t m with
  | zero =>
    obtain rfl := List.mem_singleton.1 h
    exact hv
  | succ n ih =>
    rw [Task.activation] at h ⊢
    rcases List.mem_cons.1 h with rfl | h
    · exact hv
    · split at h
      · next ht =>
        obtain ⟨c,hc,hmem⟩ := List.mem_flatMap.1 h
        rw [if_pos ht]
        exact List.mem_cons_of_mem _ (List.mem_flatMap.2 ⟨c,hc,ih hmem⟩)
      · cases h

theorem Visit.Runs.mem_activation (h : Visit.Runs ctx u v) :
    v ∈ u.task.activation ctx u.budget u.machine := by
  induction h with
  | self => exact mem_activation_self u
  | call _ hstmt hcall ih => exact activation_subset ih (mem_activation_of_calls hcall hstmt)

theorem mem_onResult {α β : Type} {result : EStateM.Result Abort Machine α}
    {next : α → Machine → List β} {b : β} (h : b ∈ onResult result next) :
    ∃ a m', result = .ok a m' ∧ b ∈ next a m' := by
  cases result with
  | ok a m' => exact ⟨a,m',rfl,h⟩
  | error e m' => cases h

/-- What a statement runs are statements inside of it. -/
theorem parts_of_mem_callees (ht : t.IsStmt) {c : Task × Machine} (hc : c ∈ t.callees ctx n m) :
    c.1.parts ⊆ t.parts := by
  have hexpr : ∀ {e : Expr} {m' : Machine} {ss : List Stmt}, c = (.expr e,m') → c.1.parts ⊆ ss := by
    rintro e m' ss rfl
    exact List.nil_subset ss
  cases t with
  | stmts ss =>
    cases ss with
    | nil => cases hc
    | cons s rest =>
      rcases List.mem_cons.1 hc with rfl | hc
      · exact List.subset_append_left s.parts _
      · obtain ⟨outcome,m₁,-,hc⟩ := mem_onResult hc
        cases outcome with
        | returned x => cases hc
        | normal =>
          obtain rfl := List.mem_singleton.1 hc
          exact List.subset_append_right s.parts _
  | stmt s =>
    cases s with
    | expression value | print value => exact hexpr (List.mem_singleton.1 hc)
    | varDecl name value | return_ keyword value =>
      cases value with
      | none => cases hc
      | some value => exact hexpr (List.mem_singleton.1 hc)
    | block body =>
      obtain rfl := List.mem_singleton.1 hc
      exact List.subset_cons_self _ _
    | ifElse condition thenBranch elseBranch =>
      rcases List.mem_cons.1 hc with hc | hc
      · exact hexpr hc
      · obtain ⟨value,m₁,-,hc⟩ := mem_onResult hc
        split at hc
        · obtain rfl := List.mem_singleton.1 hc
          cases elseBranch with
          | none => exact List.subset_cons_self _ _
          | some branch => exact List.subset_cons_of_subset _ (List.subset_append_left _ _)
        · cases elseBranch with
          | none => cases hc
          | some branch =>
            obtain rfl := List.mem_singleton.1 hc
            exact List.subset_cons_of_subset _ (List.subset_append_right _ _)
    | while_ condition body =>
      rcases List.mem_cons.1 hc with hc | hc
      · exact hexpr hc
      · obtain ⟨value,m₁,-,hc⟩ := mem_onResult hc
        split at hc
        · rcases List.mem_cons.1 hc with rfl | hc
          · exact List.subset_cons_self _ _
          · obtain ⟨outcome,m₂,-,hc⟩ := mem_onResult hc
            cases outcome with
            | returned x => cases hc
            | normal =>
              obtain rfl := List.mem_singleton.1 hc
              exact List.Subset.refl _
        · cases hc
    | funDecl decl => cases hc
    | classDecl name superclass methods => cases hc
  | _ => exact ht.elim

theorem mem_parts_of_mem_activation (h : v ∈ t.activation ctx n m) {s : Stmt}
    (hs : v.task = .stmt s) : s ∈ t.parts := by
  induction n generalizing t m with
  | zero =>
    obtain rfl := List.mem_singleton.1 h
    obtain rfl : t = .stmt s := hs
    exact s.mem_parts_self
  | succ n ih =>
    rw [Task.activation] at h
    rcases List.mem_cons.1 h with rfl | h
    · obtain rfl : t = .stmt s := hs
      exact s.mem_parts_self
    · split at h
      · next ht =>
        obtain ⟨c,hc,hmem⟩ := List.mem_flatMap.1 h
        exact parts_of_mem_callees ht hc (ih hmem)
      · cases h

end

/-! ## How an activation ends -/

def Visit.IsReturn (v : Visit) : Prop := ∃ keyword value, v.task = .stmt (.return_ keyword value)

/-- How an activation with the given visits ends, and in which machine. Either none of its statements
is a return. Or the last one is, and no other: its value, if it has one, is evaluated after it is
begun, and nothing else happens, but that the environments of blocks are left. -/
inductive Ended (ctx : Context) : List Visit → Outcome → Machine → Prop
  | normal {visits : List Visit} {m : Machine} : (∀ v ∈ visits, ¬ v.IsReturn) →
      Ended ctx visits .normal m
  | bare {before : List Visit} {n : Nat} {keyword : Token} {m m' : Machine} :
      (∀ v ∈ before, ¬ v.IsReturn) → m' = { m with memory.scope := m'.memory.scope } →
      Ended ctx (before ++ [⟨n,.stmt (.return_ keyword none),m⟩]) (.returned .nil) m'
  | value {before : List Visit} {n : Nat} {keyword : Token} {e : Expr} {x : Value}
      {m m₁ m' : Machine} : (∀ v ∈ before, ¬ v.IsReturn) → Eval.expr ctx n e m = .ok x m₁ →
      m' = { m₁ with memory.scope := m'.memory.scope } →
      Ended ctx (before ++ [⟨n + 1,.stmt (.return_ keyword (some e)),m⟩,⟨n,.expr e,m⟩])
        (.returned x) m'

namespace Ended

variable {ctx : Context} {first visits : List Visit} {outcome : Outcome} {m : Machine}

/-- What comes first is no return. -/
theorem prepend (hfirst : ∀ v ∈ first, ¬ v.IsReturn) (h : Ended ctx visits outcome m) :
    Ended ctx (first ++ visits) outcome m := by
  cases h with
  | normal hvisits => exact .normal (List.forall_mem_append.2 ⟨hfirst,hvisits⟩)
  | bare hbefore hend =>
    rw [← List.append_assoc]
    exact .bare (List.forall_mem_append.2 ⟨hfirst,hbefore⟩) hend
  | value hbefore hx hend =>
    rw [← List.append_assoc]
    exact .value (List.forall_mem_append.2 ⟨hfirst,hbefore⟩) hx hend

/-- An environment is left. -/
theorem leave (h : Ended ctx visits outcome m) (scope : EnvId) :
    Ended ctx visits outcome { m with memory.scope := scope } := by
  cases h with
  | normal hvisits => exact .normal hvisits
  | bare hbefore hend => exact .bare hbefore (by rw [hend])
  | value hbefore hx hend => exact .value hbefore hx (by rw [hend])

theorem not_isReturn (h : Ended ctx visits .normal m) : ∀ v ∈ visits, ¬ v.IsReturn := by
  cases h with
  | normal hvisits => exact hvisits

theorem exists_isReturn {x : Value} (h : Ended ctx visits (.returned x) m) :
    ∃ v ∈ visits, v.IsReturn := by
  cases h with
  | bare => exact ⟨_,List.mem_append_right _ List.mem_cons_self,_,_,rfl⟩
  | value => exact ⟨_,List.mem_append_right _ List.mem_cons_self,_,_,rfl⟩

end Ended

/-- Every activation with the given budget that has a result ends as it should. -/
structure Unwinding (ctx : Context) (n : Nat) : Prop where
  stmt : ∀ {s m outcome m'}, Eval.stmt ctx n s m = .ok outcome m' →
    Ended ctx ((Task.stmt s).activation ctx n m) outcome m'
  stmts : ∀ {ss m outcome m'}, Eval.stmts ctx n ss m = .ok outcome m' →
    Ended ctx ((Task.stmts ss).activation ctx n m) outcome m'

namespace Unwinding

variable {ctx : Context} {n : Nat} {m m' : Machine} {outcome : Outcome}

theorem zero (ctx : Context) : Unwinding ctx 0 where
  stmt h := by cases h
  stmts h := by cases h

/-- A statement that is no return and runs no others. -/
theorem not_isReturn_stmt {s : Stmt} (hs : ∀ keyword value, s ≠ .return_ keyword value) :
    ¬ (Visit.mk n (.stmt s) m).IsReturn := by
  rintro ⟨keyword,value,htask⟩
  exact hs keyword value (Task.stmt.inj htask)

theorem not_isReturn_expr {e : Expr} : ¬ (Visit.mk n (.expr e) m).IsReturn := by
  rintro ⟨keyword,value,htask⟩
  cases htask

theorem not_isReturn_stmts {ss : List Stmt} : ¬ (Visit.mk n (.stmts ss) m).IsReturn := by
  rintro ⟨keyword,value,htask⟩
  cases htask

theorem activation_expr (e : Expr) : (Task.expr e).activation ctx n m = [⟨n,.expr e,m⟩] := by
  cases n <;> rfl

theorem stmts_succ (h : Unwinding ctx n) {ss : List Stmt}
    (hrun : Eval.stmts ctx (n + 1) ss m = .ok outcome m') :
    Ended ctx ((Task.stmts ss).activation ctx (n + 1) m) outcome m' := by
  cases ss with
  | nil =>
    cases hrun
    refine .normal fun v hv => ?_
    obtain rfl := List.mem_singleton.1 hv
    exact not_isReturn_stmts
  | cons s rest =>
    obtain ⟨first,m₁,hfirst,hrest⟩ := Eval.of_bind_ok hrun
    have hs := h.stmt hfirst
    have hself : ∀ v ∈ [Visit.mk (n + 1) (.stmts (s :: rest)) m], ¬ v.IsReturn :=
      List.forall_mem_singleton.2 not_isReturn_stmts
    cases first with
    | normal =>
      have hsplit : (Task.stmts (s :: rest)).activation ctx (n + 1) m =
          [⟨n + 1,.stmts (s :: rest),m⟩] ++ ((Task.stmt s).activation ctx n m ++
            (Task.stmts rest).activation ctx n m₁) := by
        simp [Task.activation,Task.IsStmt,Task.callees,hfirst]
      rw [hsplit]
      exact ((h.stmts hrest).prepend hs.not_isReturn).prepend hself
    | returned x =>
      cases hrest
      have hsplit : (Task.stmts (s :: rest)).activation ctx (n + 1) m =
          [⟨n + 1,.stmts (s :: rest),m⟩] ++ (Task.stmt s).activation ctx n m := by
        simp [Task.activation,Task.IsStmt,Task.callees,hfirst]
      rw [hsplit]
      exact hs.prepend hself

/-- A statement that is no return and runs no others ends normally. -/
theorem ended_plain {s : Stmt} (hs : ∀ keyword value, s ≠ .return_ keyword value)
    (hcallees : ∀ c ∈ (Task.stmt s).callees ctx n m, ∃ e m₁, c = (.expr e,m₁)) :
    Ended ctx ((Task.stmt s).activation ctx (n + 1) m) .normal m' := by
  refine .normal fun v hv => ?_
  have hstmt : (Task.stmt s).IsStmt := trivial
  rw [Task.activation,if_pos hstmt] at hv
  rcases List.mem_cons.1 hv with rfl | hv
  · exact not_isReturn_stmt hs
  · obtain ⟨c,hc,hmem⟩ := List.mem_flatMap.1 hv
    obtain ⟨e,m₁,rfl⟩ := hcallees c hc
    rw [activation_expr] at hmem
    obtain rfl := List.mem_singleton.1 hmem
    exact not_isReturn_expr

/-- A statement whose last part is another one ends as that one does. -/
theorem ended_last {s : Stmt} (hs : ∀ keyword value, s ≠ .return_ keyword value)
    {between visits : List Visit} (hbetween : ∀ v ∈ between, ¬ v.IsReturn)
    (hsplit : (Task.stmt s).activation ctx (n + 1) m = ⟨n + 1,.stmt s,m⟩ :: (between ++ visits))
    (hlast : Ended ctx visits outcome m') :
    Ended ctx ((Task.stmt s).activation ctx (n + 1) m) outcome m' := by
  rw [hsplit]
  exact (hlast.prepend hbetween).prepend (List.forall_mem_singleton.2 (not_isReturn_stmt hs))

theorem ifElse_succ (h : Unwinding ctx n) {condition : Expr} {thenBranch : Stmt}
    {elseBranch : Option Stmt}
    (hrun : Eval.stmt ctx (n + 1) (.ifElse condition thenBranch elseBranch) m = .ok outcome m') :
    Ended ctx ((Task.stmt (.ifElse condition thenBranch elseBranch)).activation ctx (n + 1) m)
      outcome m' := by
  obtain ⟨c,m₁,hc,hbranch⟩ := Eval.of_bind_ok hrun
  have hcondition : ∀ v ∈ [Visit.mk n (.expr condition) m], ¬ v.IsReturn :=
    List.forall_mem_singleton.2 not_isReturn_expr
  cases htruthy : c.truthy with
  | true =>
    rw [if_pos htruthy] at hbranch
    refine ended_last (by simp) hcondition ?_ (h.stmt hbranch)
    simp [Task.activation,Task.IsStmt,Task.callees,hc,htruthy,activation_expr]
  | false =>
    rw [if_neg (by simp [htruthy])] at hbranch
    cases elseBranch with
    | none =>
      cases hbranch
      refine ended_plain (by simp) fun c' hc' => ?_
      simp only [Task.callees,hc,onResult_ok,htruthy] at hc'
      exact ⟨condition,m,by simpa using hc'⟩
    | some branch =>
      refine ended_last (by simp) hcondition ?_ (h.stmt hbranch)
      simp [Task.activation,Task.IsStmt,Task.callees,hc,htruthy,activation_expr]

/-- A round of a loop is followed by the loop itself, unless it returns. -/
theorem while_succ (h : Unwinding ctx n) {condition : Expr} {body : Stmt}
    (hrun : Eval.stmt ctx (n + 1) (.while_ condition body) m = .ok outcome m') :
    Ended ctx ((Task.stmt (.while_ condition body)).activation ctx (n + 1) m) outcome m' := by
  obtain ⟨c,m₁,hc,hloop⟩ := Eval.of_bind_ok hrun
  have hcondition : ¬ (Visit.mk n (.expr condition) m).IsReturn := not_isReturn_expr
  cases htruthy : c.truthy with
  | false =>
    rw [if_neg (by simp [htruthy])] at hloop
    cases hloop
    refine ended_plain (by simp) fun c' hc' => ?_
    simp only [Task.callees,hc,onResult_ok,htruthy] at hc'
    exact ⟨condition,m,by simpa using hc'⟩
  | true =>
    rw [if_pos htruthy] at hloop
    obtain ⟨round,m₂,hround,hrest⟩ := Eval.of_bind_ok hloop
    have hbody := h.stmt hround
    cases round with
    | normal =>
      refine ended_last (by simp) (List.forall_mem_cons.2 ⟨hcondition,hbody.not_isReturn⟩) ?_
        (h.stmt hrest)
      simp [Task.activation,Task.IsStmt,Task.callees,hc,htruthy,hround,activation_expr]
    | returned x =>
      cases hrest
      refine ended_last (by simp) (List.forall_mem_singleton.2 hcondition) ?_ hbody
      simp [Task.activation,Task.IsStmt,Task.callees,hc,htruthy,hround,activation_expr]

theorem return_succ {keyword : Token} {value : Option Expr}
    (hrun : Eval.stmt ctx (n + 1) (.return_ keyword value) m = .ok outcome m') :
    Ended ctx ((Task.stmt (.return_ keyword value)).activation ctx (n + 1) m) outcome m' := by
  cases value with
  | none =>
    cases hrun
    have hvisits : (Task.stmt (.return_ keyword none)).activation ctx (n + 1) m =
        [] ++ [⟨n + 1,.stmt (.return_ keyword none),m⟩] := rfl
    rw [hvisits]
    exact .bare (by simp) rfl
  | some e =>
    obtain ⟨x,m₁,hx,hdone⟩ := Eval.of_bind_ok hrun
    cases hdone
    have hvisits : (Task.stmt (.return_ keyword (some e))).activation ctx (n + 1) m =
        [] ++ [⟨n + 1,.stmt (.return_ keyword (some e)),m⟩,⟨n,.expr e,m⟩] := by
      simp [Task.activation,Task.IsStmt,Task.callees,activation_expr]
    rw [hvisits]
    exact .value (by simp) hx rfl

theorem stmt_succ (h : Unwinding ctx n) {s : Stmt}
    (hrun : Eval.stmt ctx (n + 1) s m = .ok outcome m') :
    Ended ctx ((Task.stmt s).activation ctx (n + 1) m) outcome m' := by
  cases s with
  | expression value =>
    obtain ⟨x,m₁,-,hdone⟩ := Eval.of_bind_ok hrun
    cases hdone
    exact ended_plain (by simp) fun c hc => ⟨value,m,List.mem_singleton.1 hc⟩
  | print value =>
    obtain ⟨x,m₁,-,hprint⟩ := Eval.of_bind_ok hrun
    cases hprint
    exact ended_plain (by simp) fun c hc => ⟨value,m,List.mem_singleton.1 hc⟩
  | varDecl name initial =>
    cases initial with
    | none =>
      cases hrun
      exact ended_plain (by simp) fun c hc => by cases hc
    | some value =>
      obtain ⟨x,m₁,-,hdefine⟩ := Eval.of_bind_ok hrun
      cases hdefine
      exact ended_plain (by simp) fun c hc => ⟨value,m,List.mem_singleton.1 hc⟩
  | block body =>
    obtain ⟨_,_,hget,hscope⟩ := Eval.of_bind_ok hrun
    cases hget
    obtain ⟨scope,m₁,henv,hinner⟩ := Eval.of_bind_ok hscope
    obtain ⟨m₂,hbody,rfl⟩ := Eval.of_inScope_ok hinner
    have hnothing : ∀ v ∈ ([] : List Visit), ¬ v.IsReturn := by simp
    refine ended_last (by simp) hnothing ?_ ((h.stmts hbody).leave _)
    simp [Task.activation,Task.IsStmt,Task.callees,henv]
  | ifElse condition thenBranch elseBranch => exact h.ifElse_succ hrun
  | while_ condition body => exact h.while_succ hrun
  | return_ keyword value => exact return_succ hrun
  | funDecl decl =>
    cases hrun
    exact ended_plain (by simp) fun c hc => by cases hc
  | classDecl name superclass methods =>
    obtain ⟨x,m₁,-,hdone⟩ := Eval.of_bind_ok hrun
    cases hdone
    exact ended_plain (by simp) fun c hc => by cases hc

theorem all (ctx : Context) (n : Nat) : Unwinding ctx n := by
  induction n with
  | zero => exact zero ctx
  | succ n ih => exact ⟨ih.stmt_succ,ih.stmts_succ⟩

end Unwinding

/-! ## Outside of functions -/

namespace Resolver

/-- A return that no function encloses is reported. -/
theorem function_of_return {r : Resolver} {keyword : Token} {value : Option Expr}
    (hclean : (stmt (.return_ keyword value) r).faults = []) : r.function ≠ none := by
  intro hfunction
  let outer := if r.function = none then r.report .topLevelReturn keyword else r
  have houter : outer.faults = [] := by
    cases value with
    | none => exact hclean
    | some e =>
      let inner := if outer.function = some .initializer then outer.report .initializerReturn keyword
        else outer
      have hframe : Frame e.refs outer (expr e inner) :=
        (frame_reportIf .initializerReturn keyword outer).after (frame_expr e inner)
      exact hframe.clean hclean
  have hreported : outer = r.report .topLevelReturn keyword := if_pos hfunction
  rw [hreported] at houter
  cases houter

mutual

/-- What is accepted outside of functions has no return of its own. -/
theorem not_mem_parts_stmt : ∀ (s : Stmt) {r : Resolver}, r.function = none →
    (stmt s r).faults = [] → ∀ keyword value, .return_ keyword value ∉ s.parts
  | .expression _, _, _, _ => by simp [Stmt.parts]
  | .print _, _, _, _ => by simp [Stmt.parts]
  | .varDecl _ _, _, _, _ => by simp [Stmt.parts]
  | .funDecl _, _, _, _ => by simp [Stmt.parts]
  | .classDecl _ _ _, _, _, _ => by simp [Stmt.parts]
  | .return_ _ _, _, hfunction, hclean => absurd hfunction (function_of_return hclean)
  | .block body, r, hfunction, hclean => by
    have hbody := not_mem_parts_stmts body (r := { r with scopes := .empty :: r.scopes }) hfunction
      hclean
    simpa [Stmt.parts] using hbody
  | .ifElse condition thenBranch none, r, hfunction, hclean => by
    have hcondition := (frame_expr condition r).function.trans hfunction
    have hthen := not_mem_parts_stmt thenBranch hcondition hclean
    simpa [Stmt.parts] using hthen
  | .ifElse condition thenBranch (some elseBranch), r, hfunction, hclean => by
    have hcondition := (frame_expr condition r).function.trans hfunction
    have hbranch := (frame_stmt thenBranch (expr condition r)).function.trans hcondition
    have helse := not_mem_parts_stmt elseBranch hbranch hclean
    have hthen := not_mem_parts_stmt thenBranch hcondition ((frame_stmt elseBranch _).clean hclean)
    simpa [Stmt.parts] using fun keyword value => ⟨hthen keyword value,helse keyword value⟩
  | .while_ condition body, r, hfunction, hclean => by
    have hcondition := (frame_expr condition r).function.trans hfunction
    have hbody := not_mem_parts_stmt body hcondition hclean
    simpa [Stmt.parts] using hbody

theorem not_mem_parts_stmts : ∀ (ss : List Stmt) {r : Resolver}, r.function = none →
    (stmts ss r).faults = [] → ∀ keyword value, .return_ keyword value ∉ Stmt.allParts ss
  | [], _, _, _ => by simp [Stmt.allParts]
  | s :: rest, r, hfunction, hclean => by
    have hfirst := not_mem_parts_stmt s hfunction ((frame_stmts rest _).clean hclean)
    have hrest := not_mem_parts_stmts rest ((frame_stmt s r).function.trans hfunction) hclean
    simpa [Stmt.allParts] using fun keyword value => ⟨hfirst keyword value,hrest keyword value⟩

end

end Resolver

theorem Stmt.parts_subset_allParts {s : Stmt} {ss : List Stmt} (h : s ∈ ss) :
    s.parts ⊆ Stmt.allParts ss := by
  induction ss with
  | nil => cases h
  | cons first rest ih =>
    rcases List.mem_cons.1 h with rfl | h
    · exact List.subset_append_left _ _
    · exact List.subset_append_of_subset_right _ (ih h)

/-! ## Calls -/

/-- A statement that returns has a return of its own. -/
theorem exists_return_of_returned {ctx : Context} {n : Nat} {s : Stmt} {m m' : Machine} {x : Value}
    (h : Eval.stmt ctx n s m = .ok (.returned x) m') :
    ∃ keyword value, .return_ keyword value ∈ s.parts := by
  obtain ⟨v,hv,keyword,value,htask⟩ := ((Unwinding.all ctx n).stmt h).exists_isReturn
  exact ⟨keyword,value,mem_parts_of_mem_activation hv htask⟩

theorem normal_of_resolve {table : Table} {program : List Stmt}
    (hclean : (resolve table program).faults = []) {s : Stmt} (hs : s ∈ program) {ctx : Context}
    {n : Nat} {m m' : Machine} {outcome : Outcome} (h : Eval.stmt ctx n s m = .ok outcome m') :
    outcome = .normal := by
  have hwalk : (Resolver.stmts program { table }).faults = [] := List.reverse_eq_nil_iff.1 hclean
  cases outcome with
  | normal => rfl
  | returned x =>
    obtain ⟨keyword,value,hpart⟩ := exists_return_of_returned h
    exact absurd (Stmt.parts_subset_allParts hs hpart)
      (Resolver.not_mem_parts_stmts program rfl hwalk keyword value)

/-- A call of a function that is no initializer gives what its body ended with. -/
theorem exists_ended_of_call {ctx : Context} {n : Nat} {paren : Token} {id : Nat} {f : Function}
    {args : List Value} {m m' : Machine} {x : Value} (hf : f.isInitializer = false)
    (h : Eval.call ctx n paren (.function id f) args m = .ok x m') :
    ∃ k bindings scope entered outcome, n = k + 2 ∧
      Eval.bindParameters f.decl.params args .empty = some bindings ∧
      Eval.newEnv f.closure bindings m = .ok scope entered ∧
      Ended ctx ((Task.stmts f.decl.body).activation ctx k { entered with memory.scope := scope })
        outcome m' ∧ (outcome = .normal ∧ x = .nil ∨ outcome = .returned x) := by
  cases n with
  | zero => cases h
  | succ n =>
    simp only [Eval.call,Value.arity?] at h
    split at h
    · cases h
    · cases n with
      | zero => cases h
      | succ k =>
        obtain ⟨bindings,_,hbindings,hbody⟩ := Eval.of_bind_ok h
        cases hparams : Eval.bindParameters f.decl.params args .empty with
        | none =>
          rw [hparams] at hbindings
          cases hbindings
        | some found =>
          rw [hparams] at hbindings
          cases hbindings
          obtain ⟨scope,entered,henv,hrun⟩ := Eval.of_bind_ok hbody
          obtain ⟨outcome,m₁,hscope,hresult⟩ := Eval.of_bind_ok hrun
          obtain ⟨m₂,hstmts,rfl⟩ := Eval.of_inScope_ok hscope
          rw [hf] at hresult
          cases hresult
          have hended := ((Unwinding.all ctx k).stmts hstmts).leave entered.memory.scope
          refine ⟨k,bindings,scope,entered,outcome,rfl,rfl,henv,hended,?_⟩
          cases outcome with
          | normal => exact .inl ⟨rfl,rfl⟩
          | returned x => exact .inr rfl

/-- A return ends its own call and nothing else. Of every statement that ends with a result: the
activation that it begins has all that it runs, comes only to statements inside of it, and ends with
a return exactly when it has come to one. What the resolver accepts never returns at the top level.
A call gives what its body ended with: the value of the one return that was run, after which nothing
of the body was, or nil. -/
theorem return_ends_its_own_call :
    (∀ (ctx : Context) (n : Nat) (s : Stmt) (m : Machine) (outcome : Outcome) (m' : Machine),
      Eval.stmt ctx n s m = .ok outcome m' →
      let visits := (Task.stmt s).activation ctx n m
      Ended ctx visits outcome m' ∧
      (∀ v, Visit.Runs ctx ⟨n,.stmt s,m⟩ v → v ∈ visits) ∧
      (∀ v ∈ visits, ∀ s', v.task = .stmt s' → s' ∈ s.parts) ∧
      ∀ x, outcome = .returned x → ∃ keyword value, .return_ keyword value ∈ s.parts) ∧
    (∀ (table : Table) (program : List Stmt), (resolve table program).faults = [] →
      ∀ s ∈ program, ∀ (ctx : Context) (n : Nat) (m : Machine) (outcome : Outcome) (m' : Machine),
      Eval.stmt ctx n s m = .ok outcome m' → outcome = .normal) ∧
    ∀ (ctx : Context) (n : Nat) (paren : Token) (id : Nat) (f : Function) (args : List Value)
      (m : Machine) (x : Value) (m' : Machine), f.isInitializer = false →
      Eval.call ctx n paren (.function id f) args m = .ok x m' →
      ∃ k bindings scope entered outcome, n = k + 2 ∧
        Eval.bindParameters f.decl.params args .empty = some bindings ∧
        Eval.newEnv f.closure bindings m = .ok scope entered ∧
        let body : Visit := ⟨k,.stmts f.decl.body,{ entered with memory.scope := scope }⟩
        let visits := body.task.activation ctx k body.machine
        (∀ v, Visit.Runs ctx body v → v ∈ visits) ∧ Ended ctx visits outcome m' ∧
        (outcome = .normal ∧ x = .nil ∨ outcome = .returned x) := by
  refine ⟨?_,?_,?_⟩
  · intro ctx n s m outcome m' hrun visits
    refine ⟨(Unwinding.all ctx n).stmt hrun,fun v hv => hv.mem_activation,?_,?_⟩
    · exact fun v hv s' htask => mem_parts_of_mem_activation hv htask
    · rintro x rfl
      exact exists_return_of_returned hrun
  · intro table program hclean s hs ctx n m outcome m' hrun
    exact normal_of_resolve hclean hs hrun
  · intro ctx n paren id f args m x m' hf hrun
    obtain ⟨k,bindings,scope,entered,outcome,hn,hparams,henv,hended,hx⟩ := exists_ended_of_call hf hrun
    refine ⟨k,bindings,scope,entered,outcome,hn,hparams,henv,fun v hv => hv.mem_activation,hended,hx⟩

end Scriptlet
