import Scriptlet.Proofs.Grammar
import Scriptlet.Proofs.Lexical.Budgets
import Scriptlet.Proofs.Lexical.Distances
import Scriptlet.Proofs.Origins.Runs

/-! # Counting loops

A counting loop is read as a `while` loop, with a block around it if it starts with a variable or an
expression, and a block around each round if there is a step. Here the meaning of a loop is given
directly, with one scope for all of its rounds. Both readings need different budgets and different
distances, and yet a program can not tell them apart.
-/
namespace Scriptlet.Lexical

/-- What a counting loop does first. -/
inductive LoopStart where
  | variable_ (name : Token) (initial : Option Expr)
  | expression (value : Expr)

def LoopStart.statement : LoopStart → Stmt
  | .variable_ name initial => .varDecl name initial
  | .expression value => .expression value

/-- A counting loop. Its body is no declaration. -/
structure Loop where
  start : Option LoopStart
  condition : Option Expr
  step : Option Expr
  body : Stmt
  silent : body.declared? = none

namespace Loop

/-- What the loop is read as. -/
def tree (loop : Loop) : Stmt :=
  .counting (loop.start.map LoopStart.statement) loop.condition loop.step loop.body

/-! ## The meaning of a loop -/

variable (vars : NameMap Bytes) (loop : Loop)

/-- The names that the rounds see: those around the loop, and its variable. -/
def enter (n : Nat) (names : Names) : Eval Names :=
  match loop.start with
  | none => return names
  | some start => do
    let (_,scope) ← Eval.stmt vars n (.nested names) start.statement
    return scope.names

/-- Whether there is another round. -/
def test (n : Nat) (names : Names) : Eval Bool :=
  match loop.condition with
  | none => return true
  | some condition => do
    let value ← Eval.expr vars n names condition
    return value.truthy

def advance (n : Nat) (names : Names) : Eval Unit :=
  match loop.step with
  | none => return ()
  | some step => do
    let _ ← Eval.expr vars n names step

/-- The body, and then the step. There is no step after a return or an error. -/
def round (n : Nat) (names : Names) : Eval (Outcome Names) := do
  match ← Eval.stmt vars n (.nested names) loop.body with
  | (.normal,_) =>
    loop.advance vars n names
    return .normal
  | (.returned value,_) => return .returned value

/-- Rounds one after the other, all with the same names. -/
def rounds : Nat → Names → Eval (Outcome Names)
  | 0, _ => throw .exhausted
  | n + 1, names => do
    if ← loop.test vars n names then
      match ← loop.round vars n names with
      | .normal => rounds n names
      | .returned value => return .returned value
    else return .normal

/-- The loop, in the scope of the given names. -/
def run (n : Nat) (names : Names) : Eval (Outcome Names) := do
  loop.rounds vars n (← loop.enter vars n names)

end Loop

/-- The grammar makes trees of loops. -/
theorem exists_loop {ts us : List Token} {start : Option Stmt} {dangling : Bool} {body : Stmt}
    (hstart : Grammar.Derives .loopStart ts start) (hbody : Grammar.Derives (.statement dangling) us body)
    (condition step : Option Expr) :
    ∃ loop : Loop, loop.tree = .counting start condition step body := by
  have hsilent : body.declared? = none := by
    cases hbody with
    | plainStatement h =>
      cases h
      rfl
    | @forStatement _ _ _ _ _ _ _ _ start =>
      cases start <;> rfl
    | _ => rfl
  cases hstart with
  | noStart => exact ⟨⟨none,condition,step,body,hsilent⟩,rfl⟩
  | variableStart h =>
    cases h with
    | @bareVariable _ name => exact ⟨⟨some (.variable_ name none),condition,step,body,hsilent⟩,rfl⟩
    | @initialVariable _ name _ _ _ value =>
      exact ⟨⟨some (.variable_ name (some value)),condition,step,body,hsilent⟩,rfl⟩
  | expressionStart h =>
    cases h with
    | @expressionStatement _ _ value =>
      exact ⟨⟨some (.expression value),condition,step,body,hsilent⟩,rfl⟩

/-! ## Statements that declare nothing -/

section

variable {vars : NameMap Bytes} {table : Table} {scopes : Scopes}

@[simp] theorem Scope.names_nested (names : Names) : (Scope.nested names).names = names := rfl

/-- Nothing but a declaration makes a difference between the top level and a block, and nothing else
changes the scope. -/
theorem stmt_of_silent {s : Stmt} (hsilent : s.declared? = none) (hs : s.Scoped table scopes)
    (n : Nat) (scope : Scope) : Eval.stmt vars n scope s =
      (fun ended => (ended.1,scope)) <$> Eval.stmt vars n (.nested scope.names) s := by
  induction n generalizing s with
  | zero => rfl
  | succ n ih =>
    cases s with
    | varDecl | funDecl | classDecl => cases hsilent
    | expression value => simp [Eval.stmt]
    | print value => simp [Eval.stmt]
    | block body => simp [Eval.stmt]
    | return_ keyword value => cases value <;> simp [Eval.stmt]
    | ifElse condition thenBranch elseBranch =>
      simp only [Eval.stmt,Scope.names_nested,map_bind]
      apply bind_congr
      intro c
      cases elseBranch with
      | none =>
        rw [ih hs.2.1 hs.2.2]
        split <;> rfl
      | some branch =>
        simp only [ih hs.2.1.1 hs.2.1.2,ih hs.2.2.1 hs.2.2.2]
        split <;> rfl
    | while_ condition body =>
      simp only [Eval.stmt,Scope.names_nested,map_bind]
      apply bind_congr
      intro c
      rw [ih hs.2.1 hs.2.2,ih rfl hs]
      split
      · simp only [map_bind,bind_map_left]
        apply bind_congr
        rintro ⟨_ | _,_⟩ <;> rfl
      · rfl

end

/-! ## Two statements in a block -/

/-- Two statements one after the other, of which the first can return. -/
def inTurn (vars : NameMap Bytes) (n : Nat) (names : Names) (first second : Stmt) :
    Eval (Outcome Names) := do
  match ← Eval.stmt vars n (.nested names) first with
  | (.normal,scope) => Prod.fst <$> Eval.stmt vars n scope second
  | (.returned value,_) => return .returned value

section

variable {vars : NameMap Bytes}

/-- A statement alone. -/
theorem stmts_approximates (n : Nat) (scope : Scope) (s : Stmt) :
    Approximates (Eval.stmts vars n scope [s]) (Prod.fst <$> Eval.stmt vars n scope s) := by
  cases n with
  | zero => exact .exhausted
  | succ n =>
    rw [Eval.stmts,map_eq_pure_bind]
    apply ((Rising.of_le vars (Nat.le_succ n)).stmt scope s).bind
    rintro ⟨_ | value,scope'⟩
    · cases n with
      | zero => exact .exhausted
      | succ n => exact .refl _
    · exact .refl _

theorem approximates_stmts (n : Nat) (scope : Scope) (s : Stmt) :
    Approximates (Prod.fst <$> Eval.stmt vars n scope s) (Eval.stmts vars (n + 2) scope [s]) := by
  rw [Eval.stmts,map_eq_pure_bind]
  apply ((Rising.of_le vars (Nat.le_succ n)).stmt scope s).bind
  rintro ⟨_ | value,scope'⟩
  · exact .refl _
  · exact .refl _

theorem map_stmt_block (n : Nat) (scope : Scope) (body : List Stmt) :
    Prod.fst <$> Eval.stmt vars (n + 1) scope (.block body) =
      Eval.stmts vars n (.nested scope.names) body := by
  simp only [Eval.stmt,map_bind,map_pure,bind_pure]

theorem block_approximates (n : Nat) (scope : Scope) (first second : Stmt) :
    Approximates (Prod.fst <$> Eval.stmt vars n scope (.block [first,second]))
      (inTurn vars n scope.names first second) := by
  match n with
  | 0 | 1 => exact .exhausted
  | n + 2 =>
    have hrising := Rising.of_le vars (Nat.le_add_right n 2)
    rw [map_stmt_block,Eval.stmts,inTurn]
    apply (hrising.stmt (.nested scope.names) first).bind
    rintro ⟨_ | value,scope'⟩
    · exact (stmts_approximates n scope' second).trans ((hrising.stmt scope' second).map _)
    · exact .refl _

theorem approximates_block (n : Nat) (scope : Scope) (first second : Stmt) :
    Approximates (inTurn vars n scope.names first second)
      (Prod.fst <$> Eval.stmt vars (n + 4) scope (.block [first,second])) := by
  have hrising := Rising.of_le vars (Nat.le_add_right n 2)
  rw [map_stmt_block,Eval.stmts,inTurn]
  apply (hrising.stmt (.nested scope.names) first).bind
  rintro ⟨_ | value,scope'⟩
  · exact approximates_stmts n scope' second
  · exact .refl _

end

/-! ## The tree of a loop -/

namespace Loop

variable {vars : NameMap Bytes} {table : Table} {scopes : Scopes} (loop : Loop)

/-- What a round is read as. -/
def roundTree : Stmt :=
  match loop.step with
  | some step => .block [loop.body,.expression step]
  | none => loop.body

def whileTree : Stmt := .while_ (loop.condition.getD (.literal (.bool true))) loop.roundTree

theorem tree_eq : loop.tree = match loop.start with
    | some start => .block [start.statement,loop.whileTree]
    | none => loop.whileTree := by
  unfold tree whileTree roundTree Stmt.counting
  cases loop.start <;> cases loop.step <;> rfl

/-- The body of a round leaves the scope as it is. -/
theorem map_stmt_body (hbody : loop.body.Scoped table scopes) (n : Nat) (scope : Scope) :
    Prod.fst <$> Eval.stmt vars n scope loop.body =
      Prod.fst <$> Eval.stmt vars n (.nested scope.names) loop.body := by
  rw [stmt_of_silent loop.silent hbody,Functor.map_map]

theorem inTurn_body (hbody : loop.body.Scoped table scopes) (n : Nat) (names : Names) (s : Stmt) :
    inTurn vars n names loop.body s = (do
      match ← Eval.stmt vars n (.nested names) loop.body with
      | (.normal,_) => Prod.fst <$> Eval.stmt vars n (.nested names) s
      | (.returned value,_) => return .returned value) := by
  have hsame : Eval.stmt vars n (.nested names) loop.body = _ :=
    stmt_of_silent loop.silent hbody n (.nested names)
  rw [Scope.names_nested] at hsame
  unfold inTurn
  rw [hsame]
  simp only [bind_map_left]
  apply bind_congr
  rintro ⟨_ | _,_⟩ <;> rfl

theorem exists_body_scoped (h : loop.tree.Scoped table scopes) :
    ∃ inner, loop.body.Scoped table inner := by
  have hround : ∀ {outer}, loop.whileTree.Scoped table outer → ∃ inner, loop.body.Scoped table inner := by
    intro outer hwhile
    obtain ⟨-,-,hround⟩ := hwhile
    unfold roundTree at hround
    cases hstep : loop.step with
    | none =>
      rw [hstep] at hround
      exact ⟨outer,hround⟩
    | some step =>
      rw [hstep] at hround
      exact ⟨.empty :: outer,hround.1⟩
  rw [tree_eq] at h
  cases hstart : loop.start with
  | none =>
    rw [hstart] at h
    exact hround h
  | some start =>
    rw [hstart] at h
    exact hround h.2.1

theorem roundTree_approximates (hbody : loop.body.Scoped table scopes) (n : Nat) (scope : Scope) :
    Approximates (Prod.fst <$> Eval.stmt vars n scope loop.roundTree)
      (loop.round vars n scope.names) := by
  unfold roundTree round advance
  cases loop.step with
  | none =>
    rw [loop.map_stmt_body hbody,map_eq_pure_bind]
    apply Approximates.andThen
    rintro ⟨_ | _,_⟩
    · exact .refl _
    · exact .refl _
  | some step =>
    apply (block_approximates n scope loop.body (.expression step)).trans
    rw [loop.inTurn_body hbody]
    apply Approximates.andThen
    rintro ⟨_ | _,_⟩
    · cases n with
      | zero => exact .exhausted
      | succ n =>
        have hrising := Rising.of_le vars (Nat.le_succ n)
        simp only [Eval.stmt,map_bind,map_pure,bind_assoc]
        exact (hrising.expr scope.names step).bind fun _ => .refl _
    · exact .refl _

theorem approximates_roundTree (hbody : loop.body.Scoped table scopes) (n : Nat) (scope : Scope) :
    Approximates (loop.round vars n scope.names)
      (Prod.fst <$> Eval.stmt vars (n + 5) scope loop.roundTree) := by
  unfold roundTree round advance
  cases loop.step with
  | none =>
    have hrising := Rising.of_le vars (Nat.le_add_right n 5)
    rw [loop.map_stmt_body hbody,map_eq_pure_bind]
    apply (hrising.stmt (.nested scope.names) loop.body).bind
    rintro ⟨_ | _,_⟩
    · exact .refl _
    · exact .refl _
  | some step =>
    have hrising := Rising.of_le vars (Nat.le_succ n)
    refine Approximates.trans ?_ (approximates_block (n + 1) scope loop.body (.expression step))
    rw [loop.inTurn_body hbody]
    apply (hrising.stmt (.nested scope.names) loop.body).bind
    rintro ⟨_ | _,_⟩
    · simp only [Eval.stmt,map_bind,map_pure,bind_assoc]
      exact .refl _
    · exact .refl _

/-- A round if the condition holds, and then the others. -/
def proceed (test : Eval Bool) (round others : Eval (Outcome Names)) : Eval (Outcome Names) := do
  if ← test then
    match ← round with
    | .normal => others
    | .returned value => return .returned value
  else return .normal

theorem proceed_approximates {test test' : Eval Bool} {round round' others others' : Eval (Outcome Names)}
    (htest : Approximates test test') (hround : Approximates round round')
    (hothers : Approximates others others') :
    Approximates (proceed test round others) (proceed test' round' others') := by
  apply htest.bind
  rintro (_ | _)
  · exact .refl _
  · apply hround.bind
    rintro (_ | _)
    · exact hothers
    · exact .refl _

theorem whileTree_eq (n : Nat) (scope : Scope) :
    Prod.fst <$> Eval.stmt vars (n + 1) scope loop.whileTree =
      proceed (Value.truthy <$>
          Eval.expr vars n scope.names (loop.condition.getD (.literal (.bool true))))
        (Prod.fst <$> Eval.stmt vars n scope loop.roundTree)
        (Prod.fst <$> Eval.stmt vars n scope loop.whileTree) := by
  rw [whileTree,Eval.stmt,proceed,map_bind,bind_map_left]
  apply bind_congr
  intro value
  split
  · simp only [map_bind,bind_map_left]
    apply bind_congr
    rintro ⟨_ | _,_⟩ <;> rfl
  · rfl

theorem test_approximates (n : Nat) (names : Names) :
    Approximates (Value.truthy <$>
        Eval.expr vars n names (loop.condition.getD (.literal (.bool true))))
      (loop.test vars n names) := by
  unfold test
  cases loop.condition with
  | none =>
    cases n with
    | zero => exact .exhausted
    | succ n => exact .refl _
  | some condition =>
    rw [map_eq_pure_bind]
    exact .refl _

theorem approximates_test (n : Nat) (names : Names) :
    Approximates (loop.test vars n names) (Value.truthy <$>
      Eval.expr vars (n + 1) names (loop.condition.getD (.literal (.bool true)))) := by
  unfold test
  cases loop.condition with
  | none => exact .refl _
  | some condition =>
    rw [map_eq_pure_bind]
    exact ((Rising.of_le vars (Nat.le_succ n)).expr names condition).bind fun _ => .refl _

theorem whileTree_approximates (hbody : loop.body.Scoped table scopes) (n : Nat) (scope : Scope) :
    Approximates (Prod.fst <$> Eval.stmt vars n scope loop.whileTree)
      (loop.rounds vars n scope.names) := by
  induction n with
  | zero => exact .exhausted
  | succ n ih =>
    rw [whileTree_eq]
    exact proceed_approximates (loop.test_approximates n scope.names)
      (loop.roundTree_approximates hbody n scope) ih

theorem approximates_whileTree (hbody : loop.body.Scoped table scopes) (n : Nat) (scope : Scope) :
    Approximates (loop.rounds vars n scope.names)
      (Prod.fst <$> Eval.stmt vars (n + 5) scope loop.whileTree) := by
  induction n with
  | zero => exact .exhausted
  | succ n ih =>
    have hrising := Rising.of_le vars (Nat.add_le_add_left (Nat.succ_le_succ (Nat.zero_le 4)) n)
    rw [Nat.succ_add,whileTree_eq]
    have htest := (loop.approximates_test n scope.names).trans ((hrising.expr scope.names _).map _)
    exact proceed_approximates htest (loop.approximates_roundTree hbody n scope) ih

/-- The start of a loop does not return. -/
theorem stmt_start (start : LoopStart) (n : Nat) (scope : Scope) :
    Eval.stmt vars n scope start.statement =
      (fun ended => (.normal,ended.2)) <$> Eval.stmt vars n scope start.statement := by
  cases n with
  | zero => rfl
  | succ n =>
    cases start with
    | variable_ name initial => cases initial <;> simp [LoopStart.statement,Eval.stmt]
    | expression value => simp [LoopStart.statement,Eval.stmt]

theorem tree_approximates (hbody : loop.body.Scoped table scopes) (n : Nat) (scope : Scope) :
    Approximates (Prod.fst <$> Eval.stmt vars n scope loop.tree)
      (loop.run vars n scope.names) := by
  rw [tree_eq]
  unfold run enter
  cases loop.start with
  | none => exact loop.whileTree_approximates hbody n scope
  | some start =>
    apply (block_approximates n scope start.statement loop.whileTree).trans
    rw [inTurn,stmt_start,bind_map_left,bind_assoc]
    exact .andThen fun ended => loop.whileTree_approximates hbody n ended.2

theorem approximates_tree (hbody : loop.body.Scoped table scopes) (n : Nat) (scope : Scope) :
    Approximates (loop.run vars n scope.names)
      (Prod.fst <$> Eval.stmt vars (n + 9) scope loop.tree) := by
  rw [tree_eq]
  unfold run enter
  cases loop.start with
  | none =>
    have hrising := Rising.of_le vars (Nat.le_add_right (n + 5) 4)
    exact (loop.approximates_whileTree hbody n scope).trans ((hrising.stmt scope _).map _)
  | some start =>
    have hrising := Rising.of_le vars (Nat.le_add_right n 5)
    refine Approximates.trans ?_ (approximates_block (n + 5) scope start.statement loop.whileTree)
    rw [inTurn,stmt_start,bind_map_left,bind_assoc]
    apply (hrising.stmt (.nested scope.names) start.statement).bind
    exact fun ended => loop.approximates_whileTree hbody n ended.2

end Loop

/-! ## Loops on the machine -/

/-- What a name stands for on the machine, where the given scopes are around. -/
def valueIn? (scopes : Scopes) (name : Bytes) (m : Scriptlet.Machine) : Option Value :=
  match scopes.find? name with
  | some (distance,_) =>
    (m.memory.store.ancestor? m.memory.scope distance).bind (m.memory.store.bound? · name)
  | none => m.memory.store.bound? globalScope name

/-- Linked machines on which every name stands for the same. -/
structure SameView (p : Places) (w : World) (scopes : Scopes) (names : Names) (m : Scriptlet.Machine)
    (l : Machine) : Prop where
  linked : Linked p w m.memory.scope m l
  values : ∀ name,
    Option.Rel (SameValue p w) (valueIn? scopes name m) (Eval.value? names name l)

/-- A loop ends alike on both machines: with the same outcome or the same error, and so that the code
around the loop sees the same. -/
def SameEnd (p : Places) (w : World) (scopes : Scopes) (names : Names) :
    EStateM.Result Abort Scriptlet.Machine Outcome →
      EStateM.Result Abort Machine (Outcome Names) → Prop
  | .ok outcome m, .ok outcome' l => ∃ w', w.Grows (some m.memory.scope) w' ∧
      SameView p w' scopes names m l ∧ SameOutcome p w' outcome outcome'
  | .error e m, .error e' l => e' = e ∧ ∃ w', w.Grows (some m.memory.scope) w' ∧
      SameView p w' scopes names m l
  | _, _ => False

section

variable {p : Places} {vars : NameMap Bytes} {w : World} {here : EnvId} {scope : Scope}
  {scopes : Scopes} {names : Names} {m : Scriptlet.Machine} {l : Machine}

theorem Linked.sameView (h : Linked p w here m l) (hfits : w.Fits here scopes names)
    (hsettled : scopes.Settled) : SameView p w scopes names m l := by
  obtain rfl := h.current
  constructor
  · exact h
  · intro name
    unfold valueIn? Eval.value?
    cases hfind : scopes.find? name with
    | none =>
      rw [hfits.absent hfind,h.store]
      exact h.globals name
    | some found =>
      obtain ⟨distance,finished⟩ := found
      obtain ⟨holder,cell,hholder,hcell,howner,hbound⟩ := hfits.found hfind
      obtain ⟨value',hvalue',hsame⟩ := h.cells cell holder name howner
      cases finished with
      | false => exact absurd hfind (hsettled name distance)
      | true =>
        obtain ⟨value,hvalue⟩ := Option.isSome_iff_exists.1 (hbound rfl)
        rw [hvalue] at hsame
        simp only [h.store,hholder,hcell,hvalue',Option.bind_some,hvalue]
        exact .some hsame.1

theorem Simulates.sameEnd {r : EStateM.Result Abort Scriptlet.Machine Outcome}
    {r' : EStateM.Result Abort Machine (Outcome Names)} (hfits : w.Fits here scopes names)
    (hsettled : scopes.Settled) (h : Simulates p w (some here) here (SameOutcome p) r r') :
    SameEnd p w scopes names r r' := by
  cases r with
  | ok outcome m =>
    cases r' with
    | ok outcome' l =>
      obtain ⟨w',hgrow,hlinked,houtcome⟩ := h
      obtain rfl := hlinked.current
      exact ⟨w',hgrow,hlinked.sameView (hfits.grow hgrow) hsettled,houtcome⟩
    | error e l => exact h
  | error e m =>
    cases r' with
    | ok outcome l => exact h
    | error e' l =>
      obtain ⟨heq,-,w',hgrow,hlinked⟩ := h
      obtain rfl := hlinked.current
      exact ⟨heq,w',hgrow,hlinked.sameView (hfits.grow hgrow) hsettled⟩

theorem Simulates.exhausted {α β : Type} {current : Option EnvId} {Q : World → α → β → Prop}
    {r : EStateM.Result Abort Scriptlet.Machine α} {r' : EStateM.Result Abort Machine β}
    (h : Simulates p w current here Q r r') (hr : Exhausted r') : Exhausted r := by
  obtain ⟨l,rfl⟩ := hr
  cases r with
  | ok a m => exact h.elim
  | error e m =>
    obtain ⟨rfl,-⟩ := h
    exact ⟨m,rfl⟩

/-- The tree of a loop and the loop, from linked machines. -/
theorem Loop.sameEnd (loop : Loop) (h : Linked p w here m l) (hcurrent : Current w here scope scopes)
    (hsettled : scopes.Settled) (hscoped : loop.tree.Scoped p.table scopes)
    (hbelow : ∀ x ∈ loop.tree.refs, x.index < p.limit) (n : Nat) :
    (Exhausted (Scriptlet.Eval.stmt ⟨p.table,vars⟩ n loop.tree m) ∨
      SameEnd p w scopes scope.names (Scriptlet.Eval.stmt ⟨p.table,vars⟩ n loop.tree m)
        (loop.run vars n scope.names l)) ∧
    (Exhausted (loop.run vars n scope.names l) ∨
      SameEnd p w scopes scope.names (Scriptlet.Eval.stmt ⟨p.table,vars⟩ (n + 9) loop.tree m)
        (loop.run vars n scope.names l)) := by
  obtain ⟨inner,hbody⟩ := loop.exists_body_scoped hscoped
  have htree : ∀ k, Simulates p w (some here) here (SameOutcome p)
      (Scriptlet.Eval.stmt ⟨p.table,vars⟩ k loop.tree m)
      ((Prod.fst <$> Eval.stmt vars k scope loop.tree) l) := by
    intro k
    have hstmt := (Matching.all p vars k).stmt loop.tree h hcurrent hsettled hscoped hbelow
    rw [map_eq_pure_bind]
    exact hstmt.map_right fun _ _ _ hends => hends.1
  constructor
  · rcases loop.tree_approximates hbody n scope l with hexhausted | hsame
    · exact .inl ((htree n).exhausted hexhausted)
    · have hrun := htree n
      rw [hsame] at hrun
      exact .inr (hrun.sameEnd hcurrent.fits hsettled)
  · rcases loop.approximates_tree hbody n scope l with hexhausted | hsame
    · exact .inl hexhausted
    · rw [hsame]
      exact .inr ((htree (n + 9)).sameEnd hcurrent.fits hsettled)

end

/-- Reading a counting loop as a `while` loop in blocks keeps its meaning. What the grammar makes of
such a loop is the tree of a `Loop`, whatever parts it has. Wherever a run comes to the tree of a
loop, there is a lexical machine with the same lines printed and the same variables, and running the
tree with its distances ends as running the loop itself does: if one of them comes to an end, with
an outcome or an error, the other one does too, with the same outcome or the same error at the same
token, the same lines printed and the same values for the variables around the loop. The environment of
the block around the body and the step stays empty, in this run and in all later ones. -/
theorem counting_preserves_meaning (clock : Clock) (calls : List Scriptlet.Session.Call)
    (r : Request) :
    let s := (Scriptlet.Session.start clock).afterCalls calls
    let p : Places := ⟨(s.perform r).2.table,(s.perform r).2.nextIndex⟩
    let ctx : Context := ⟨p.table,r.processVars⟩
    (∀ (ts us : List Token) (start : Option Stmt) (condition step : Option Expr) (dangling : Bool)
      (body : Stmt), Grammar.Derives .loopStart ts start → Grammar.Derives (.statement dangling) us body →
        ∃ loop : Loop, loop.tree = .counting start condition step body) ∧
    (∀ (loop : Loop) n m, s.Makes r ⟨n,.stmt loop.tree,m⟩ →
      ∃ w scopes names l, loop.tree.Scoped p.table scopes ∧ SameView p w scopes names m l ∧
        ∀ k, (Exhausted (Scriptlet.Eval.stmt ctx k loop.tree m) ∨
            SameEnd p w scopes names (Scriptlet.Eval.stmt ctx k loop.tree m)
              (loop.run r.processVars k names l)) ∧
          (Exhausted (loop.run r.processVars k names l) ∨
            SameEnd p w scopes names (Scriptlet.Eval.stmt ctx (k + 9) loop.tree m)
              (loop.run r.processVars k names l))) ∧
    ∀ (loop : Loop) step n m name, loop.step = some step →
      s.Makes r ⟨n + 1,.stmt (.block [loop.body,.expression step]),m⟩ →
        (∀ v, s.Makes r v → v.machine.memory.store.bound? m.memory.store.size name = none) ∧
        ∀ later, ((s.perform r).2.afterCalls later).machine.memory.store.bound? m.memory.store.size
          name = none := by
  intro s p ctx
  obtain ⟨t,h⟩ := exists_agrees_afterCalls clock calls
  constructor
  · intro ts us start condition step dangling body hstart hbody
    exact exists_loop hstart hbody condition step
  constructor
  · intro loop n m hmakes
    cases sound_of_makes h hmakes with
    | @stmt _ _ _ w here l scope scopes hlinked hcurrent hsettled hscoped hbelow =>
      exact ⟨w,scopes,scope.names,l,hscoped,hlinked.sameView hcurrent.fits hsettled,
        loop.sameEnd hlinked hcurrent hsettled hscoped hbelow⟩
  · intro loop step n m name _ hmakes
    have hrooted := (Scriptlet.Session.rooted_start clock).afterCalls calls
    have hunbound : ∀ {q os later here m'}, Scriptlet.Machine.Rooted q os here m' →
        os <+: .globals :: (Scriptlet.Session.start clock).allEnvironments calls ++
          s.environments (.run r) ++ later →
        m'.memory.store.bound? m.memory.store.size name = none := by
      intro q os later here m' hm' hos
      by_contra hbound
      obtain ⟨x,hx⟩ := Option.ne_none_iff_exists'.1 hbound
      obtain ⟨st,hst,token,hdeclared,-⟩ := hmakes.declared_of_bound hrooted hm' hos hx
      rcases List.mem_pair.1 hst with rfl | rfl
      · rw [loop.silent] at hdeclared
        cases hdeclared
      · cases hdeclared
    constructor
    · intro v hv
      obtain ⟨q,os,-,hvisit,hpart⟩ := hv.rooted hrooted
      exact hunbound hvisit.machine
        (((List.prefix_append _ _).trans hpart).trans (List.prefix_append _ []))
    · intro later
      exact hunbound ((hrooted.perform r).afterCalls later).machine (List.prefix_refl _)

end Scriptlet.Lexical
