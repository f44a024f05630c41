import Scriptlet.Proofs.Lexical

/-! # Budgets

A budget decides whether an evaluation comes to its end, and nothing else: what is found with one
budget is found with every larger one. So programs can be compared that need different budgets for
the same work.
-/
namespace Scriptlet.Lexical

/-- The result of steps whose budget did not suffice. -/
def Exhausted {σ α : Type} (result : EStateM.Result Abort σ α) : Prop :=
  ∃ m, result = .error .exhausted m

/-- The first steps run out of their budget, or do what the second ones do. -/
def Approximates {α : Type} (x y : Eval α) : Prop := ∀ l, Exhausted (x l) ∨ x l = y l

namespace Approximates

variable {α β : Type} {x y z : Eval α} {f g : α → Eval β}

theorem refl (x : Eval α) : Approximates x x := fun _ => .inr rfl

theorem exhausted : Approximates (throw .exhausted) y := fun l => .inl ⟨l,rfl⟩

theorem trans (h : Approximates x y) (h' : Approximates y z) : Approximates x z := by
  intro l
  rcases h l with hx | hx
  · exact .inl hx
  · rw [hx]
    exact h' l

theorem bind (h : Approximates x y) (hnext : ∀ a, Approximates (f a) (g a)) :
    Approximates (x >>= f) (y >>= g) := by
  intro l
  simp only [Bind.bind,EStateM.bind]
  rcases h l with ⟨l',hx⟩ | hx
  · exact .inl ⟨l',by rw [hx]⟩
  · rw [← hx]
    cases x l with
    | ok a l' => exact hnext a l'
    | error e l' => exact .inr rfl

theorem map (h : Approximates x y) (f : α → β) : Approximates (f <$> x) (f <$> y) := by
  rw [map_eq_pure_bind,map_eq_pure_bind]
  exact h.bind fun _ => refl _

/-- The same steps come first. -/
theorem andThen (hnext : ∀ a, Approximates (f a) (g a)) : Approximates (x >>= f) (x >>= g) :=
  (refl x).bind hnext

end Approximates

/-- With a budget of `n` each function of the evaluator approximates what it does with one of `k`. -/
structure Rising (vars : NameMap Bytes) (n k : Nat) : Prop where
  expr : ∀ names e, Approximates (Eval.expr vars n names e) (Eval.expr vars k names e)
  exprs : ∀ names es, Approximates (Eval.exprs vars n names es) (Eval.exprs vars k names es)
  call : ∀ paren callee args,
    Approximates (Eval.call vars n paren callee args) (Eval.call vars k paren callee args)
  invoke : ∀ paren f args,
    Approximates (Eval.invoke vars n paren f args) (Eval.invoke vars k paren f args)
  stmt : ∀ scope s, Approximates (Eval.stmt vars n scope s) (Eval.stmt vars k scope s)
  stmts : ∀ scope ss, Approximates (Eval.stmts vars n scope ss) (Eval.stmts vars k scope ss)

namespace Rising

variable {vars : NameMap Bytes} {n k : Nat}

theorem zero (vars : NameMap Bytes) (k : Nat) : Rising vars 0 k where
  expr _ _ := .exhausted
  exprs _ _ := .exhausted
  call _ _ _ := .exhausted
  invoke _ _ _ := .exhausted
  stmt _ _ := .exhausted
  stmts _ _ := .exhausted

theorem expr_succ (h : Rising vars n k) (names : Names) (e : Expr) :
    Approximates (Eval.expr vars (n + 1) names e) (Eval.expr vars (k + 1) names e) := by
  cases e with
  | literal | variable_ | self | superMethod => exact .refl _
  | grouping inner => exact h.expr names inner
  | unary op token operand => exact (h.expr names operand).bind fun _ => .refl _
  | binary op token left right =>
    exact (h.expr names left).bind fun _ => (h.expr names right).bind fun _ => .refl _
  | logical op left right =>
    apply (h.expr names left).bind
    intro l
    split
    · exact .refl _
    · exact h.expr names right
  | assign name value => exact (h.expr names value).bind fun _ => .refl _
  | get object name => exact (h.expr names object).bind fun _ => .refl _
  | set object name value =>
    exact (h.expr names value).bind fun _ => (h.expr names object).bind fun _ => .refl _
  | call callee paren arguments =>
    apply (h.expr names callee).bind
    intro f
    exact (h.exprs names arguments).bind fun args => h.call paren f args

theorem exprs_succ (h : Rising vars n k) (names : Names) (es : List Expr) :
    Approximates (Eval.exprs vars (n + 1) names es) (Eval.exprs vars (k + 1) names es) := by
  cases es with
  | nil => exact .refl _
  | cons e rest =>
    exact (h.expr names e).bind fun _ => (h.exprs names rest).bind fun _ => .refl _

theorem call_succ (h : Rising vars n k) (paren : Token) (callee : Value Names)
    (args : List (Value Names)) :
    Approximates (Eval.call vars (n + 1) paren callee args)
      (Eval.call vars (k + 1) paren callee args) := by
  simp only [Eval.call]
  cases callee.arity? with
  | none => exact .refl _
  | some arity =>
    by_cases hlength : args.length = arity
    · simp only [hlength,ne_eq,not_true_eq_false,if_false]
      cases callee with
      | function id f => exact h.invoke paren f args
      | class_ c =>
        apply Approximates.andThen
        intro object
        cases c.findMethod? initializerName with
        | none => exact .refl _
        | some method =>
          exact .andThen fun initializer => (h.invoke paren initializer args).bind fun _ => .refl _
      | _ => exact .refl _
    · simp only [hlength,ne_eq,not_false_eq_true,if_true]
      exact .refl _

theorem invoke_succ (h : Rising vars n k) (paren : Token) (f : Function Names)
    (args : List (Value Names)) :
    Approximates (Eval.invoke vars (n + 1) paren f args)
      (Eval.invoke vars (k + 1) paren f args) :=
  .andThen fun names => (h.stmts (.nested names) f.decl.body).bind fun _ => .refl _

theorem stmt_succ (h : Rising vars n k) (scope : Scope) (s : Stmt) :
    Approximates (Eval.stmt vars (n + 1) scope s) (Eval.stmt vars (k + 1) scope s) := by
  cases s with
  | expression value => exact (h.expr scope.names value).bind fun _ => .refl _
  | print value => exact (h.expr scope.names value).bind fun _ => .refl _
  | varDecl name initial =>
    cases initial with
    | none => exact .refl _
    | some value =>
      exact .andThen fun declared => (h.expr declared.1.names value).bind fun _ => .refl _
  | block body => exact (h.stmts (.nested scope.names) body).bind fun _ => .refl _
  | ifElse condition thenBranch elseBranch =>
    apply (h.expr scope.names condition).bind
    intro c
    split
    · exact h.stmt scope thenBranch
    · cases elseBranch with
      | none => exact .refl _
      | some branch => exact h.stmt scope branch
  | while_ condition body =>
    apply (h.expr scope.names condition).bind
    intro c
    split
    · apply (h.stmt scope body).bind
      intro ended
      split
      · exact h.stmt scope (.while_ condition body)
      · exact .refl _
    · exact .refl _
  | return_ keyword value =>
    cases value with
    | none => exact .refl _
    | some value => exact (h.expr scope.names value).bind fun _ => .refl _
  | funDecl decl => exact .refl _
  | classDecl name superclass methods => exact .refl _

theorem stmts_succ (h : Rising vars n k) (scope : Scope) (ss : List Stmt) :
    Approximates (Eval.stmts vars (n + 1) scope ss) (Eval.stmts vars (k + 1) scope ss) := by
  cases ss with
  | nil => exact .refl _
  | cons s rest =>
    apply (h.stmt scope s).bind
    intro ended
    split
    · exact h.stmts _ rest
    · exact .refl _

/-- More budget changes nothing but the point at which an evaluation is given up. -/
theorem of_le (vars : NameMap Bytes) {n k : Nat} (h : n ≤ k) : Rising vars n k := by
  induction n generalizing k with
  | zero => exact zero vars k
  | succ n ih =>
    obtain ⟨k,rfl⟩ := Nat.exists_eq_add_one_of_ne_zero (Nat.ne_of_gt (Nat.zero_lt_of_lt h))
    have hrising := ih (Nat.le_of_succ_le_succ h)
    exact ⟨hrising.expr_succ,hrising.exprs_succ,hrising.call_succ,hrising.invoke_succ,
      hrising.stmt_succ,hrising.stmts_succ⟩

end Rising

end Scriptlet.Lexical
