import Mathlib.Data.List.Nodup
import Scriptlet.Proofs.Grammar.Reading
import Scriptlet.Proofs.Scoping

/-! # Each token is used once

A token that was read is put into the tree in at most one place, and one that is skipped after a
problem in none. So no tree that the parser builds, also of a source with errors, holds a token more
often than the token stands in the source: no two nodes refer to the same token, and no token that a
node refers to is there for anything else.
-/
namespace Scriptlet

/-! ## The tokens of a tree -/

mutual

/-- The tokens of an expression that no node refers to. -/
def Expr.others : Expr → List Token
  | .literal _ | .variable_ _ | .self _ => []
  | .superMethod _ method => [method]
  | .grouping inner => inner.others
  | .unary _ token operand => token :: operand.others
  | .binary _ token left right => token :: (left.others ++ right.others)
  | .logical _ left right => left.others ++ right.others
  | .assign _ value => value.others
  | .get object name => name :: object.others
  | .set object name value => name :: (value.others ++ object.others)
  | .call callee paren arguments => paren :: (callee.others ++ Expr.allOthers arguments)

def Expr.allOthers : List Expr → List Token
  | [] => []
  | e :: rest => e.others ++ Expr.allOthers rest

end

mutual

/-- The tokens of a statement that no node refers to. -/
def Stmt.others : Stmt → List Token
  | .expression value => value.others
  | .print value => value.others
  | .varDecl name none => [name]
  | .varDecl name (some value) => name :: value.others
  | .block body => Stmt.allOthers body
  | .ifElse condition thenBranch none => condition.others ++ thenBranch.others
  | .ifElse condition thenBranch (some elseBranch) =>
    condition.others ++ (thenBranch.others ++ elseBranch.others)
  | .while_ condition body => condition.others ++ body.others
  | .return_ keyword none => [keyword]
  | .return_ keyword (some value) => keyword :: value.others
  | .funDecl decl => decl.others
  | .classDecl name _ methods => name :: FunctionDecl.allOthers methods

def Stmt.allOthers : List Stmt → List Token
  | [] => []
  | s :: rest => s.others ++ Stmt.allOthers rest

def FunctionDecl.others : FunctionDecl → List Token
  | ⟨name,params,body⟩ => name :: (params ++ Stmt.allOthers body)

def FunctionDecl.allOthers : List FunctionDecl → List Token
  | [] => []
  | decl :: rest => decl.others ++ FunctionDecl.allOthers rest

end

/-- All tokens of an expression, as often as they stand in it. -/
def Expr.tokens (e : Expr) : List Token := e.refs ++ e.others

def Expr.allTokens (es : List Expr) : List Token := Expr.allRefs es ++ Expr.allOthers es

def Stmt.tokens (s : Stmt) : List Token := s.refs ++ s.others

def Stmt.allTokens (ss : List Stmt) : List Token := Stmt.allRefs ss ++ Stmt.allOthers ss

def FunctionDecl.tokens (decl : FunctionDecl) : List Token := decl.refs ++ decl.others

def FunctionDecl.allTokens (decls : List FunctionDecl) : List Token :=
  FunctionDecl.allRefs decls ++ FunctionDecl.allOthers decls

namespace Parse

/-! ## Rules -/

/-- What becomes of the uses of the token `x` in a parsing function that starts at `c`, when the
tokens `held` are in hand: those in the result and those still left were in hand or left before. What
is left does not grow. -/
def Spends {α : Type} (x : Token) (held : List Token) (R : α → List Token) (p : Parse α)
    (c : Cursor) : Prop :=
  match p c with
  | .ok a d => d.rest.count x ≤ c.rest.count x ∧
    (R a).count x + d.rest.count x ≤ held.count x + c.rest.count x
  | .error _ d => d.rest.count x ≤ c.rest.count x

section

variable {α β : Type} {x : Token} {held held' : List Token} {R R' : α → List Token}
  {S : β → List Token} {p : Parse α} {f : α → Parse β} {c : Cursor} {a : α}

theorem Spends.pure (h : (R a).count x ≤ held.count x) : Spends x held R (pure a) c :=
  ⟨Nat.le_refl _,Nat.add_le_add_right h _⟩

theorem Spends.throw {e : Stop} : Spends x held R (throw e) c := Nat.le_refl (c.rest.count x)

/-- The second step may use what the first one did. -/
theorem Spends.bind_of (hp : Spends x held R p c)
    (hf : ∀ a d, p c = .ok a d → Spends x (R a) S (f a) d) :
    Spends x held S (p >>= f) c := by
  change match EStateM.bind p f c with
    | .ok b d => d.rest.count x ≤ c.rest.count x ∧
      (S b).count x + d.rest.count x ≤ held.count x + c.rest.count x
    | .error _ d => d.rest.count x ≤ c.rest.count x
  unfold EStateM.bind
  unfold Spends at hp
  cases hrun : p c with
  | error e d =>
    rw [hrun] at hp
    exact hp
  | ok a d =>
    rw [hrun] at hp
    obtain ⟨hrest,hrefs⟩ := hp
    have hnext := hf a d hrun
    unfold Spends at hnext
    dsimp only
    cases hrun' : f a d with
    | error e d' =>
      rw [hrun'] at hnext
      exact Nat.le_trans hnext hrest
    | ok b d' =>
      rw [hrun'] at hnext
      exact ⟨Nat.le_trans hnext.1 hrest,Nat.le_trans hnext.2 hrefs⟩

theorem Spends.bind (hp : Spends x held R p c)
    (hf : ∀ a d, Spends x (R a) S (f a) d) : Spends x held S (p >>= f) c :=
  hp.bind_of fun a d _ => hf a d

/-- More may be in hand, and more in the result. -/
theorem Spends.hold (hp : Spends x held R p c) (extra : List Token) :
    Spends x (extra ++ held) (fun a => extra ++ R a) p c := by
  unfold Spends at hp ⊢
  cases hrun : p c with
  | error e d =>
    rw [hrun] at hp
    exact hp
  | ok a d =>
    rw [hrun] at hp
    refine ⟨hp.1,?_⟩
    simp only [List.count_append]
    omega

theorem Spends.mono (hp : Spends x held R p c) (hheld : held.count x ≤ held'.count x)
    (hrefs : ∀ a, (R' a).count x ≤ (R a).count x) : Spends x held' R' p c := by
  unfold Spends at hp ⊢
  cases hrun : p c with
  | error e d =>
    rw [hrun] at hp
    exact hp
  | ok a d =>
    rw [hrun] at hp
    have hresult := hrefs a
    exact ⟨hp.1,by omega⟩

/-- What the first step gives comes to what is in hand. -/
theorem Spends.andThen (hp : Spends x [] R p c)
    (hf : ∀ a d, Spends x (held ++ R a) S (f a) d) : Spends x held S (p >>= f) c :=
  ((hp.hold held).mono (by simp) fun _ => Nat.le_refl _).bind hf

/-- What the first step gives is put nowhere. -/
theorem Spends.skipOf (hp : Spends x [] R p c)
    (hf : ∀ a d, p c = .ok a d → Spends x held S (f a) d) :
    Spends x held S (p >>= f) c :=
  ((hp.hold held).mono (by simp) fun _ => Nat.le_refl _).bind_of fun a d ha =>
    (hf a d ha).mono (by simp) fun _ => Nat.le_refl _

theorem Spends.skip (hp : Spends x [] R p c) (hf : ∀ a d, Spends x held S (f a) d) :
    Spends x held S (p >>= f) c :=
  hp.skipOf fun a d _ => hf a d

theorem Spends.map {g : α → β} (hp : Spends x held R p c)
    (h : ∀ a, (S (g a)).count x ≤ (R a).count x) : Spends x held S (g <$> p) c :=
  Spends.bind (f := fun a => Pure.pure (g a)) hp fun a _ => .pure (h a)

/-- Looking at the next token uses nothing. -/
theorem Spends.peek {f : Option Token → Parse α} (h : Spends x held R (f c.rest.head?) c) :
    Spends x held R (peek? >>= f) c := h

/-- The next token can be taken in hand. -/
theorem spends_advance {t : Token} (h : c.rest.head? = some t) :
    Spends x [] (fun _ => [t]) advance c := by
  obtain ⟨rest,faults⟩ := c
  obtain ⟨tail,rfl⟩ := List.head?_eq_some_iff.1 h
  refine ⟨(List.sublist_cons_self t tail).count_le x,?_⟩
  simp only [← List.count_append,List.nil_append]
  exact Nat.le_refl _

theorem spends_fail {error : ParseError} : Spends x held R (fail error) c :=
  Nat.le_refl (c.rest.count x)

theorem spends_take? (wanted : Token → Option α)
    (hwanted : ∀ t, ∀ a ∈ wanted t, (R a).count x ≤ [t].count x) :
    Spends x [] (fun found => (found.map R).getD []) (take? wanted) c := by
  refine .peek ?_
  cases hnext : c.rest.head? with
  | none => exact .pure (Nat.le_refl _)
  | some t =>
    dsimp only
    cases ha : wanted t with
    | none => exact .pure (Nat.le_refl _)
    | some a => exact (spends_advance hnext).bind fun _ _ => .pure (hwanted t a ha)

theorem exists_of_take? {wanted : Token → Option α} {d : Cursor}
    (h : take? wanted c = .ok (some a) d) : ∃ t, wanted t = some a := by
  have hpeek : peek? c = .ok c.rest.head? c := rfl
  unfold take? at h
  change EStateM.bind _ _ _ = _ at h
  simp only [EStateM.bind,hpeek] at h
  cases hnext : c.rest.head? with
  | none =>
    rw [hnext] at h
    cases h
  | some t =>
    simp only [hnext] at h
    cases ha : wanted t with
    | none =>
      rw [ha] at h
      cases h
    | some b =>
      rw [ha] at h
      cases h
      exact ⟨t,ha⟩

theorem spends_accept (wanted : Token → Bool) : Spends x [] Option.toList (accept wanted) c := by
  refine (spends_take? (R := fun t => [t]) _ ?_).mono (Nat.le_refl _) fun found => ?_
  · intro t t' ht
    obtain ⟨-,heq⟩ := Option.ite_none_right_eq_some.1 ht
    obtain rfl := Option.some.inj heq
    exact Nat.le_refl _
  · cases found <;> exact Nat.le_refl _

theorem spends_acceptSymbol (s : Symbol) : Spends x [] (fun _ => []) (acceptSymbol s) c :=
  (spends_accept _).skip fun _ _ => .pure (Nat.le_refl _)

theorem spends_expect (wanted : Token → Bool) (error : ParseError) :
    Spends x [] (fun t => [t]) (expect wanted error) c := by
  refine (spends_accept wanted).bind fun found _ => ?_
  cases found with
  | none => exact spends_fail
  | some t => exact .pure (Nat.le_refl _)

theorem spends_expectSymbol (s : Symbol) (error : ParseError) :
    Spends x [] (fun t => [t]) (expectSymbol s error) c := spends_expect _ error

theorem spends_expectName (error : ParseError) :
    Spends x [] (fun t => [t]) (expectName error) c := spends_expect _ error

theorem spends_after? {wanted : Token → Bool} (hp : ∀ d, Spends x [] R p d) :
    Spends x [] (fun found => (found.map R).getD []) (after? wanted p) c := by
  refine (spends_accept wanted).skip fun found d => ?_
  cases found with
  | none => exact .pure (Nat.le_refl _)
  | some t => exact (hp d).map fun _ => Nat.le_refl _

theorem spends_unlessAt {closing : Symbol} (ha : R a = []) (hp : ∀ d, Spends x [] R p d) :
    Spends x [] R (unlessAt closing a p) c := by
  refine Spends.bind (R := fun _ => []) (.peek (.pure (Nat.le_refl _))) fun atClosing d => ?_
  split
  · exact .pure (Nat.le_of_eq (congrArg _ ha))
  · exact hp d

theorem spends_checkCount (error : ParseError) (count : Nat) :
    Spends x [] (fun _ => []) (checkCount error count) c := by
  unfold checkCount
  split
  · exact ⟨Nat.le_refl _,Nat.le_refl _⟩
  · exact .pure (Nat.le_refl _)

theorem count_synchronize (x : Token) (tokens : List Token) :
    (synchronize tokens).count x ≤ tokens.count x := by
  fun_induction synchronize tokens with
  | case1 => exact Nat.le_refl _
  | case2 t rest _ => exact (List.sublist_cons_self t rest).count_le x
  | case3 => exact Nat.zero_le _
  | case4 t next rest _ _ => exact (List.sublist_cons_self t _).count_le x
  | case5 t next rest _ _ ih => exact Nat.le_trans ih ((List.sublist_cons_self t _).count_le x)

theorem spends_recovering {p : Parse Stmt} (hp : Spends x [] Stmt.tokens p c) :
    Spends x [] (fun s => Stmt.allTokens s.toList) (recovering p) c := by
  unfold Spends at hp ⊢
  unfold recovering
  cases hrun : p c with
  | ok s d =>
    rw [hrun] at hp
    simpa [Stmt.tokens,Stmt.allTokens,Stmt.allRefs,Stmt.allOthers] using hp
  | error e d =>
    rw [hrun] at hp
    cases e with
    | exhausted => exact hp
    | failed =>
      have hskip : (Reader.resume d).rest.count x ≤ d.rest.count x := count_synchronize x d.rest
      refine ⟨Nat.le_trans hskip hp,?_⟩
      simp only [Option.toList_none,Stmt.allTokens,Stmt.allRefs,Stmt.allOthers,List.append_nil,
        List.count_nil]
      omega

/-! ## Expressions -/

/-- The token that joins two operands, if the node keeps it. -/
def joint (node : Expr → Expr → Expr) : List Token := (node (.literal .nil) (.literal .nil)).others

theorem node_of_mem_levels {join : Joiner} (hjoin : join ∈ levels) {t : Token} {node : Expr → Expr → Expr}
    (hnode : join t = some node) : (∃ op, node = .binary op t) ∨ ∃ op, node = .logical op := by
  rw [Grammar.levels_eq] at hjoin
  obtain ⟨tier,-,rfl⟩ := List.mem_map.1 hjoin
  exact Grammar.node?_eq hnode

theorem count_joint {join : Joiner} (hjoin : join ∈ levels) {t : Token} {node : Expr → Expr → Expr}
    (hnode : join t = some node) : (joint node).count x ≤ [t].count x := by
  rcases node_of_mem_levels hjoin hnode with ⟨op,rfl⟩ | ⟨op,rfl⟩
  · exact Nat.le_refl _
  · exact Nat.zero_le _

/-- A node that joins two operands holds what they hold, and its own token. -/
theorem count_tokens_join {join : Joiner} (hjoin : join ∈ levels) {t : Token}
    {node : Expr → Expr → Expr} (hnode : join t = some node) (left right : Expr) :
    (node left right).tokens.count x =
      left.tokens.count x + (joint node).count x + right.tokens.count x := by
  rcases node_of_mem_levels hjoin hnode with ⟨op,rfl⟩ | ⟨op,rfl⟩
  · simp only [joint,Expr.tokens,Expr.refs,Expr.others,List.count_append,List.count_cons,List.count_nil]
    omega
  · simp only [joint,Expr.tokens,Expr.refs,Expr.others,List.count_append,List.count_nil]
    omega

theorem spends_chain {operand : Parse Expr} (hoperand : ∀ d, Spends x [] Expr.tokens operand d)
    {join : Joiner} (hjoin : join ∈ levels) (n : Nat) (left : Expr) :
    Spends x left.tokens Expr.tokens (chain operand join n left) c := by
  induction n generalizing left c with
  | zero => exact .throw
  | succ n ih =>
    have htake := spends_take? (x := x) (c := c) (R := joint) join fun _ _ => count_joint hjoin
    refine ((htake.hold left.tokens).mono (by simp) fun _ => Nat.le_refl _).bind_of
      fun found d hfound => ?_
    cases found with
    | none => exact .pure (by simp)
    | some node =>
      obtain ⟨t,hnode⟩ := exists_of_take? hfound
      refine (hoperand d).andThen fun right d => (ih (node left right)).mono ?_ fun _ => Nat.le_refl _
      rw [count_tokens_join hjoin hnode]
      simp only [Option.map_some,Option.getD_some,List.count_append]
      exact Nat.le_refl _

theorem spends_operators {operand : Parse Expr} (hoperand : ∀ d, Spends x [] Expr.tokens operand d)
    (n : Nat) : Spends x [] Expr.tokens (operators n operand) c := by
  apply List.foldlRecOn (motive := fun p => ∀ d, Spends x [] Expr.tokens p d) levels
    (leftAssociative n) hoperand
  intro p hp join hjoin d
  exact (hp d).bind fun first _ => spends_chain hp hjoin n first

theorem spends_assignment (target value : Expr) (equal : Token) :
    Spends x (target.tokens ++ value.tokens) Expr.tokens (assignment target equal value) c := by
  cases target with
  | variable_ name | get object name =>
    refine .pure ?_
    simp only [Expr.tokens,Expr.refs,Expr.others,List.count_append,List.count_cons,List.count_nil]
    omega
  | _ =>
    have hrest : (Reader.reportAt .assignmentTarget equal c).rest = c.rest := rfl
    refine ⟨Nat.le_refl _,?_⟩
    simp only [hrest,List.count_append]
    omega

theorem spends_atom {expression : Parse Expr}
    (hexpression : ∀ d, Spends x [] Expr.tokens expression d) {t : Token}
    (h : c.rest.head? = some t) : Spends x [] Expr.tokens (atom expression t) c := by
  have hleaf : ∀ {e : Expr}, e.tokens.count x ≤ [t].count x →
      Spends x [] Expr.tokens (do advance; return e) c :=
    fun he => (spends_advance h).bind fun _ _ => .pure he
  unfold atom
  cases t.kind with
  | symbol s =>
    cases s with
    | leftParen =>
      refine (spends_advance h).skip fun _ _ => (hexpression _).bind fun inner _ => ?_
      exact (spends_expectSymbol _ _).skip fun _ _ => .pure (Nat.le_refl _)
    | _ => exact spends_fail
  | keyword k =>
    cases k with
    | true_ | false_ | nil => exact hleaf (Nat.zero_le _)
    | this_ => exact hleaf (Nat.le_refl _)
    | super =>
      refine (spends_advance h).bind fun _ _ => (spends_expectSymbol _ _).skip fun _ _ => ?_
      exact (spends_expectName _).andThen fun method _ => .pure (Nat.le_refl _)
    | _ => exact spends_fail
  | identifier => exact hleaf (Nat.le_refl _)
  | integer value | float value | string value => exact hleaf (Nat.zero_le _)

/-- What the parsing functions for expressions use. -/
structure SpendsExpressions (x : Token) (n : Nat) : Prop where
  expression : ∀ c, Spends x [] Expr.tokens (expression n) c
  unary : ∀ c, Spends x [] Expr.tokens (unary n) c
  suffixes : ∀ (base : Expr) c, Spends x base.tokens Expr.tokens (suffixes n base) c
  arguments : ∀ count c, Spends x [] Expr.allTokens (arguments n count) c
  primary : ∀ c, Spends x [] Expr.tokens (primary n) c

theorem spendsExpressions (x : Token) (n : Nat) : SpendsExpressions x n := by
  induction n with
  | zero => exact ⟨fun _ => .throw,fun _ => .throw,fun _ _ => .throw,fun _ _ => .throw,fun _ => .throw⟩
  | succ n ih =>
    refine ⟨fun c => ?_,fun c => ?_,fun base c => ?_,fun count c => ?_,fun c => ?_⟩
    · refine (spends_operators ih.unary n).bind fun left d => ?_
      refine (spends_accept _).skip fun found d => ?_
      cases found with
      | none => exact .pure (Nat.le_refl _)
      | some equal =>
        exact (ih.expression d).andThen fun value d => spends_assignment left value equal
    · refine (spends_accept _).bind fun found d => ?_
      cases found with
      | some t =>
        refine (ih.unary d).andThen fun operand d => .pure ?_
        simp only [Expr.tokens,Expr.refs,Expr.others,Option.toList_some,List.count_append,
          List.count_cons,List.count_nil]
        omega
      | none => exact (ih.primary d).bind fun base d => ih.suffixes base d
    · refine (spends_accept _).skip fun found d => ?_
      cases found with
      | none => exact .pure (Nat.le_refl _)
      | some t =>
        dsimp only
        split
        · refine (spends_unlessAt rfl (ih.arguments 0)).andThen fun args d => ?_
          refine (spends_expectSymbol _ _).andThen fun paren d => ?_
          refine (ih.suffixes (.call base paren args) d).mono ?_ fun _ => Nat.le_refl _
          simp only [Expr.tokens,Expr.allTokens,Expr.refs,Expr.others,List.count_append,List.count_cons,
            List.count_nil]
          omega
        · refine (spends_expectName _).andThen fun name d => ?_
          refine (ih.suffixes (.get base name) d).mono ?_ fun _ => Nat.le_refl _
          simp only [Expr.tokens,Expr.refs,Expr.others,List.count_append,List.count_cons,List.count_nil]
          omega
    · refine (spends_checkCount _ count).skip fun _ d => (ih.expression d).bind fun first d => ?_
      refine (spends_acceptSymbol _).skip fun more d => ?_
      split
      · refine (ih.arguments (count + 1) d).andThen fun rest d => .pure ?_
        simp only [Expr.tokens,Expr.allTokens,Expr.allRefs,Expr.allOthers,List.count_append]
        omega
      · exact .pure (by simp [Expr.tokens,Expr.allTokens,Expr.allRefs,Expr.allOthers])
    · refine .peek ?_
      cases hnext : c.rest.head? with
      | none => exact spends_fail
      | some t => exact spends_atom ih.expression hnext

/-! ## Statements -/

theorem spends_expression (n : Nat) : ∀ c, Spends x [] Expr.tokens (expression n) c :=
  (spendsExpressions x n).expression

theorem spends_variableDeclaration (n : Nat) :
    Spends x [] Stmt.tokens (variableDeclaration n) c := by
  refine (spends_expectName _).bind fun name d => ?_
  refine (spends_after? (spends_expression n)).andThen fun initial d => ?_
  refine (spends_expectSymbol _ _).skip fun _ _ => .pure ?_
  cases initial with
  | none => exact Nat.le_refl _
  | some value =>
    simp only [Stmt.tokens,Stmt.refs,Stmt.others,Expr.tokens,Option.map_some,Option.getD_some,
      List.count_append,List.count_cons,List.count_nil]
    omega

theorem spends_expressionStatement (n : Nat) : Spends x [] Stmt.tokens (expressionStatement n) c :=
  (spends_expression n c).bind fun _ _ =>
    (spends_expectSymbol _ _).skip fun _ _ => .pure (Nat.le_refl _)

/-- The tokens of an expression that may be left out. -/
theorem spends_optionalExpression (n : Nat) (closing : Symbol) :
    Spends x [] (fun e => (e.map Expr.tokens).getD []) (optionalExpression n closing) c :=
  spends_unlessAt rfl fun d => (spends_expression n d).map fun _ => Nat.le_refl _

theorem spends_forStart (n : Nat) :
    Spends x [] (fun s => (s.map Stmt.tokens).getD []) (forStart n) c := by
  refine (spends_acceptSymbol _).skip fun _ _ => ?_
  split
  · exact .pure (Nat.le_refl _)
  · refine (spends_accept _).skip fun _ _ => ?_
    split
    · exact (spends_variableDeclaration n).map fun _ => Nat.le_refl _
    · exact (spends_expressionStatement n).map fun _ => Nat.le_refl _

theorem count_tokens_counting (t : Token) (start : Option Stmt) (condition step : Option Expr)
    (body : Stmt) :
    (Stmt.counting start condition step body).tokens.count t =
      ((start.map Stmt.tokens).getD []).count t + ((condition.map Expr.tokens).getD []).count t +
        ((step.map Expr.tokens).getD []).count t + body.tokens.count t := by
  cases start <;> cases condition <;> cases step <;>
    simp [Stmt.counting,Stmt.tokens,Expr.tokens,Stmt.refs,Stmt.allRefs,Expr.refs,Stmt.others,
      Stmt.allOthers,Expr.others] <;> omega

theorem spends_forStatement (n : Nat) {body : Parse Stmt} (hbody : ∀ d, Spends x [] Stmt.tokens body d) :
    Spends x [] Stmt.tokens (forStatement n body) c := by
  refine (spends_expectSymbol _ _).skip fun _ _ => (spends_forStart n).bind fun start _ => ?_
  refine (spends_optionalExpression n _).andThen fun condition _ => ?_
  refine (spends_expectSymbol _ _).skip fun _ _ => ?_
  refine (spends_optionalExpression n _).andThen fun step _ => ?_
  refine (spends_expectSymbol _ _).skip fun _ d => (hbody d).andThen fun body _ => .pure ?_
  simp only [count_tokens_counting,List.count_append]
  exact Nat.le_refl _

theorem spends_ifStatement (n : Nat) {branch : Parse Stmt}
    (hbranch : ∀ d, Spends x [] Stmt.tokens branch d) :
    Spends x [] Stmt.tokens (ifStatement n branch) c := by
  refine (spends_expectSymbol _ _).skip fun _ d => (spends_expression n d).bind fun test _ => ?_
  refine (spends_expectSymbol _ _).skip fun _ d => (hbranch d).andThen fun thenBranch _ => ?_
  refine (spends_after? hbranch).andThen fun elseBranch _ => .pure ?_
  cases elseBranch <;>
    simp only [Stmt.tokens,Stmt.refs,Stmt.others,Expr.tokens,Option.map_some,Option.map_none,
      Option.getD_some,Option.getD_none,List.count_append,List.count_nil] <;> omega

theorem spends_printStatement (n : Nat) : Spends x [] Stmt.tokens (printStatement n) c :=
  (spends_expression n c).bind fun _ _ =>
    (spends_expectSymbol _ _).skip fun _ _ => .pure (Nat.le_refl _)

theorem spends_returnStatement (n : Nat) (keyword : Token) :
    Spends x [keyword] Stmt.tokens (returnStatement n keyword) c := by
  refine (spends_optionalExpression n _).andThen fun value _ => ?_
  refine (spends_expectSymbol _ _).skip fun _ _ => .pure ?_
  cases value with
  | none => exact Nat.le_refl _
  | some value =>
    simp only [Stmt.tokens,Stmt.refs,Stmt.others,Expr.tokens,Option.map_some,Option.getD_some,
      List.count_append,List.count_cons,List.count_nil]
    omega

theorem spends_whileStatement (n : Nat) {body : Parse Stmt}
    (hbody : ∀ d, Spends x [] Stmt.tokens body d) :
    Spends x [] Stmt.tokens (whileStatement n body) c := by
  refine (spends_expectSymbol _ _).skip fun _ d => (spends_expression n d).bind fun test _ => ?_
  refine (spends_expectSymbol _ _).skip fun _ d => (hbody d).andThen fun body _ => .pure ?_
  simp only [Stmt.tokens,Stmt.refs,Stmt.others,Expr.tokens,List.count_append]
  omega

theorem spends_parameters (n count : Nat) : Spends x [] id (parameters n count) c := by
  induction n generalizing count c with
  | zero => exact .throw
  | succ n ih =>
    refine (spends_checkCount _ count).skip fun _ _ => (spends_expectName _).bind fun p _ => ?_
    refine (spends_acceptSymbol _).skip fun _ _ => ?_
    split
    · exact (ih (count + 1)).andThen fun rest _ => .pure (Nat.le_refl _)
    · exact .pure (Nat.le_refl _)

/-- What the parsing functions for statements use. -/
structure SpendsStatements (x : Token) (n : Nat) : Prop where
  declaration : ∀ c, Spends x [] Stmt.tokens (declaration n) c
  classDeclaration : ∀ c, Spends x [] Stmt.tokens (classDeclaration n) c
  methods : ∀ c, Spends x [] FunctionDecl.allTokens (methods n) c
  function : ∀ role c, Spends x [] FunctionDecl.tokens (function n role) c
  block : ∀ c, Spends x [] Stmt.allTokens (block n) c
  statement : ∀ c, Spends x [] Stmt.tokens (statement n) c

theorem count_allTokens_toList_append (s : Option Stmt) (rest : List Stmt) :
    (Stmt.allTokens (s.toList ++ rest)).count x =
      (Stmt.allTokens s.toList ++ Stmt.allTokens rest).count x := by
  cases s with
  | none => rfl
  | some s =>
    simp only [Option.toList_some,List.singleton_append,Stmt.allTokens,Stmt.allRefs,Stmt.allOthers,
      List.count_append,List.count_nil]
    omega

theorem spendsStatements (x : Token) (n : Nat) : SpendsStatements x n := by
  induction n with
  | zero =>
    exact ⟨fun _ => .throw,fun _ => .throw,fun _ => .throw,fun _ _ => .throw,fun _ => .throw,
      fun _ => .throw⟩
  | succ n ih =>
    refine ⟨fun c => ?_,fun c => ?_,fun c => ?_,fun role c => ?_,fun c => ?_,fun c => ?_⟩
    · refine (spends_accept _).skip fun found d => ?_
      cases found with
      | none => exact ih.statement d
      | some t =>
        dsimp only
        split
        · exact ih.classDeclaration d
        split
        · exact (ih.function .function d).map fun _ => Nat.le_refl _
        · exact spends_variableDeclaration n
    · refine (spends_expectName _).bind fun name _ => ?_
      refine (spends_after? fun _ => spends_expectName _).andThen fun superclass _ => ?_
      refine (spends_expectSymbol _ _).skip fun _ d => (ih.methods d).andThen fun body _ => ?_
      refine (spends_expectSymbol _ _).skip fun _ _ => .pure ?_
      cases superclass <;>
        simp only [Stmt.tokens,Stmt.refs,Stmt.others,FunctionDecl.allTokens,Option.map_some,
          Option.map_none,Option.getD_some,Option.getD_none,Option.toList_some,Option.toList_none,
          List.count_append,List.count_cons,List.count_nil] <;> omega
    · refine .peek ?_
      split
      · exact .pure (Nat.le_refl _)
      split
      · exact .pure (Nat.le_refl _)
      · refine (ih.function .method c).bind fun first d => (ih.methods d).andThen fun rest _ => .pure ?_
        simp only [FunctionDecl.tokens,FunctionDecl.allTokens,FunctionDecl.allRefs,
          FunctionDecl.allOthers,List.count_append]
        omega
    · refine (spends_expectName _).bind fun name _ => (spends_expectSymbol _ _).skip fun _ _ => ?_
      refine (spends_unlessAt rfl fun _ => spends_parameters n 0).andThen fun params _ => ?_
      refine (spends_expectSymbol _ _).skip fun _ _ => (spends_expectSymbol _ _).skip fun _ d => ?_
      refine (ih.block d).andThen fun body _ => .pure ?_
      simp only [FunctionDecl.tokens,FunctionDecl.refs,FunctionDecl.others,Stmt.allTokens,id_eq,
        List.count_append,List.count_cons,List.count_nil]
      omega
    · refine .peek ?_
      cases hnext : c.rest.head? with
      | none => exact spends_fail
      | some t =>
        dsimp only
        split
        · exact (spends_advance hnext).skip fun _ _ => .pure (Nat.le_refl _)
        · refine (spends_recovering (ih.declaration c)).bind fun first d => ?_
          exact (ih.block d).andThen fun rest _ =>
            .pure (Nat.le_of_eq (count_allTokens_toList_append first rest))
    · refine .peek ?_
      cases hnext : c.rest.head? with
      | none => exact spends_expressionStatement n
      | some t =>
        dsimp only
        split
        · exact (spends_advance hnext).skip fun _ _ => spends_forStatement n ih.statement
        · exact (spends_advance hnext).skip fun _ _ => spends_ifStatement n ih.statement
        · exact (spends_advance hnext).skip fun _ _ => spends_printStatement n
        · exact (spends_advance hnext).bind fun _ _ => spends_returnStatement n t
        · exact (spends_advance hnext).skip fun _ _ => spends_whileStatement n ih.statement
        · exact (spends_advance hnext).skip fun _ d =>
            (ih.block d).bind fun body _ => .pure (Nat.le_refl _)
        · exact spends_expressionStatement n

theorem spends_program (n : Nat) : Spends x [] Stmt.allTokens (program n) c := by
  induction n generalizing c with
  | zero => exact .throw
  | succ n ih =>
    refine .peek ?_
    split
    · exact .pure (Nat.le_refl _)
    · refine (spends_recovering ((spendsStatements x n).declaration c)).bind fun first d => ?_
      exact ih.andThen fun rest _ =>
        .pure (Nat.le_of_eq (count_allTokens_toList_append first rest))

end

end Parse

/-- Each token stands in the tree at most once, whatever was read. -/
theorem count_tokens_parse (tokens : List Token) (x : Token) :
    (Stmt.allTokens (parse tokens).statements).count x ≤ tokens.count x := by
  have hprogram : Parse.Spends x [] Stmt.allTokens (Parse.program (Parse.budget tokens))
    ⟨tokens,[]⟩ := Parse.spends_program _
  unfold Parse.Spends at hprogram
  unfold parse
  cases hrun : Parse.program (Parse.budget tokens) (⟨tokens,[]⟩ : Cursor) with
  | error e d => exact Nat.zero_le _
  | ok statements d =>
    rw [hrun] at hprogram
    have htokens := hprogram.2
    simp only [List.count_nil,Nat.zero_add] at htokens
    exact Nat.le_trans (Nat.le_add_right _ _) htokens

theorem mem_of_mem_parse {tokens : List Token} {x : Token}
    (h : x ∈ Stmt.allTokens (parse tokens).statements) : x ∈ tokens :=
  List.count_pos_iff.1 (Nat.lt_of_lt_of_le (List.count_pos_iff.2 h) (count_tokens_parse tokens x))

/-- All tokens of a tree have different places if those that were read have. -/
theorem nodup_index_parse {tokens : List Token} (h : (tokens.map Token.index).Nodup) :
    ((Stmt.allTokens (parse tokens).statements).map Token.index).Nodup := by
  have htree : (Stmt.allTokens (parse tokens).statements).Nodup := by
    rw [List.nodup_iff_count]
    intro x
    exact Nat.le_trans (count_tokens_parse tokens x) (List.nodup_iff_count.1 h.of_map x)
  exact htree.map_on fun x hx y hy =>
    List.inj_on_of_nodup_map h (mem_of_mem_parse hx) (mem_of_mem_parse hy)

/-- So have the names that its nodes refer to. -/
theorem nodup_refs_parse {tokens : List Token} (h : (tokens.map Token.index).Nodup) :
    ((Stmt.allRefs (parse tokens).statements).map Token.index).Nodup :=
  (nodup_index_parse h).sublist ((List.sublist_append_left _ _).map Token.index)

end Scriptlet
