import Scriptlet.Proofs.Segmentation
import Scriptlet.Session

/-! # What trees are made of

A tree that the parser builds has a token of the right kind in each place, and the text of a token is
one of its kind. This holds of all trees, also of those that are built of a source with errors: what
is skipped or reported leaves no mark on them.
-/
namespace Scriptlet

/-- A token has some kind, and a text of that kind. -/
def Token.Is (t : Token) (kind : Kind) : Prop := t.kind = kind ∧ Lexeme kind t.lexeme

theorem Token.is_of_kind {t : Token} {kind : Kind} (h : Lexeme t.kind t.lexeme)
    (hkind : t.kind = kind) : t.Is kind := ⟨hkind,hkind ▸ h⟩

/-- A value that a literal can have. -/
def Scalar.IsLiteral : Scalar → Prop
  | .nil | .bool _ => True
  | .int n => ∃ text, Lexeme (.integer n) text
  | .float f => ∃ text, Lexeme (.float f) text
  | .str s => ∃ text, Lexeme (.string s) text

mutual

/-- An expression of tokens that are of the right kinds. -/
def Expr.Authentic : Expr → Prop
  | .literal value => value.IsLiteral
  | .variable_ name => name.Is .identifier
  | .self keyword => keyword.Is (.keyword .this_)
  | .superMethod keyword method => keyword.Is (.keyword .super) ∧ method.Is .identifier
  | .grouping inner => inner.Authentic
  | .unary op token operand => token.Is (.symbol op.symbol) ∧ operand.Authentic
  | .binary op token left right =>
    token.Is (.symbol op.symbol) ∧ left.Authentic ∧ right.Authentic
  | .logical _ left right => left.Authentic ∧ right.Authentic
  | .assign name value => name.Is .identifier ∧ value.Authentic
  | .get object name => object.Authentic ∧ name.Is .identifier
  | .set object name value => object.Authentic ∧ name.Is .identifier ∧ value.Authentic
  | .call callee paren arguments =>
    callee.Authentic ∧ paren.Is (.symbol .rightParen) ∧ Expr.AllAuthentic arguments

def Expr.AllAuthentic : List Expr → Prop
  | [] => True
  | e :: rest => e.Authentic ∧ Expr.AllAuthentic rest

end

mutual

def Stmt.Authentic : Stmt → Prop
  | .expression value => value.Authentic
  | .print value => value.Authentic
  | .varDecl name none => name.Is .identifier
  | .varDecl name (some value) => name.Is .identifier ∧ value.Authentic
  | .block body => Stmt.AllAuthentic body
  | .ifElse condition thenBranch none => condition.Authentic ∧ thenBranch.Authentic
  | .ifElse condition thenBranch (some elseBranch) =>
    condition.Authentic ∧ thenBranch.Authentic ∧ elseBranch.Authentic
  | .while_ condition body => condition.Authentic ∧ body.Authentic
  | .return_ keyword none => keyword.Is (.keyword .return_)
  | .return_ keyword (some value) => keyword.Is (.keyword .return_) ∧ value.Authentic
  | .funDecl decl => decl.Authentic
  | .classDecl name superclass methods =>
    name.Is .identifier ∧ (∀ parent ∈ superclass, parent.Is .identifier) ∧
      FunctionDecl.AllAuthentic methods

def Stmt.AllAuthentic : List Stmt → Prop
  | [] => True
  | s :: rest => s.Authentic ∧ Stmt.AllAuthentic rest

def FunctionDecl.Authentic : FunctionDecl → Prop
  | ⟨name,params,body⟩ =>
    name.Is .identifier ∧ (∀ p ∈ params, p.Is .identifier) ∧ Stmt.AllAuthentic body

def FunctionDecl.AllAuthentic : List FunctionDecl → Prop
  | [] => True
  | decl :: rest => decl.Authentic ∧ FunctionDecl.AllAuthentic rest

end

/-- All tokens that are left have texts of their kinds. -/
def Cursor.Authentic (c : Cursor) : Prop := ∀ t ∈ c.rest, Lexeme t.kind t.lexeme

namespace Parse

/-! ## Rules -/

/-- Whatever a parsing function gives has a property, and what it leaves stays authentic. -/
def Yields {α : Type} (P : α → Prop) (p : Parse α) : Prop :=
  ∀ c, c.Authentic → match p c with
    | .ok a d => P a ∧ d.Authentic
    | .error _ d => d.Authentic

section

variable {α β : Type} {P Q : α → Prop} {R : β → Prop} {p : Parse α} {f : α → Parse β} {a : α}

theorem Yields.pure (h : P a) : Yields P (pure a) := fun _ hc => ⟨h,hc⟩

theorem Yields.throw {e : Stop} : Yields P (throw e) := fun _ hc => hc

theorem Yields.bind (hp : Yields P p) (hf : ∀ a, P a → Yields R (f a)) : Yields R (p >>= f) := by
  intro c hc
  have hfirst := hp c hc
  change match EStateM.bind p f c with
    | .ok b d => R b ∧ d.Authentic
    | .error _ d => d.Authentic
  unfold EStateM.bind
  cases hrun : p c with
  | ok a d =>
    rw [hrun] at hfirst
    exact hf a hfirst.1 d hfirst.2
  | error e d =>
    rw [hrun] at hfirst
    exact hfirst

theorem Yields.mono (hp : Yields P p) (h : ∀ a, P a → Q a) : Yields Q p := by
  intro c hc
  have hfirst := hp c hc
  cases hrun : p c with
  | ok a d =>
    rw [hrun] at hfirst
    exact ⟨h a hfirst.1,hfirst.2⟩
  | error e d =>
    rw [hrun] at hfirst
    exact hfirst

theorem Yields.map {g : α → β} (hp : Yields P p) (h : ∀ a, P a → R (g a)) : Yields R (g <$> p) :=
  Yields.bind (f := fun a => Pure.pure (g a)) hp fun a ha => .pure (h a ha)

theorem yields_peek? : Yields (fun next => ∀ t ∈ next, Lexeme t.kind t.lexeme) peek? :=
  fun _ hc => ⟨fun t ht => hc t (List.mem_of_mem_head? ht),hc⟩

theorem yields_advance : Yields (fun _ => True) advance :=
  fun _ hc => ⟨trivial,fun t ht => hc t (List.mem_of_mem_tail ht)⟩

theorem yields_report (error : ParseError) : Yields (fun _ => True) (report error) :=
  fun _ hc => ⟨trivial,hc⟩

theorem yields_reportAt (error : ParseError) (token : Token) :
    Yields (fun _ => True) (reportAt error token) :=
  fun _ hc => ⟨trivial,hc⟩

theorem yields_fail {error : ParseError} : Yields P (fail error) :=
  (yields_report error).bind fun _ _ => .throw

theorem yields_take? (wanted : Token → Option α) :
    Yields (fun found => ∀ a ∈ found, ∃ t, Lexeme t.kind t.lexeme ∧ wanted t = some a)
      (take? wanted) := by
  refine yields_peek?.bind ?_
  intro next hnext
  split
  · exact .pure (by simp)
  · next t =>
    split
    · exact .pure (by simp)
    · next a ha =>
      refine yields_advance.bind fun _ _ => .pure ?_
      intro b hb
      cases hb
      exact ⟨t,hnext t rfl,ha⟩

theorem yields_accept (wanted : Token → Bool) :
    Yields (fun found => ∀ t ∈ found, Lexeme t.kind t.lexeme ∧ wanted t = true) (accept wanted) := by
  refine (yields_take? _).mono ?_
  intro found hfound t ht
  obtain ⟨t',hlexeme,hwanted⟩ := hfound t ht
  obtain ⟨htrue,heq⟩ := Option.ite_none_right_eq_some.1 hwanted
  obtain rfl := Option.some.inj heq
  exact ⟨hlexeme,htrue⟩

theorem yields_acceptSymbol (s : Symbol) : Yields (fun _ => True) (acceptSymbol s) :=
  (yields_accept _).bind fun _ _ => .pure trivial

theorem yields_expect (wanted : Token → Bool) (error : ParseError) :
    Yields (fun t => Lexeme t.kind t.lexeme ∧ wanted t = true) (expect wanted error) := by
  refine (yields_accept wanted).bind ?_
  intro found hfound
  split
  · exact .pure (hfound _ rfl)
  · exact yields_fail

theorem yields_expectSymbol (s : Symbol) (error : ParseError) :
    Yields (fun t => t.Is (.symbol s)) (expectSymbol s error) :=
  (yields_expect _ error).mono fun _ h => Token.is_of_kind h.1 (of_decide_eq_true h.2)

theorem yields_expectName (error : ParseError) :
    Yields (fun t => t.Is .identifier) (expectName error) := by
  refine (yields_expect _ error).mono ?_
  rintro t ⟨hlexeme,hname⟩
  exact Token.is_of_kind hlexeme (by simpa [Token.isIdentifier] using hname)

theorem yields_after? {wanted : Token → Bool} (hp : Yields P p) :
    Yields (fun found => ∀ a ∈ found, P a) (after? wanted p) := by
  refine (yields_accept wanted).bind ?_
  intro found _
  split
  · exact hp.map fun a ha b hb => Option.some.inj hb ▸ ha
  · exact .pure (by simp)

theorem yields_unlessAt {closing : Symbol} (ha : P a) (hp : Yields P p) :
    Yields P (unlessAt closing a p) := by
  refine Yields.bind (P := fun _ => True) (yields_peek?.bind fun _ _ => .pure trivial) ?_
  intro atClosing _
  split
  · exact .pure ha
  · exact hp

theorem yields_checkCount (error : ParseError) (count : Nat) :
    Yields (fun _ => True) (checkCount error count) := by
  unfold checkCount
  split
  · exact yields_report error
  · exact .pure trivial

end

theorem mem_of_mem_synchronize {t : Token} {tokens : List Token} (h : t ∈ synchronize tokens) :
    t ∈ tokens := by
  fun_induction synchronize tokens with
  | case1 => exact h
  | case2 => exact List.mem_cons_of_mem _ h
  | case3 => cases h
  | case4 => exact List.mem_cons_of_mem _ h
  | case5 _ _ _ _ _ ih => exact List.mem_cons_of_mem _ (ih h)

theorem yields_recovering {p : Parse Stmt} (hp : Yields Stmt.Authentic p) :
    Yields (fun s => ∀ s' ∈ s, s'.Authentic) (recovering p) := by
  intro c hc
  have hread := hp c hc
  unfold recovering
  cases hrun : p c with
  | ok s d =>
    rw [hrun] at hread
    exact ⟨fun s' hs' => Option.some.inj hs' ▸ hread.1,hread.2⟩
  | error e d =>
    rw [hrun] at hread
    cases e with
    | failed => exact ⟨by simp,fun t ht => hread t (mem_of_mem_synchronize ht)⟩
    | exhausted => exact hread

/-! ## Expressions -/

/-- A token joins authentic operands to an authentic expression. -/
theorem authentic_of_join {join : Joiner} (hjoin : join ∈ levels) {t : Token}
    {node : Expr → Expr → Expr} (hnode : join t = some node) (ht : Lexeme t.kind t.lexeme)
    {left right : Expr} (hleft : left.Authentic) (hright : right.Authentic) :
    (node left right).Authentic := by
  have hbinary : ∀ op : BinaryOp, t.kind = .symbol op.symbol → (Expr.binary op t left right).Authentic :=
    fun op hkind => ⟨Token.is_of_kind ht hkind,hleft,hright⟩
  simp only [levels,List.mem_cons,List.not_mem_nil,or_false] at hjoin
  rcases hjoin with rfl | rfl | rfl | rfl | rfl | rfl
  case inr.inr.inr.inr.inl | inr.inr.inr.inr.inr =>
    obtain ⟨-,hnode⟩ := Option.ite_none_right_eq_some.1 hnode
    obtain rfl := Option.some.inj hnode
    exact ⟨hleft,hright⟩
  all_goals
    simp only [multiplicative,additive,relational,equality] at hnode
    split at hnode <;> cases hnode <;> exact hbinary _ (by assumption)

theorem yields_chain {operand : Parse Expr} (hoperand : Yields Expr.Authentic operand) {join : Joiner}
    (hjoin : join ∈ levels) (n : Nat) {left : Expr} (hleft : left.Authentic) :
    Yields Expr.Authentic (chain operand join n left) := by
  induction n generalizing left with
  | zero => exact .throw
  | succ n ih =>
    refine (yields_take? join).bind ?_
    intro found hfound
    split
    · exact .pure hleft
    · next node =>
      obtain ⟨t,ht,hnode⟩ := hfound node rfl
      refine hoperand.bind fun right hright => ?_
      exact ih (authentic_of_join hjoin hnode ht hleft hright)

theorem yields_operators {operand : Parse Expr} (hoperand : Yields Expr.Authentic operand) (n : Nat) :
    Yields Expr.Authentic (operators n operand) := by
  apply List.foldlRecOn levels (leftAssociative n) hoperand
  intro p hp join hjoin
  exact hp.bind fun first hfirst => yields_chain hp hjoin n hfirst

theorem yields_assignment {target value : Expr} (htarget : target.Authentic)
    (hvalue : value.Authentic) (equal : Token) :
    Yields Expr.Authentic (assignment target equal value) := by
  cases target with
  | variable_ name => exact .pure ⟨htarget,hvalue⟩
  | get object name => exact .pure ⟨htarget.1,htarget.2,hvalue⟩
  | _ => exact (yields_reportAt _ equal).bind fun _ _ => .pure htarget

theorem yields_atom {expression : Parse Expr} (hexpression : Yields Expr.Authentic expression)
    {t : Token} (ht : Lexeme t.kind t.lexeme) : Yields Expr.Authentic (atom expression t) := by
  have hleaf : ∀ {e : Expr}, e.Authentic → Yields Expr.Authentic (do advance; return e) :=
    fun he => yields_advance.bind fun _ _ => .pure he
  unfold atom
  cases hkind : t.kind with
  | symbol s =>
    cases s with
    | leftParen =>
      refine yields_advance.bind fun _ _ => hexpression.bind fun inner hinner => ?_
      exact (yields_expectSymbol _ _).bind fun _ _ => .pure hinner
    | _ => exact yields_fail
  | keyword k =>
    cases k with
    | true_ | false_ | nil => exact hleaf trivial
    | this_ => exact hleaf (Token.is_of_kind ht hkind)
    | super =>
      refine yields_advance.bind fun _ _ => (yields_expectSymbol _ _).bind fun _ _ => ?_
      refine (yields_expectName _).bind fun method hmethod => ?_
      exact .pure ⟨Token.is_of_kind ht hkind,hmethod⟩
    | _ => exact yields_fail
  | identifier => exact hleaf (Token.is_of_kind ht hkind)
  | integer value | float value | string value => exact hleaf ⟨_,hkind ▸ ht⟩

/-- What the parsing functions for expressions give. -/
structure YieldsExpressions (n : Nat) : Prop where
  expression : Yields Expr.Authentic (expression n)
  unary : Yields Expr.Authentic (unary n)
  suffixes : ∀ {base : Expr}, base.Authentic → Yields Expr.Authentic (suffixes n base)
  arguments : ∀ count, Yields Expr.AllAuthentic (arguments n count)
  primary : Yields Expr.Authentic (primary n)

theorem yieldsExpressions (n : Nat) : YieldsExpressions n := by
  induction n with
  | zero => exact ⟨.throw,.throw,fun _ => .throw,fun _ => .throw,.throw⟩
  | succ n ih =>
    refine ⟨?_,?_,?_,?_,?_⟩
    · refine (yields_operators ih.unary n).bind fun left hleft => ?_
      refine (yields_accept _).bind fun found hfound => ?_
      clear hfound
      split
      · exact .pure hleft
      · next equal =>
        exact ih.expression.bind fun value hvalue => yields_assignment hleft hvalue equal
    · refine (yields_accept _).bind fun found hfound => ?_
      split
      · next t =>
        refine ih.unary.bind fun operand hoperand => .pure ⟨?_,hoperand⟩
        obtain ⟨hlexeme,hsign⟩ := hfound _ rfl
        apply Token.is_of_kind hlexeme
        by_cases hbang : t.isSymbol .bang = true
        · rw [if_pos hbang]
          exact of_decide_eq_true hbang
        · rw [if_neg hbang]
          rw [Bool.not_eq_true] at hbang
          rw [hbang,Bool.false_or] at hsign
          exact of_decide_eq_true hsign
      · exact ih.primary.bind fun base hbase => ih.suffixes hbase
    · intro base hbase
      refine (yields_accept _).bind fun found hfound => ?_
      split
      · exact .pure hbase
      · next t =>
        split
        · refine (yields_unlessAt trivial (ih.arguments 0)).bind fun args hargs => ?_
          refine (yields_expectSymbol _ _).bind fun paren hparen => ?_
          exact ih.suffixes ⟨hbase,hparen,hargs⟩
        · refine (yields_expectName _).bind fun name hname => ?_
          exact ih.suffixes ⟨hbase,hname⟩
    · intro count
      refine (yields_checkCount _ count).bind fun _ _ => ?_
      refine ih.expression.bind fun first hfirst => ?_
      refine (yields_acceptSymbol _).bind fun more _ => ?_
      split
      · exact (ih.arguments (count + 1)).bind fun rest hrest => .pure ⟨hfirst,hrest⟩
      · exact .pure ⟨hfirst,trivial⟩
    · refine yields_peek?.bind fun next hnext => ?_
      split
      · exact yields_fail
      · next t => exact yields_atom ih.expression (hnext t rfl)

/-! ## Statements -/

theorem yields_expression (n : Nat) : Yields Expr.Authentic (expression n) :=
  (yieldsExpressions n).expression

theorem yields_variableDeclaration (n : Nat) : Yields Stmt.Authentic (variableDeclaration n) := by
  refine (yields_expectName _).bind fun name hname => ?_
  refine (yields_after? (yields_expression n)).bind fun initial hinitial => ?_
  refine (yields_expectSymbol _ _).bind fun _ _ => .pure ?_
  cases initial with
  | none => exact hname
  | some value => exact ⟨hname,hinitial value rfl⟩

theorem yields_expressionStatement (n : Nat) : Yields Stmt.Authentic (expressionStatement n) :=
  (yields_expression n).bind fun _ hvalue =>
    (yields_expectSymbol _ _).bind fun _ _ => .pure hvalue

theorem yields_optionalExpression (n : Nat) (closing : Symbol) :
    Yields (fun e => ∀ e' ∈ e, e'.Authentic) (optionalExpression n closing) := by
  refine yields_unlessAt (by simp) ?_
  exact (yields_expression n).map fun e he e' he' => Option.some.inj he' ▸ he

theorem yields_forStart (n : Nat) :
    Yields (fun s => ∀ s' ∈ s, s'.Authentic) (forStart n) := by
  have hsome : ∀ {p : Parse Stmt}, Yields Stmt.Authentic p →
      Yields (fun s => ∀ s' ∈ s, s'.Authentic) (some <$> p) :=
    fun hp => hp.map fun s hs s' hs' => Option.some.inj hs' ▸ hs
  refine (yields_acceptSymbol _).bind fun _ _ => ?_
  split
  · exact .pure (by simp)
  · refine (yields_accept _).bind fun _ _ => ?_
    split
    · exact hsome (yields_variableDeclaration n)
    · exact hsome (yields_expressionStatement n)

theorem authentic_counting {start : Option Stmt} {condition step : Option Expr} {body : Stmt}
    (hstart : ∀ s ∈ start, s.Authentic) (hcondition : ∀ e ∈ condition, e.Authentic)
    (hstep : ∀ e ∈ step, e.Authentic) (hbody : body.Authentic) :
    (Stmt.counting start condition step body).Authentic := by
  have htest : (condition.getD (.literal (.bool true))).Authentic := by
    cases condition with
    | none => trivial
    | some e => exact hcondition e rfl
  cases start with
  | none =>
    cases step with
    | none => exact ⟨htest,hbody⟩
    | some e => exact ⟨htest,hbody,hstep e rfl,trivial⟩
  | some s =>
    cases step with
    | none => exact ⟨hstart s rfl,⟨htest,hbody⟩,trivial⟩
    | some e => exact ⟨hstart s rfl,⟨htest,hbody,hstep e rfl,trivial⟩,trivial⟩

theorem yields_forStatement (n : Nat) {body : Parse Stmt} (hbody : Yields Stmt.Authentic body) :
    Yields Stmt.Authentic (forStatement n body) := by
  refine (yields_expectSymbol _ _).bind fun _ _ => (yields_forStart n).bind fun start hstart => ?_
  refine (yields_optionalExpression n _).bind fun condition hcondition => ?_
  refine (yields_expectSymbol _ _).bind fun _ _ => ?_
  refine (yields_optionalExpression n _).bind fun step hstep => ?_
  refine (yields_expectSymbol _ _).bind fun _ _ => hbody.bind fun body hbody => .pure ?_
  exact authentic_counting hstart hcondition hstep hbody

theorem yields_ifStatement (n : Nat) {branch : Parse Stmt} (hbranch : Yields Stmt.Authentic branch) :
    Yields Stmt.Authentic (ifStatement n branch) := by
  refine (yields_expectSymbol _ _).bind fun _ _ => (yields_expression n).bind fun test htest => ?_
  refine (yields_expectSymbol _ _).bind fun _ _ => hbranch.bind fun thenBranch hthen => ?_
  refine (yields_after? hbranch).bind fun elseBranch helse => .pure ?_
  cases elseBranch with
  | none => exact ⟨htest,hthen⟩
  | some s => exact ⟨htest,hthen,helse s rfl⟩

theorem yields_printStatement (n : Nat) : Yields Stmt.Authentic (printStatement n) :=
  (yields_expression n).bind fun _ hvalue =>
    (yields_expectSymbol _ _).bind fun _ _ => .pure hvalue

theorem yields_returnStatement (n : Nat) {keyword : Token}
    (hkeyword : keyword.Is (.keyword .return_)) :
    Yields Stmt.Authentic (returnStatement n keyword) := by
  refine (yields_optionalExpression n _).bind fun value hvalue => ?_
  refine (yields_expectSymbol _ _).bind fun _ _ => .pure ?_
  cases value with
  | none => exact hkeyword
  | some e => exact ⟨hkeyword,hvalue e rfl⟩

theorem yields_whileStatement (n : Nat) {body : Parse Stmt} (hbody : Yields Stmt.Authentic body) :
    Yields Stmt.Authentic (whileStatement n body) := by
  refine (yields_expectSymbol _ _).bind fun _ _ => (yields_expression n).bind fun test htest => ?_
  exact (yields_expectSymbol _ _).bind fun _ _ => hbody.bind fun body hbody => .pure ⟨htest,hbody⟩

theorem yields_parameters (n count : Nat) :
    Yields (fun params => ∀ p ∈ params, p.Is .identifier) (parameters n count) := by
  induction n generalizing count with
  | zero => exact .throw
  | succ n ih =>
    refine (yields_checkCount _ count).bind fun _ _ => (yields_expectName _).bind fun p hp => ?_
    refine (yields_acceptSymbol _).bind fun _ _ => ?_
    split
    · exact (ih (count + 1)).bind fun rest hrest => .pure (List.forall_mem_cons.2 ⟨hp,hrest⟩)
    · exact .pure (by simpa using hp)

theorem authentic_append {s : Option Stmt} {rest : List Stmt} (hs : ∀ s' ∈ s, s'.Authentic)
    (hrest : Stmt.AllAuthentic rest) : Stmt.AllAuthentic (s.toList ++ rest) := by
  cases s with
  | none => exact hrest
  | some s => exact ⟨hs s rfl,hrest⟩

/-- What the parsing functions for statements give. -/
structure YieldsStatements (n : Nat) : Prop where
  declaration : Yields Stmt.Authentic (declaration n)
  classDeclaration : Yields Stmt.Authentic (classDeclaration n)
  methods : Yields FunctionDecl.AllAuthentic (methods n)
  function : ∀ role, Yields FunctionDecl.Authentic (function n role)
  block : Yields Stmt.AllAuthentic (block n)
  statement : Yields Stmt.Authentic (statement n)

theorem yieldsStatements (n : Nat) : YieldsStatements n := by
  induction n with
  | zero => exact ⟨.throw,.throw,.throw,fun _ => .throw,.throw,.throw⟩
  | succ n ih =>
    refine ⟨?_,?_,?_,?_,?_,?_⟩
    · refine (yields_accept _).bind fun _ _ => ?_
      split
      · exact ih.statement
      · split
        · exact ih.classDeclaration
        split
        · exact (ih.function .function).map fun _ h => h
        · exact yields_variableDeclaration n
    · refine (yields_expectName _).bind fun name hname => ?_
      refine (yields_after? (yields_expectName _)).bind fun superclass hsuperclass => ?_
      refine (yields_expectSymbol _ _).bind fun _ _ => ih.methods.bind fun body hbody => ?_
      exact (yields_expectSymbol _ _).bind fun _ _ => .pure ⟨hname,hsuperclass,hbody⟩
    · refine yields_peek?.bind fun _ _ => ?_
      split
      · exact .pure trivial
      split
      · exact .pure trivial
      · exact (ih.function .method).bind fun first hfirst =>
          ih.methods.bind fun rest hrest => .pure ⟨hfirst,hrest⟩
    · intro role
      refine (yields_expectName _).bind fun name hname => ?_
      refine (yields_expectSymbol _ _).bind fun _ _ => ?_
      refine (yields_unlessAt (by simp) (yields_parameters n 0)).bind fun params hparams => ?_
      refine (yields_expectSymbol _ _).bind fun _ _ => (yields_expectSymbol _ _).bind fun _ _ => ?_
      exact ih.block.bind fun body hbody => .pure ⟨hname,hparams,hbody⟩
    · refine yields_peek?.bind fun _ _ => ?_
      split
      · exact yields_fail
      split
      · exact yields_advance.bind fun _ _ => .pure trivial
      · exact (yields_recovering ih.declaration).bind fun first hfirst =>
          ih.block.bind fun rest hrest => .pure (authentic_append hfirst hrest)
    · refine yields_peek?.bind fun next hnext => ?_
      split
      · exact yields_expressionStatement n
      · next t =>
        split
        · exact yields_advance.bind fun _ _ => yields_forStatement n ih.statement
        · exact yields_advance.bind fun _ _ => yields_ifStatement n ih.statement
        · exact yields_advance.bind fun _ _ => yields_printStatement n
        · next hkind =>
          exact yields_advance.bind fun _ _ =>
            yields_returnStatement n (Token.is_of_kind (hnext t rfl) hkind)
        · exact yields_advance.bind fun _ _ => yields_whileStatement n ih.statement
        · exact yields_advance.bind fun _ _ => ih.block.bind fun body hbody => .pure hbody
        · exact yields_expressionStatement n

theorem yields_program (n : Nat) : Yields Stmt.AllAuthentic (program n) := by
  induction n with
  | zero => exact .throw
  | succ n ih =>
    refine yields_peek?.bind fun _ _ => ?_
    split
    · exact .pure trivial
    · exact (yields_recovering (yieldsStatements n).declaration).bind fun first hfirst =>
        ih.bind fun rest hrest => .pure (authentic_append hfirst hrest)

end Parse

/-! ## Sources -/

theorem authentic_parse {tokens : List Token} (h : ∀ t ∈ tokens, Lexeme t.kind t.lexeme) :
    Stmt.AllAuthentic (parse tokens).statements := by
  have hprogram := Parse.yields_program (Parse.budget tokens) ⟨tokens,[]⟩ h
  unfold parse
  cases hrun : Parse.program (Parse.budget tokens) (⟨tokens,[]⟩ : Cursor) with
  | ok statements c =>
    rw [hrun] at hprogram
    exact hprogram.1
  | error e c => trivial

theorem Splits.fits {source : Bytes} {parts : List Segment} (h : Splits source parts) :
    ∀ s ∈ parts, ∃ rest, s.Fits rest := by
  induction h with
  | nil => simp
  | cons hfits _ ih => exact List.forall_mem_cons.2 ⟨⟨_,hfits⟩,ih⟩

theorem segment_of_mem_locate {line index : Nat} {parts : List Segment} {t : Token}
    (h : t ∈ (locate line index parts).tokens) : .token t.kind t.lexeme ∈ parts := by
  induction parts generalizing line index with
  | nil => cases h
  | cons s rest ih =>
    cases s with
    | token kind lexeme =>
      rcases List.mem_cons.1 h with rfl | h
      · exact List.mem_cons_self
      · exact List.mem_cons_of_mem _ (ih h)
    | _ => exact List.mem_cons_of_mem _ (ih h)

/-- Each token that scanning gives has a text of its kind. -/
theorem lexeme_of_mem_scanFrom {index : Nat} {source : Bytes} {t : Token}
    (h : t ∈ (scanFrom index source).tokens) : Lexeme t.kind t.lexeme := by
  obtain ⟨rest,hfits⟩ := (splits_segments source).fits _ (segment_of_mem_locate h)
  exact hfits.1

/-- The statements of a source are made of tokens of the right kinds, whatever the source is. -/
theorem authentic_load (index : Nat) (source : Bytes) :
    Stmt.AllAuthentic (load index source).statements :=
  authentic_parse fun _ ht => lexeme_of_mem_scanFrom ht

end Scriptlet
