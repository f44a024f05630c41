import Scriptlet.Tree.Parser

/-! # Readers that show the same tokens

A reader shows a cursor if it offers the same next token, and still does after each operation. The
parser then comes to the same end over both, whatever the two budgets are, as long as neither is
used up. For expressions it is enough that tokens other than semicolons can be passed, since no
expression has one; so what follows a semicolon makes no difference to the expression in front of it.
-/
namespace Scriptlet

open Parse (Joiner levels)

section Rules

variable {σ α β : Type} {short : Prop} {S T U : σ → Cursor → Prop} {c : σ} {d : Cursor}

/-- Two runs of the parser end alike: with the same result in states related by `T`, or with a failed
statement in states related by `S`. Nothing is said if the budget of the cursor is used up. The one of
the reader may be used up only if it is `short`. -/
inductive Agree (short : Prop) (S T : σ → Cursor → Prop) :
    EStateM.Result Stop σ α → EStateM.Result Stop Cursor α → Prop
  | ok {a : α} {c : σ} {d : Cursor} : T c d → Agree short S T (.ok a c) (.ok a d)
  | failed {c : σ} {d : Cursor} : S c d → Agree short S T (.error .failed c) (.error .failed d)
  | dry {c : σ} {y : EStateM.Result Stop Cursor α} : short → Agree short S T (.error .exhausted c) y
  | dryCursor {x : EStateM.Result Stop σ α} {d : Cursor} : Agree short S T x (.error .exhausted d)

/-- From states that are related on, the two parsers end alike, in related states. -/
def Agrees (short : Prop) (S : σ → Cursor → Prop) (p : Reading σ α) (q : Parse α) : Prop :=
  ∀ c d, S c d → Agree short S S (p c) (q d)

theorem Agree.bind {p : Reading σ α} {q : Parse α} {f : α → Reading σ β} {g : α → Parse β}
    (hp : Agree short S U (p c) (q d)) (hf : ∀ a c d, U c d → Agree short S T (f a c) (g a d)) :
    Agree short S T ((p >>= f) c) ((q >>= g) d) := by
  change Agree short S T (EStateM.bind p f c) (EStateM.bind q g d)
  unfold EStateM.bind
  generalize p c = x at hp
  generalize q d = y at hp
  cases hp with
  | ok h => exact hf _ _ _ h
  | failed h => exact .failed h
  | dry hshort => exact .dry hshort
  | dryCursor => exact .dryCursor

theorem Agree.map {p : Reading σ α} {q : Parse α} (f : α → β) (hp : Agree short S T (p c) (q d)) :
    Agree short S T ((f <$> p) c) ((f <$> q) d) :=
  hp.bind (f := fun a => Pure.pure (f a)) (g := fun a => Pure.pure (f a)) fun _ _ _ h => .ok h

variable [Reader σ]

/-- A statement that fails over the reader fails over the cursor too, and both go on behind it. -/
theorem Agree.recovering {p : Reading σ Stmt} {q : Parse Stmt} (hp : Agree short S T (p c) (q d))
    (hresume : ∀ c d, S c d → T (Reader.resume c) { d with rest := Parse.synchronize d.rest }) :
    Agree short S T (Parse.recovering p c) (Parse.recovering q d) := by
  unfold Parse.recovering
  generalize p c = x at hp
  generalize q d = y at hp
  cases hp with
  | ok hc => exact .ok hc
  | failed hc => exact .ok (hresume _ _ hc)
  | dry hshort => exact .dry hshort
  | dryCursor => exact .dryCursor

/-- The reader offers what the cursor has, and goes on to do so. Only tokens with `P` are passed. -/
structure Reader.Shows (S : σ → Cursor → Prop) (P : Token → Prop) : Prop where
  look : ∀ {c d}, S c d → (Reader.look c).1 = d.rest.head? ∧ S (Reader.look c).2 d
  pass : ∀ {c t rest faults}, S c ⟨t :: rest,faults⟩ → P t → S (Reader.pass c) ⟨rest,faults⟩
  report : ∀ {c d} error, S c d → S (Reader.report error c) ⟨d.rest,⟨error,d.rest.head?⟩ :: d.faults⟩
  reportAt : ∀ {c d} error token, S c d →
    S (Reader.reportAt error token c) ⟨d.rest,⟨error,some token⟩ :: d.faults⟩

/-- The reader also takes up the reading again at the same token. -/
structure Reader.Follows (S : σ → Cursor → Prop) : Prop
    extends Reader.Shows S fun _ => True where
  resume : ∀ {c d}, S c d → S (Reader.resume c) { d with rest := Parse.synchronize d.rest }

variable {P : Token → Prop} (h : Reader.Shows S P) (hc : S c d)
include h hc

namespace Reader.Shows

theorem agree_peek {f : Option Token → Reading σ α} {g : Option Token → Parse α}
    (hf : ∀ c, S c d → Agree short S T (f d.rest.head? c) (g d.rest.head? d)) :
    Agree short S T ((Parse.peek? >>= f) c) ((Parse.peek? >>= g) d) := by
  obtain ⟨hnext,hsame⟩ := h.look hc
  have hrun : (Parse.peek? >>= f) c = f (Reader.look c).1 (Reader.look c).2 := rfl
  rw [hrun,hnext]
  exact hf _ hsame

theorem agree_advance {t : Token} (ht : d.rest.head? = some t) (hP : P t) :
    Agree short S S (Parse.advance c) (Parse.advance d) := by
  obtain ⟨rest,faults⟩ := d
  obtain ⟨tail,rfl⟩ := List.head?_eq_some_iff.1 ht
  exact .ok (h.pass hc hP)

theorem agree_take? {wanted : Token → Option α} (hwanted : ∀ t a, wanted t = some a → P t) :
    Agree short S S (Parse.take? wanted c) (Parse.take? wanted d) := by
  refine h.agree_peek hc fun c hc => ?_
  cases hnext : d.rest.head? with
  | none => exact .ok hc
  | some t =>
    dsimp only
    cases ht : wanted t with
    | none => exact .ok hc
    | some a => exact (h.agree_advance hc hnext (hwanted t a ht)).bind fun _ _ _ hc => .ok hc

theorem agree_accept {wanted : Token → Bool} (hwanted : ∀ t, wanted t = true → P t) :
    Agree short S S (Parse.accept wanted c) (Parse.accept wanted d) := by
  refine h.agree_take? hc fun t a ha => ?_
  exact hwanted t (Option.ite_none_right_eq_some.1 ha).1

/-- The next token is wanted. -/
theorem agree_taken {wanted : Token → Bool} {f : Option Token → Reading σ α}
    {g : Option Token → Parse α} {t : Token} {rest : List Token} (hrest : d.rest = t :: rest)
    (hwanted : wanted t = true) (hP : P t)
    (hf : ∀ c, S c ⟨rest,d.faults⟩ → Agree short S T (f (some t) c) (g (some t) ⟨rest,d.faults⟩)) :
    Agree short S T ((Parse.accept wanted >>= f) c) ((Parse.accept wanted >>= g) d) := by
  obtain ⟨_,faults⟩ := d
  subst hrest
  unfold Parse.accept Parse.take?
  rw [bind_assoc,bind_assoc]
  refine h.agree_peek hc fun c hc => ?_
  simp only [List.head?_cons,hwanted,if_true]
  exact hf _ (h.pass hc hP)

/-- The next token is not wanted. -/
theorem agree_refused {wanted : Token → Bool} {f : Option Token → Reading σ α}
    {g : Option Token → Parse α} (hwanted : ∀ t ∈ d.rest.head?, wanted t = false)
    (hf : ∀ c, S c d → Agree short S T (f none c) (g none d)) :
    Agree short S T ((Parse.accept wanted >>= f) c) ((Parse.accept wanted >>= g) d) := by
  unfold Parse.accept Parse.take?
  rw [bind_assoc,bind_assoc]
  refine h.agree_peek hc fun c hc => ?_
  cases hnext : d.rest.head? with
  | none => exact hf c hc
  | some t =>
    have hother : wanted t = false := hwanted t hnext
    simp only [hother,Bool.false_eq_true,if_false]
    exact hf c hc

theorem agree_fail {error : ParseError} :
    Agree short S T ((Parse.fail error : Reading σ α) c) ((Parse.fail error : Parse α) d) :=
  .failed (h.report error hc)

theorem agree_expect {wanted : Token → Bool} (hwanted : ∀ t, wanted t = true → P t)
    {error : ParseError} :
    Agree short S S (Parse.expect wanted error c) (Parse.expect wanted error d) := by
  refine (h.agree_accept hc hwanted).bind fun found c d hc => ?_
  cases found with
  | none => exact h.agree_fail hc
  | some t => exact .ok hc

theorem agree_unlessAt {closing : Symbol} {absent : α} {p : Reading σ α} {q : Parse α}
    (hp : Agrees short S p q) :
    Agree short S S (Parse.unlessAt closing absent p c) (Parse.unlessAt closing absent q d) := by
  obtain ⟨hnext,hsame⟩ := h.look hc
  have hreader : Parse.unlessAt closing absent p c =
      (if (Reader.look c).1.any (·.isSymbol closing) then Pure.pure absent else p)
        (Reader.look c).2 := rfl
  have hcursor : Parse.unlessAt closing absent q d =
      (if d.rest.head?.any (·.isSymbol closing) then Pure.pure absent else q) d := rfl
  rw [hreader,hcursor,hnext]
  split
  · exact .ok hsame
  · exact hp _ _ hsame

theorem agree_checkCount {error : ParseError} {count : Nat} :
    Agree short S S (Parse.checkCount error count c) (Parse.checkCount error count d) := by
  unfold Parse.checkCount
  split
  · exact .ok (h.report error hc)
  · exact .ok hc

theorem agree_assignment {target value : Expr} {equal : Token} :
    Agree short S S (Parse.assignment target equal value c) (Parse.assignment target equal value d) := by
  cases target with
  | variable_ name | get object name => exact .ok hc
  | _ => exact .ok (h.reportAt .assignmentTarget equal hc)

end Reader.Shows

end Rules

/-! ## Where the reading is taken up again -/

namespace Parse

variable {t next : Token} {rest : List Token}

theorem synchronize_semicolon (ht : t.isSymbol .semicolon = true) : synchronize (t :: rest) = rest := by
  cases rest <;> simp [synchronize,ht]

theorem synchronize_opening (ht : ¬t.isSymbol .semicolon = true) (hnext : next.opensStatement = true) :
    synchronize (t :: next :: rest) = next :: rest := by
  simp [synchronize,ht,hnext]

theorem synchronize_other (ht : ¬t.isSymbol .semicolon = true)
    (hnext : ¬next.opensStatement = true) :
    synchronize (t :: next :: rest) = synchronize (next :: rest) := by
  rw [synchronize,if_neg ht]
  exact if_neg hnext

theorem synchronize_last : synchronize [t] = [] := by
  simp [synchronize]

end Parse

/-! ## Expressions -/

namespace Reader.Shows

section

variable {σ α : Type} [Reader σ] {short : Prop} {S : σ → Cursor → Prop} {P : Token → Prop}
variable {c : σ} {d : Cursor}

theorem agree_expectSymbol (h : Reader.Shows S P) (hc : S c d) {s : Symbol}
    (hs : ∀ t : Token, t.kind = .symbol s → P t) {error : ParseError} :
    Agree short S S (Parse.expectSymbol s error c) (Parse.expectSymbol s error d) :=
  h.agree_expect hc fun t ht => hs t (of_decide_eq_true ht)

theorem agree_acceptSymbol (h : Reader.Shows S P) (hc : S c d) {s : Symbol}
    (hs : ∀ t : Token, t.kind = .symbol s → P t) :
    Agree short S S (Parse.acceptSymbol s c) (Parse.acceptSymbol s d) :=
  (h.agree_accept hc fun t ht => hs t (of_decide_eq_true ht)).bind fun _ _ _ hc => .ok hc

theorem agree_after? (h : Reader.Shows S P) (hc : S c d) {wanted : Token → Bool}
    (hwanted : ∀ t, wanted t = true → P t) {p : Reading σ α} {q : Parse α}
    (hp : Agrees short S p q) :
    Agree short S S (Parse.after? wanted p c) (Parse.after? wanted q d) := by
  refine (h.agree_accept hc hwanted).bind fun found c d hc => ?_
  cases found with
  | none => exact .ok hc
  | some t => exact (hp c d hc).map some

end

section

variable {σ : Type} [Reader σ] {short : Prop} {S : σ → Cursor → Prop} {P : Token → Prop}
variable (h : Reader.Shows S P) (hP : ∀ t : Token, t.kind ≠ .symbol .semicolon → P t)
include h hP

theorem agree_expectOther {s : Symbol} (hs : s ≠ .semicolon) {error : ParseError} {c : σ} {d : Cursor}
    (hc : S c d) : Agree short S S (Parse.expectSymbol s error c) (Parse.expectSymbol s error d) :=
  h.agree_expectSymbol hc fun t ht => hP t (by simp [ht,hs])

theorem agree_expectName {error : ParseError} {c : σ} {d : Cursor} (hc : S c d) :
    Agree short S S (Parse.expectName error c) (Parse.expectName error d) :=
  h.agree_expect hc fun t ht => hP t (by simp [show t.kind = .identifier from of_decide_eq_true ht])

theorem agree_acceptOther {s : Symbol} (hs : s ≠ .semicolon) {c : σ} {d : Cursor} (hc : S c d) :
    Agree short S S (Parse.accept (·.isSymbol s) c) (Parse.accept (·.isSymbol s) d) :=
  h.agree_accept hc fun t ht =>
    hP t (by simp [show t.kind = .symbol s from of_decide_eq_true ht,hs])

/-- No operator is a semicolon. -/
theorem agree_join {join : Joiner} (hjoin : join ∈ levels) {c : σ} {d : Cursor} (hc : S c d) :
    Agree short S S (Parse.take? join c) (Parse.take? join d) := by
  refine h.agree_take? hc fun t node hnode => hP t fun hkind => ?_
  have hnone : ∀ join ∈ levels, join t = none := by
    simp [levels,Parse.multiplicative,Parse.additive,Parse.relational,Parse.equality,
      Parse.conjunction,Parse.disjunction,Token.isKeyword,hkind]
  rw [hnone join hjoin] at hnode
  cases hnode

theorem agree_chain {p : Reading σ Expr} {q : Parse Expr} (hp : Agrees short S p q)
    {join : Joiner} (hjoin : join ∈ levels) {n n' : Nat} (hn : n < n' → short) (left : Expr) {c : σ}
    {d : Cursor} (hc : S c d) :
    Agree short S S (Parse.chain p join n left c) (Parse.chain q join n' left d) := by
  induction n' generalizing n left c d with
  | zero => exact .dryCursor
  | succ n' ih =>
    cases n with
    | zero => exact .dry (hn n'.succ_pos)
    | succ n =>
      refine (h.agree_join hP hjoin hc).bind fun found c d hc => ?_
      cases found with
      | none => exact .ok hc
      | some node =>
        exact (hp c d hc).bind fun right c d hc =>
          ih (fun hlt => hn (Nat.succ_lt_succ hlt)) (node left right) hc

theorem agree_operators {p : Reading σ Expr} {q : Parse Expr} (hp : Agrees short S p q)
    {n n' : Nat} (hn : n < n' → short) {c : σ} {d : Cursor} (hc : S c d) :
    Agree short S S (Parse.operators n p c) (Parse.operators n' q d) := by
  have hlevels : ∀ joins : List Joiner, (∀ join ∈ joins, join ∈ levels) →
      ∀ {p : Reading σ Expr} {q : Parse Expr}, Agrees short S p q →
      Agrees short S (joins.foldl (Parse.leftAssociative n) p)
        (joins.foldl (Parse.leftAssociative n') q) := by
    intro joins
    induction joins with
    | nil => exact fun _ _ _ hp => hp
    | cons join joins ih =>
      intro hjoins p q hp
      refine ih (fun join' hjoin' => hjoins join' (List.mem_cons_of_mem join hjoin')) fun c d hc => ?_
      exact (hp c d hc).bind fun first c d hc =>
        h.agree_chain hP hp (hjoins join List.mem_cons_self) hn first hc
  exact hlevels levels (fun _ h => h) hp c d hc

theorem agree_atom {p : Reading σ Expr} {q : Parse Expr} (hp : Agrees short S p q) {t : Token}
    {c : σ} {d : Cursor} (hc : S c d) (ht : d.rest.head? = some t) :
    Agree short S S (Parse.atom p t c) (Parse.atom q t d) := by
  have hadvance : t.kind ≠ .symbol .semicolon → Agree short S S (Parse.advance c) (Parse.advance d) :=
    fun hkind => h.agree_advance hc ht (hP t hkind)
  have hleaf : ∀ {e : Expr}, t.kind ≠ .symbol .semicolon →
      Agree short S S ((do Parse.advance; return e : Reading σ Expr) c)
        ((do Parse.advance; return e : Parse Expr) d) :=
    fun hkind => (hadvance hkind).bind fun _ _ _ hc => .ok hc
  unfold Parse.atom
  cases hkind : t.kind with
  | symbol s =>
    cases s with
    | leftParen =>
      refine (hadvance (by simp [hkind])).bind fun _ c d hc => (hp c d hc).bind fun inner c d hc => ?_
      exact (h.agree_expectOther hP (by decide) hc).bind fun _ _ _ hc => .ok hc
    | _ => exact h.agree_fail hc
  | keyword k =>
    cases k with
    | true_ | false_ | nil | this_ => exact hleaf (by simp [hkind])
    | super =>
      refine (hadvance (by simp [hkind])).bind fun _ c d hc => ?_
      refine (h.agree_expectOther hP (by decide) hc).bind fun _ c d hc => ?_
      exact (h.agree_expectName hP hc).bind fun _ _ _ hc => .ok hc
    | _ => exact h.agree_fail hc
  | identifier => exact hleaf (by simp [hkind])
  | integer value | float value | string value => exact hleaf (by simp [hkind])

omit h hP in
/-- The parsing functions for expressions agree, with budgets `n` and `n'`. -/
structure Expressions (short : Prop) (S : σ → Cursor → Prop) (n n' : Nat) : Prop where
  expression : Agrees short S (Parse.expression n) (Parse.expression n')
  unary : Agrees short S (Parse.unary n) (Parse.unary n')
  suffixes : ∀ base, Agrees short S (Parse.suffixes n base) (Parse.suffixes n' base)
  arguments : ∀ count, Agrees short S (Parse.arguments n count) (Parse.arguments n' count)
  primary : Agrees short S (Parse.primary n) (Parse.primary n')

theorem expressions_succ {n n' : Nat} (hn : n < n' → short) (ih : Expressions short S n n') :
    Expressions short S (n + 1) (n' + 1) where
  expression c d hc := by
    refine (h.agree_operators hP ih.unary hn hc).bind fun left c d hc => ?_
    refine (h.agree_acceptOther hP (by decide) hc).bind fun found c d hc => ?_
    cases found with
    | none => exact .ok hc
    | some equal => exact (ih.expression c d hc).bind fun value c d hc => h.agree_assignment hc
  unary c d hc := by
    have hsign : ∀ t : Token, (t.isSymbol .bang || t.isSymbol .minus) = true → P t := by
      intro t ht
      refine hP t fun hkind => ?_
      simp [Token.isSymbol,hkind] at ht
    refine (h.agree_accept hc hsign).bind fun found c d hc => ?_
    cases found with
    | some t => exact (ih.unary c d hc).bind fun _ _ _ hc => .ok hc
    | none => exact (ih.primary c d hc).bind fun base c d hc => ih.suffixes base c d hc
  suffixes base c d hc := by
    have hsuffix : ∀ t : Token, (t.isSymbol .leftParen || t.isSymbol .dot) = true → P t := by
      intro t ht
      refine hP t fun hkind => ?_
      simp [Token.isSymbol,hkind] at ht
    refine (h.agree_accept hc hsuffix).bind fun found c d hc => ?_
    cases found with
    | none => exact .ok hc
    | some t =>
      dsimp only
      split
      · refine (h.agree_unlessAt hc (ih.arguments 0)).bind fun args c d hc => ?_
        refine (h.agree_expectOther hP (by decide) hc).bind fun paren c d hc => ?_
        exact ih.suffixes (.call base paren args) c d hc
      · exact (h.agree_expectName hP hc).bind fun name c d hc => ih.suffixes (.get base name) c d hc
  arguments count c d hc := by
    refine (h.agree_checkCount hc).bind fun _ c d hc => ?_
    refine (ih.expression c d hc).bind fun first c d hc => ?_
    refine (h.agree_acceptSymbol hc fun t ht => hP t (by simp [ht])).bind fun more c d hc => ?_
    cases more with
    | true => exact (ih.arguments (count + 1) c d hc).bind fun _ _ _ hc => .ok hc
    | false => exact .ok hc
  primary c d hc := by
    refine h.agree_peek hc fun c hc => ?_
    cases hnext : d.rest.head? with
    | none => exact h.agree_fail hc
    | some t => exact h.agree_atom hP ih.expression hc hnext

theorem expressions {n n' : Nat} (hn : n < n' → short) : Expressions short S n n' := by
  induction n' generalizing n with
  | zero => exact ⟨fun _ _ _ => .dryCursor,fun _ _ _ => .dryCursor,fun _ _ _ _ => .dryCursor,
      fun _ _ _ _ => .dryCursor,fun _ _ _ => .dryCursor⟩
  | succ n' ih =>
    cases n with
    | zero =>
      have hshort : short := hn n'.succ_pos
      exact ⟨fun _ _ _ => .dry hshort,fun _ _ _ => .dry hshort,fun _ _ _ _ => .dry hshort,
        fun _ _ _ _ => .dry hshort,fun _ _ _ => .dry hshort⟩
    | succ n =>
      have hn' : n < n' → short := fun hlt => hn (Nat.succ_lt_succ hlt)
      exact h.expressions_succ hP hn' (ih hn')

theorem agree_optionalExpression {n n' : Nat} (hn : n < n' → short) {closing : Symbol} {c : σ}
    {d : Cursor} (hc : S c d) :
    Agree short S S (Parse.optionalExpression n closing c) (Parse.optionalExpression n' closing d) :=
  h.agree_unlessAt hc fun c d hc => ((h.expressions hP hn).expression c d hc).map some

end

end Reader.Shows

/-! ## Statements -/

namespace Reader.Follows

variable {σ : Type} [Reader σ] {short : Prop} {S : σ → Cursor → Prop} {n n' : Nat} {c : σ}
variable {d : Cursor}

theorem agree_expression (h : Reader.Follows S) (hn : n < n' → short) (hc : S c d) :
    Agree short S S (Parse.expression n c) (Parse.expression n' d) :=
  (h.toShows.expressions (fun _ _ => trivial) hn).expression c d hc

theorem agree_symbol (h : Reader.Follows S) {s : Symbol} {error : ParseError} (hc : S c d) :
    Agree short S S (Parse.expectSymbol s error c) (Parse.expectSymbol s error d) :=
  h.agree_expectSymbol hc fun _ _ => trivial

theorem agree_name (h : Reader.Follows S) {error : ParseError} (hc : S c d) :
    Agree short S S (Parse.expectName error c) (Parse.expectName error d) :=
  h.agree_expectName (fun _ _ => trivial) hc

theorem agree_optional (h : Reader.Follows S) (hn : n < n' → short) {closing : Symbol} (hc : S c d) :
    Agree short S S (Parse.optionalExpression n closing c) (Parse.optionalExpression n' closing d) :=
  h.agree_optionalExpression (fun _ _ => trivial) hn hc

theorem agree_variableDeclaration (h : Reader.Follows S) (hn : n < n' → short) (hc : S c d) :
    Agree short S S (Parse.variableDeclaration n c) (Parse.variableDeclaration n' d) := by
  refine (h.agree_name hc).bind fun name c d hc => ?_
  refine (h.agree_after? hc (fun _ _ => trivial) fun c d hc => h.agree_expression hn hc).bind
    fun initial c d hc => ?_
  exact (h.agree_symbol hc).bind fun _ _ _ hc => .ok hc

theorem agree_expressionStatement (h : Reader.Follows S) (hn : n < n' → short) (hc : S c d) :
    Agree short S S (Parse.expressionStatement n c) (Parse.expressionStatement n' d) :=
  (h.agree_expression hn hc).bind fun _ _ _ hc => (h.agree_symbol hc).bind fun _ _ _ hc => .ok hc

theorem agree_forStart (h : Reader.Follows S) (hn : n < n' → short) (hc : S c d) :
    Agree short S S (Parse.forStart n c) (Parse.forStart n' d) := by
  refine (h.agree_acceptSymbol hc fun _ _ => trivial).bind fun bare c d hc => ?_
  cases bare with
  | true => exact .ok hc
  | false =>
    refine (h.agree_accept hc fun _ _ => trivial).bind fun keyword c d hc => ?_
    cases keyword with
    | some t => exact (h.agree_variableDeclaration hn hc).map some
    | none => exact (h.agree_expressionStatement hn hc).map some

theorem agree_forStatement (h : Reader.Follows S) (hn : n < n' → short) {p : Reading σ Stmt}
    {q : Parse Stmt} (hp : Agrees short S p q) (hc : S c d) :
    Agree short S S (Parse.forStatement n p c) (Parse.forStatement n' q d) := by
  refine (h.agree_symbol hc).bind fun _ c d hc => (h.agree_forStart hn hc).bind fun start c d hc => ?_
  refine (h.agree_optional hn hc).bind fun condition c d hc => ?_
  refine (h.agree_symbol hc).bind fun _ c d hc => (h.agree_optional hn hc).bind fun step c d hc => ?_
  refine (h.agree_symbol hc).bind fun _ c d hc => ?_
  exact (hp c d hc).bind fun _ _ _ hc => .ok hc

theorem agree_ifStatement (h : Reader.Follows S) (hn : n < n' → short) {p : Reading σ Stmt}
    {q : Parse Stmt} (hp : Agrees short S p q) (hc : S c d) :
    Agree short S S (Parse.ifStatement n p c) (Parse.ifStatement n' q d) := by
  refine (h.agree_symbol hc).bind fun _ c d hc => (h.agree_expression hn hc).bind fun test c d hc => ?_
  refine (h.agree_symbol hc).bind fun _ c d hc => (hp c d hc).bind fun thenBranch c d hc => ?_
  exact (h.agree_after? hc (fun _ _ => trivial) hp).bind fun _ _ _ hc => .ok hc

theorem agree_whileStatement (h : Reader.Follows S) (hn : n < n' → short) {p : Reading σ Stmt}
    {q : Parse Stmt} (hp : Agrees short S p q) (hc : S c d) :
    Agree short S S (Parse.whileStatement n p c) (Parse.whileStatement n' q d) := by
  refine (h.agree_symbol hc).bind fun _ c d hc => (h.agree_expression hn hc).bind fun test c d hc => ?_
  exact (h.agree_symbol hc).bind fun _ c d hc => (hp c d hc).bind fun _ _ _ hc => .ok hc

theorem agree_printStatement (h : Reader.Follows S) (hn : n < n' → short) (hc : S c d) :
    Agree short S S (Parse.printStatement n c) (Parse.printStatement n' d) :=
  (h.agree_expression hn hc).bind fun _ _ _ hc => (h.agree_symbol hc).bind fun _ _ _ hc => .ok hc

theorem agree_returnStatement (h : Reader.Follows S) (hn : n < n' → short) {keyword : Token}
    (hc : S c d) :
    Agree short S S (Parse.returnStatement n keyword c) (Parse.returnStatement n' keyword d) :=
  (h.agree_optional hn hc).bind fun _ _ _ hc => (h.agree_symbol hc).bind fun _ _ _ hc => .ok hc

theorem agree_parameters (h : Reader.Follows S) (hn : n < n' → short) (count : Nat) (hc : S c d) :
    Agree short S S (Parse.parameters n count c) (Parse.parameters n' count d) := by
  induction n' generalizing n count c d with
  | zero => exact .dryCursor
  | succ n' ih =>
    cases n with
    | zero => exact .dry (hn n'.succ_pos)
    | succ n =>
      refine (h.agree_checkCount hc).bind fun _ c d hc => (h.agree_name hc).bind fun first c d hc => ?_
      refine (h.agree_acceptSymbol hc fun _ _ => trivial).bind fun more c d hc => ?_
      cases more with
      | true =>
        have hn' : n < n' → short := fun hlt => hn (Nat.succ_lt_succ hlt)
        exact (ih hn' (count + 1) hc).bind fun _ _ _ hc => .ok hc
      | false => exact .ok hc

theorem agree_recovering (h : Reader.Follows S) {p : Reading σ Stmt} {q : Parse Stmt}
    (hp : Agree short S S (p c) (q d)) :
    Agree short S S (Parse.recovering p c) (Parse.recovering q d) :=
  hp.recovering fun _ _ hc => h.resume hc

/-- The parsing functions for statements agree, with budgets `n` and `n'`. -/
structure Statements (short : Prop) (S : σ → Cursor → Prop) (n n' : Nat) : Prop where
  declaration : Agrees short S (Parse.declaration n) (Parse.declaration n')
  classDeclaration : Agrees short S (Parse.classDeclaration n) (Parse.classDeclaration n')
  methods : Agrees short S (Parse.methods n) (Parse.methods n')
  function : ∀ role, Agrees short S (Parse.function n role) (Parse.function n' role)
  block : Agrees short S (Parse.block n) (Parse.block n')
  statement : Agrees short S (Parse.statement n) (Parse.statement n')

theorem statement_succ (h : Reader.Follows S) (hn : n < n' → short) (ih : Statements short S n n')
    (hc : S c d) :
    Agree short S S (Parse.statement (n + 1) c) (Parse.statement (n' + 1) d) := by
  refine h.agree_peek hc fun c hc => ?_
  cases hnext : d.rest.head? with
  | none => exact h.agree_expressionStatement hn hc
  | some t =>
    have hadvance : Agree short S S (Parse.advance c) (Parse.advance d) :=
      h.agree_advance hc hnext trivial
    dsimp only
    cases t.kind with
    | symbol s =>
      cases s with
      | leftBrace => exact hadvance.bind fun _ c d hc => (ih.block c d hc).bind fun _ _ _ hc => .ok hc
      | _ => exact h.agree_expressionStatement hn hc
    | keyword k =>
      cases k with
      | for_ => exact hadvance.bind fun _ _ _ hc => h.agree_forStatement hn ih.statement hc
      | if_ => exact hadvance.bind fun _ _ _ hc => h.agree_ifStatement hn ih.statement hc
      | print => exact hadvance.bind fun _ _ _ hc => h.agree_printStatement hn hc
      | return_ => exact hadvance.bind fun _ _ _ hc => h.agree_returnStatement hn hc
      | while_ => exact hadvance.bind fun _ _ _ hc => h.agree_whileStatement hn ih.statement hc
      | _ => exact h.agree_expressionStatement hn hc
    | _ => exact h.agree_expressionStatement hn hc

theorem statements_succ (h : Reader.Follows S) (hn : n < n' → short) (ih : Statements short S n n') :
    Statements short S (n + 1) (n' + 1) where
  declaration c d hc := by
    refine (h.agree_accept hc fun _ _ => trivial).bind fun found c d hc => ?_
    cases found with
    | none => exact ih.statement c d hc
    | some t =>
      dsimp only
      split
      · exact ih.classDeclaration c d hc
      · split
        · exact (ih.function .function c d hc).map _
        · exact h.agree_variableDeclaration hn hc
  classDeclaration c d hc := by
    refine (h.agree_name hc).bind fun name c d hc => ?_
    refine (h.agree_after? hc (fun _ _ => trivial) fun c d hc => h.agree_name hc).bind
      fun superclass c d hc => ?_
    refine (h.agree_symbol hc).bind fun _ c d hc => (ih.methods c d hc).bind fun body c d hc => ?_
    exact (h.agree_symbol hc).bind fun _ _ _ hc => .ok hc
  methods c d hc := by
    refine h.agree_peek hc fun c hc => ?_
    cases hnext : d.rest.head? with
    | none => exact .ok hc
    | some t =>
      dsimp only
      split
      · exact .ok hc
      · exact (ih.function .method c d hc).bind fun first c d hc =>
          (ih.methods c d hc).bind fun _ _ _ hc => .ok hc
  function role c d hc := by
    refine (h.agree_name hc).bind fun name c d hc => (h.agree_symbol hc).bind fun _ c d hc => ?_
    refine (h.agree_unlessAt hc fun c d hc => h.agree_parameters hn 0 hc).bind
      fun params c d hc => ?_
    refine (h.agree_symbol hc).bind fun _ c d hc => (h.agree_symbol hc).bind fun _ c d hc => ?_
    exact (ih.block c d hc).bind fun _ _ _ hc => .ok hc
  block c d hc := by
    refine h.agree_peek hc fun c hc => ?_
    cases hnext : d.rest.head? with
    | none => exact h.agree_fail hc
    | some t =>
      dsimp only
      split
      · exact (h.agree_advance hc hnext trivial).bind fun _ _ _ hc => .ok hc
      · exact (h.agree_recovering (ih.declaration c d hc)).bind fun first c d hc =>
          (ih.block c d hc).bind fun _ _ _ hc => .ok hc
  statement c d hc := h.statement_succ hn ih hc

theorem statements (h : Reader.Follows S) (hn : n < n' → short) : Statements short S n n' := by
  induction n' generalizing n with
  | zero => exact ⟨fun _ _ _ => .dryCursor,fun _ _ _ => .dryCursor,fun _ _ _ => .dryCursor,
      fun _ _ _ _ => .dryCursor,fun _ _ _ => .dryCursor,fun _ _ _ => .dryCursor⟩
  | succ n' ih =>
    cases n with
    | zero =>
      have hshort : short := hn n'.succ_pos
      exact ⟨fun _ _ _ => .dry hshort,fun _ _ _ => .dry hshort,fun _ _ _ => .dry hshort,
        fun _ _ _ _ => .dry hshort,fun _ _ _ => .dry hshort,fun _ _ _ => .dry hshort⟩
    | succ n =>
      have hn' : n < n' → short := fun hlt => hn (Nat.succ_lt_succ hlt)
      exact h.statements_succ hn' (ih hn')

theorem agree_program (h : Reader.Follows S) (hn : n < n' → short) (hc : S c d) :
    Agree short S S (Parse.program n c) (Parse.program n' d) := by
  induction n' generalizing n c d with
  | zero => exact .dryCursor
  | succ n' ih =>
    cases n with
    | zero => exact .dry (hn n'.succ_pos)
    | succ n =>
      have hn' : n < n' → short := fun hlt => hn (Nat.succ_lt_succ hlt)
      refine h.agree_peek hc fun c hc => ?_
      cases hnext : d.rest.head? with
      | none => exact .ok hc
      | some t =>
        exact (h.agree_recovering ((h.statements hn').declaration c d hc)).bind fun first c d hc =>
          (ih hn' hc).bind fun _ _ _ hc => .ok hc

end Reader.Follows

end Scriptlet
