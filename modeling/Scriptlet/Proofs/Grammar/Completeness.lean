import Scriptlet.Proofs.Grammar.Reading

/-! # Every program is accepted

The parser finds every derivation of the grammar: what a phrase derives is read to its end and
nothing is reported, whatever follows, as long as it can not extend the phrase. Together with the
reading of phrases this says that the parser accepts exactly the programs of the grammar and builds
the tree of their derivation.
-/
namespace Scriptlet.Grammar
open Parse

/-! ## First tokens -/

def startsPrimary : Kind → Bool
  | .symbol .leftParen => true
  | .keyword .true_ | .keyword .false_ | .keyword .nil | .keyword .super | .keyword .this_ => true
  | .identifier | .string _ | .integer _ | .float _ => true
  | _ => false

def startsExpression (k : Kind) : Bool :=
  startsPrimary k || k = .symbol .bang || k = .symbol .minus

def startsStatement : Kind → Bool
  | .keyword .for_ | .keyword .if_ | .keyword .print | .keyword .return_ | .keyword .while_ => true
  | .symbol .leftBrace => true
  | k => startsExpression k

/-- The tokens that a phrase can start with; a phrase that may be empty is not asked. -/
def starts : Phrase → Kind → Bool
  | .primary, k | .call, k => startsPrimary k
  | .operation _, k | .expression, k | .arguments, k | .expressionStatement, k => startsExpression k
  | .statement _, k => startsStatement k
  | .variableDeclaration, k => k = .keyword .var
  | .declaration, k =>
    startsStatement k || k = .keyword .class_ || k = .keyword .fun_ || k = .keyword .var
  | .function, k | .parameters, k => k = .identifier
  | _, _ => true

def mayBeEmpty : Phrase → Bool
  | .declarations | .functions | .parameterList | .argumentList | .optionalExpression => true
  | _ => false

theorem startsPrimary_of_scalar? {t : Token} {value : Scalar} (h : scalar? t = some value) :
    startsPrimary t.kind = true := by
  unfold scalar? at h
  split at h <;> simp_all [startsPrimary]

theorem startsExpression_of_leading? {t : Token} {op : UnaryOp} (h : leading? t = some op) :
    startsExpression t.kind = true := by
  unfold leading? at h
  split at h <;> simp_all [startsExpression]

theorem startsStatement_of_startsExpression {k : Kind} (h : startsExpression k = true) :
    startsStatement k = true := by
  unfold startsStatement
  split <;> first | rfl | exact h

/-- A phrase that is not empty starts with one of its first tokens. -/
theorem Derives.starts {phrase : Phrase} {ts : List Token} {tree : phrase.Tree}
    (h : Derives phrase ts tree) (hne : mayBeEmpty phrase = false) :
    ∃ t rest, ts = t :: rest ∧ starts phrase t.kind = true := by
  induction h with
  | noDeclarations | moreDeclarations | noFunctions | moreFunctions | noParameters
  | someParameters | noExpression | someExpression | noArguments | someArguments => cases hne
  | plainClass hk | derivedClass hk | namedFunction hk | function hk | lastParameter hk
  | moreParameters hk | bareVariable hk | initialVariable hk | forStatement hk | noStart hk
  | ifStatement hk | ifElseStatement hk | printStatement hk | returnStatement hk
  | whileStatement hk | blockStatement hk | assignVariable hk | name hk | self hk
  | superMethod hk | grouping hk =>
    exact ⟨_,_,rfl,by simp [Grammar.starts,startsStatement,startsExpression,startsPrimary,hk]⟩
  | leading hop => exact ⟨_,_,rfl,startsExpression_of_leading? hop⟩
  | literal ht => exact ⟨_,_,rfl,startsPrimary_of_scalar? ht⟩
  | variable_ _ ih | statement _ ih =>
    obtain ⟨t,rest,rfl,ht⟩ := ih rfl
    exact ⟨t,rest,rfl,by simp_all [Grammar.starts]⟩
  | plainStatement _ ih =>
    obtain ⟨t,rest,rfl,ht⟩ := ih rfl
    exact ⟨t,rest,rfl,startsStatement_of_startsExpression ht⟩
  | operation _ ih | operand _ _ ih | primary _ ih | lastArgument _ ih =>
    obtain ⟨t,rest,rfl,ht⟩ := ih rfl
    exact ⟨t,rest,rfl,ht⟩
  | variableStart _ ih | expressionStart _ ih =>
    obtain ⟨t,rest,rfl,-⟩ := ih rfl
    exact ⟨t,rest,rfl,rfl⟩
  | call _ ih =>
    obtain ⟨t,rest,rfl,ht⟩ := ih rfl
    exact ⟨t,rest,rfl,by simp_all [Grammar.starts,startsExpression]⟩
  | assignProperty _ _ _ _ _ ih =>
    obtain ⟨t,rest,rfl,ht⟩ := ih rfl
    exact ⟨t,_,rfl,by simp_all [Grammar.starts,startsExpression]⟩
  | expressionStatement _ _ ih | join _ _ _ _ ih | application _ _ _ _ ih | property _ _ _ ih
  | moreArguments _ _ _ ih =>
    obtain ⟨t,rest,rfl,ht⟩ := ih rfl
    exact ⟨t,_,rfl,ht⟩

/-! ## Steps of the parser -/

section Steps

variable {α β : Type} {r r' r'' : EStateM.Result Stop Cursor α} {faults : List ParseFault}
variable {t : Token} {rest : List Token}

/-- Two runs end alike, unless the budget of the first runs dry. -/
def Follows (r r' : EStateM.Result Stop Cursor α) : Prop :=
  r = r' ∨ ∃ d, r = .error .exhausted d

theorem Follows.refl : Follows r r := .inl rfl

theorem Follows.trans (h : Follows r r') (h' : Follows r' r'') : Follows r r'' := by
  rcases h with rfl | h
  · exact h'
  · exact .inr h

theorem Follows.bind {p : Parse α} {f : α → Parse β} {c d : Cursor} {a : α}
    (h : Follows (p c) (.ok a d)) : Follows ((p >>= f) c) (f a d) := by
  change Follows (EStateM.bind p f c) (f a d)
  unfold EStateM.bind
  rcases h with h | ⟨d',h⟩ <;> rw [h]
  · exact .refl
  · exact .inr ⟨d',rfl⟩

theorem Follows.map {p : Parse α} {f : α → β} {c d : Cursor} {a : α}
    (h : Follows (p c) (.ok a d)) : Follows ((f <$> p) c) (.ok (f a) d) :=
  Follows.bind (f := fun a => pure (f a)) h

theorem follows_exhausted {c : Cursor} : Follows ((throw .exhausted : Parse α) c) r :=
  .inr ⟨c,rfl⟩

theorem take?_cons {wanted : Token → Option α} :
    take? wanted (⟨t :: rest,faults⟩ : Cursor) = (match wanted t with
      | none => (pure none : Parse (Option α))
      | some a => do Parse.advance; return some a) ⟨t :: rest,faults⟩ := rfl

theorem take?_some {wanted : Token → Option α} {a : α} (h : wanted t = some a) :
    take? wanted (⟨t :: rest,faults⟩ : Cursor) = .ok (some a) ⟨rest,faults⟩ := by
  rw [take?_cons,h]
  rfl

theorem take?_none {wanted : Token → Option α} (h : ∀ t ∈ rest.head?, wanted t = none) :
    take? wanted (⟨rest,faults⟩ : Cursor) = .ok none ⟨rest,faults⟩ := by
  cases rest with
  | nil => rfl
  | cons t rest =>
    rw [take?_cons,h t rfl]
    rfl

theorem accept_some {wanted : Token → Bool} (h : wanted t = true) :
    accept wanted (⟨t :: rest,faults⟩ : Cursor) = .ok (some t) ⟨rest,faults⟩ :=
  take?_some (by simp [h])

theorem accept_none {wanted : Token → Bool} (h : ∀ t ∈ rest.head?, wanted t = false) :
    accept wanted (⟨rest,faults⟩ : Cursor) = .ok none ⟨rest,faults⟩ :=
  take?_none fun t ht => by simp [h t ht]

theorem follows_expect {wanted : Token → Bool} {error : ParseError} (h : wanted t = true) :
    Follows (expect wanted error ⟨t :: rest,faults⟩) (.ok t ⟨rest,faults⟩) :=
  (Follows.bind (.inl (accept_some h))).trans .refl

theorem follows_expectSymbol {s : Symbol} {error : ParseError} (h : t.kind = .symbol s) :
    Follows (expectSymbol s error ⟨t :: rest,faults⟩) (.ok t ⟨rest,faults⟩) :=
  follows_expect (by simp [Token.isSymbol,h])

theorem follows_expectName {error : ParseError} (h : t.kind = .identifier) :
    Follows (expectName error ⟨t :: rest,faults⟩) (.ok t ⟨rest,faults⟩) :=
  follows_expect (by simp [Token.isIdentifier,h])

theorem follows_acceptSymbol {s : Symbol} (h : t.kind = .symbol s) :
    Follows (acceptSymbol s ⟨t :: rest,faults⟩) (.ok true ⟨rest,faults⟩) :=
  Follows.bind (.inl (accept_some (by simp [Token.isSymbol,h])))

theorem follows_acceptSymbol_false {s : Symbol} (h : ∀ t ∈ rest.head?, t.kind ≠ .symbol s) :
    Follows (acceptSymbol s ⟨rest,faults⟩) (.ok false ⟨rest,faults⟩) :=
  Follows.bind (.inl (accept_none fun t ht => by simp [Token.isSymbol,h t ht]))

theorem checkCount_of_lt {error : ParseError} {count : Nat} (h : count < 8) (c : Cursor) :
    checkCount error count c = .ok () c := by
  have hcount : ¬ maxParameters ≤ count := Nat.not_le.mpr h
  simp only [checkCount,if_neg hcount]
  rfl

theorem follows_after?_some {wanted : Token → Bool} {p : Parse α} {a : α} {d : Cursor}
    (h : wanted t = true) (hp : Follows (p ⟨rest,faults⟩) (.ok a d)) :
    Follows (after? wanted p ⟨t :: rest,faults⟩) (.ok (some a) d) :=
  (Follows.bind (.inl (accept_some h))).trans hp.map

theorem follows_after?_none {wanted : Token → Bool} {p : Parse α}
    (h : ∀ t ∈ rest.head?, wanted t = false) :
    Follows (after? wanted p ⟨rest,faults⟩) (.ok none ⟨rest,faults⟩) :=
  (Follows.bind (.inl (accept_none h))).trans .refl

theorem follows_unlessAt_absent {s : Symbol} {absent : α} {p : Parse α} (h : t.kind = .symbol s) :
    Follows (unlessAt s absent p ⟨t :: rest,faults⟩) (.ok absent ⟨t :: rest,faults⟩) := by
  refine (Follows.bind (a := true) (.inl ?_)).trans .refl
  change EStateM.Result.ok (t.isSymbol s) _ = _
  simp [Token.isSymbol,h]

theorem follows_unlessAt {s : Symbol} {absent : α} {p : Parse α} (h : t.kind ≠ .symbol s)
    (hp : Follows (p ⟨t :: rest,faults⟩) r) : Follows (unlessAt s absent p ⟨t :: rest,faults⟩) r := by
  refine (Follows.bind (a := false) (.inl ?_)).trans hp
  change EStateM.Result.ok (t.isSymbol s) _ = _
  simp [Token.isSymbol,h]

end Steps

/-! ## Operators -/

/-- The tier that an operator between two operands belongs to. -/
def tierOf : Kind → Option Tier
  | .keyword .or => some .disjunction
  | .keyword .and => some .conjunction
  | .symbol .equalEqual | .symbol .bangEqual => some .equality
  | .symbol .less | .symbol .lessEqual | .symbol .greater | .symbol .greaterEqual => some .comparison
  | .symbol .plus | .symbol .minus => some .term
  | .symbol .slash | .symbol .star => some .factor
  | _ => none

theorem isSome_node? (tier : Tier) (t : Token) :
    (tier.node? t).isSome = true ↔ tierOf t.kind = some tier := by
  obtain ⟨kind,_,_,_⟩ := t
  cases kind with
  | symbol s => cases s <;> cases tier <;> simp [Tier.node?,tierOf]
  | keyword k => cases k <;> cases tier <;> simp [Tier.node?,tierOf]
  | _ => cases tier <;> simp [Tier.node?,tierOf]

def Tier.rank : Tier → Nat
  | .unary => 0
  | .factor => 1
  | .term => 2
  | .comparison => 3
  | .equality => 4
  | .conjunction => 5
  | .disjunction => 6

theorem rank_of_tighter {tier inner : Tier} (h : tier.tighter = some inner) :
    tier.rank = inner.rank + 1 := by
  cases tier <;> cases h <;> rfl

/-- Whether a token behind a phrase of a tier would be read as a part of it. -/
def Extends (tier : Tier) (t : Token) : Prop :=
  t.kind = .symbol .leftParen ∨ t.kind = .symbol .dot ∨
    ∃ other, tierOf t.kind = some other ∧ other.rank ≤ tier.rank

/-- What follows does not extend a phrase of the tier. -/
def Stops (tier : Tier) (rest : List Token) : Prop := ∀ t ∈ rest.head?, ¬ Extends tier t

theorem Stops.tighter {tier inner : Tier} {rest : List Token} (h : Stops tier rest)
    (ht : tier.tighter = some inner) : Stops inner rest := by
  intro t hmem hext
  refine h t hmem ?_
  rcases hext with hp | hd | ⟨other,ho,hrank⟩
  · exact .inl hp
  · exact .inr (.inl hd)
  · exact .inr (.inr ⟨other,ho,by have := rank_of_tighter ht; omega⟩)

/-- An operator ends the operand in front of it. -/
theorem stops_of_node? {tier inner : Tier} {t : Token} {rest : List Token}
    {node : Expr → Expr → Expr} (ht : tier.tighter = some inner) (hnode : tier.node? t = some node) :
    Stops inner (t :: rest) := by
  have htier : tierOf t.kind = some tier := (isSome_node? tier t).mp (by simp [hnode])
  rintro _ ⟨⟩ (hp | hd | ⟨other,ho,hrank⟩)
  · simp [hp,tierOf] at htier
  · simp [hd,tierOf] at htier
  · obtain rfl : tier = other := by simpa [htier] using ho
    have := rank_of_tighter ht
    omega

theorem node?_of_stops {tier : Tier} {rest : List Token} (h : Stops tier rest) :
    ∀ t ∈ rest.head?, tier.node? t = none := by
  intro t ht
  cases hnode : tier.node? t with
  | none => rfl
  | some node =>
    have htier : tierOf t.kind = some tier := (isSome_node? tier t).mp (by simp [hnode])
    exact absurd (.inr (.inr ⟨tier,htier,Nat.le_refl _⟩)) (h t ht)

/-- The tiers from the tightest operators up to a given one. -/
def Tier.upTo : Tier → List Tier
  | .unary => []
  | .factor => [.factor]
  | .term => [.factor,.term]
  | .comparison => [.factor,.term,.comparison]
  | .equality => [.factor,.term,.comparison,.equality]
  | .conjunction => [.factor,.term,.comparison,.equality,.conjunction]
  | .disjunction => [.factor,.term,.comparison,.equality,.conjunction,.disjunction]

/-- The parsing function of a tier. -/
def Tier.reader (n : Nat) (tier : Tier) : Parse Expr :=
  (tier.upTo.map fun tier t => tier.node? t).foldl (leftAssociative n) (Parse.unary n)

theorem reader_eq {tier inner : Tier} (n : Nat) (ht : tier.tighter = some inner) :
    tier.reader n = leftAssociative n (inner.reader n) (fun t => tier.node? t) := by
  cases tier <;> cases ht <;> rfl

theorem operators_eq_reader (n : Nat) :
    operators n (Parse.unary n) = Tier.disjunction.reader n := by
  simp only [operators,levels_eq,Tier.reader,Tier.upTo]

/-- The operators of a tier end where no further one follows. -/
theorem follows_chain {tier : Tier} {operand : Parse Expr} {rest : List Token}
    {faults : List ParseFault} (h : Stops tier rest) (n : Nat) (e : Expr) :
    Follows (chain operand (fun t => tier.node? t) n e ⟨rest,faults⟩) (.ok e ⟨rest,faults⟩) := by
  cases n with
  | zero => exact follows_exhausted
  | succ n => exact (Follows.bind (.inl (take?_none (node?_of_stops h)))).trans .refl

/-- What follows ends an expression. -/
def EndsExpression (rest : List Token) : Prop :=
  Stops .disjunction rest ∧ ∀ t ∈ rest.head?, t.kind ≠ .symbol .equal

theorem endsExpression_cons {t : Token} {s : Symbol} (rest : List Token) (h : t.kind = .symbol s)
    (hs : s = .semicolon ∨ s = .rightParen ∨ s = .comma) : EndsExpression (t :: rest) := by
  constructor
  · rintro _ ⟨⟩ (hp | hd | ⟨other,ho,-⟩)
    · rcases hs with rfl | rfl | rfl <;> simp [h] at hp
    · rcases hs with rfl | rfl | rfl <;> simp [h] at hd
    · rcases hs with rfl | rfl | rfl <;> simp [h,tierOf] at ho
  · rintro _ ⟨⟩
    rcases hs with rfl | rfl | rfl <;> simp [h]

/-! ## Reading derivations -/

/-- The tokens of a phrase are read to their end, whatever may follow them. The parser keeps joining
operators and suffixes to what it has, so those phrases only say how it goes on. -/
def Accepts : (phrase : Phrase) → List Token → phrase.Tree → Prop
  | .declarations, ts, body => ¬ AtElse ts ∧
      (∀ n closing rest faults, closing.kind = .symbol .rightBrace →
        Follows (block n ⟨ts ++ closing :: rest,faults⟩) (.ok body ⟨rest,faults⟩)) ∧
      ∀ n faults, Follows (Parse.program n ⟨ts,faults⟩) (.ok body ⟨[],faults⟩)
  | .declaration, ts, s => ∀ n rest faults, ¬ AtElse rest →
      Follows (declaration n ⟨ts ++ rest,faults⟩) (.ok s ⟨rest,faults⟩)
  | .function, ts, decl => ∀ n role rest faults,
      Follows (function n role ⟨ts ++ rest,faults⟩) (.ok decl ⟨rest,faults⟩)
  | .functions, ts, decls => ∀ n closing rest faults, closing.kind = .symbol .rightBrace →
      Follows (methods n ⟨ts ++ closing :: rest,faults⟩) (.ok decls ⟨closing :: rest,faults⟩)
  | .parameters, ts, params => ∀ n count closing rest faults, closing.kind = .symbol .rightParen →
      count + params.length ≤ 8 →
      Follows (parameters n count ⟨ts ++ closing :: rest,faults⟩) (.ok params ⟨closing :: rest,faults⟩)
  | .parameterList, ts, params => ∀ n closing rest faults, closing.kind = .symbol .rightParen →
      Follows (unlessAt .rightParen [] (parameters n 0) ⟨ts ++ closing :: rest,faults⟩)
        (.ok params ⟨closing :: rest,faults⟩)
  | .variableDeclaration, ts, s => ∃ keyword us, ts = keyword :: us ∧ keyword.kind = .keyword .var ∧
      ∀ n rest faults, Follows (variableDeclaration n ⟨us ++ rest,faults⟩) (.ok s ⟨rest,faults⟩)
  | .expressionStatement, ts, s => ∀ n rest faults,
      Follows (expressionStatement n ⟨ts ++ rest,faults⟩) (.ok s ⟨rest,faults⟩)
  | .loopStart, ts, start => ∀ n rest faults,
      Follows (forStart n ⟨ts ++ rest,faults⟩) (.ok start ⟨rest,faults⟩)
  | .statement dangling, ts, s => ∀ n rest faults, (dangling = true → ¬ AtElse rest) →
      Follows (Parse.statement n ⟨ts ++ rest,faults⟩) (.ok s ⟨rest,faults⟩)
  | .optionalExpression, ts, e => ∀ n s closing rest faults, closing.kind = .symbol s →
      s = .semicolon ∨ s = .rightParen →
      Follows (optionalExpression n s ⟨ts ++ closing :: rest,faults⟩) (.ok e ⟨closing :: rest,faults⟩)
  | .expression, ts, e => ∀ n rest faults, EndsExpression rest →
      Follows (expression n ⟨ts ++ rest,faults⟩) (.ok e ⟨rest,faults⟩)
  | .operation tier, ts, e => ∀ n rest faults,
      match tier.tighter with
      | none => Stops tier rest → Follows (Parse.unary n ⟨ts ++ rest,faults⟩) (.ok e ⟨rest,faults⟩)
      | some inner => Stops inner rest → ∃ m, Follows (tier.reader n ⟨ts ++ rest,faults⟩)
          (chain (inner.reader n) (fun t => tier.node? t) m e ⟨rest,faults⟩)
  | .call, ts, e => ∀ n rest faults,
      ∃ m, Follows (Parse.unary n ⟨ts ++ rest,faults⟩) (suffixes m e ⟨rest,faults⟩)
  | .arguments, ts, args => ∀ n count closing rest faults, closing.kind = .symbol .rightParen →
      count + args.length ≤ 8 →
      Follows (arguments n count ⟨ts ++ closing :: rest,faults⟩) (.ok args ⟨closing :: rest,faults⟩)
  | .argumentList, ts, args => ∀ n closing rest faults, closing.kind = .symbol .rightParen →
      Follows (unlessAt .rightParen [] (arguments n 0) ⟨ts ++ closing :: rest,faults⟩)
        (.ok args ⟨closing :: rest,faults⟩)
  | .primary, ts, e => ∀ n rest faults,
      Follows (Parse.primary n ⟨ts ++ rest,faults⟩) (.ok e ⟨rest,faults⟩)

/-- An operation is read to its end when nothing extends it. -/
theorem follows_reader {tier : Tier} {ts : List Token} {e : Expr} (h : Accepts (.operation tier) ts e)
    (n : Nat) {rest : List Token} (hrest : Stops tier rest) (faults : List ParseFault) :
    Follows (tier.reader n ⟨ts ++ rest,faults⟩) (.ok e ⟨rest,faults⟩) := by
  have h := h n rest faults
  cases ht : tier.tighter with
  | none =>
    obtain rfl : tier = .unary := by cases tier <;> first | rfl | cases ht
    exact h hrest
  | some inner =>
    rw [ht] at h
    obtain ⟨m,h⟩ := h (hrest.tighter ht)
    exact h.trans (follows_chain hrest m e)

theorem accepts_operand {tier inner : Tier} {ts : List Token} {e : Expr}
    (ht : tier.tighter = some inner) (h : Accepts (.operation inner) ts e) :
    Accepts (.operation tier) ts e := by
  intro n rest faults
  rw [ht]
  intro hrest
  refine ⟨n,?_⟩
  rw [reader_eq n ht]
  exact Follows.bind (follows_reader h n hrest faults)

theorem accepts_join {tier inner : Tier} {t : Token} {left right : List Token} {l r : Expr}
    {node : Expr → Expr → Expr} (ht : tier.tighter = some inner)
    (hleft : Accepts (.operation tier) left l) (hnode : tier.node? t = some node)
    (hright : Accepts (.operation inner) right r) :
    Accepts (.operation tier) (left ++ t :: right) (node l r) := by
  intro n rest faults
  have hl := hleft n (t :: right ++ rest) faults
  rw [ht] at hl ⊢
  intro hrest
  obtain ⟨m,hl⟩ := hl (stops_of_node? ht hnode)
  rw [List.append_assoc]
  cases m with
  | zero => exact ⟨0,hl.trans follows_exhausted⟩
  | succ m =>
    refine ⟨m,hl.trans ?_⟩
    refine (Follows.bind (.inl (take?_some hnode))).trans ?_
    exact Follows.bind (follows_reader hright n hrest faults)

theorem accepts_leading {t : Token} {ts : List Token} {op : UnaryOp} {e : Expr}
    (hop : leading? t = some op) (h : Accepts (.operation .unary) ts e) :
    Accepts (.operation .unary) (t :: ts) (Expr.unary op t e) := by
  intro n rest faults hrest
  cases n with
  | zero => exact follows_exhausted
  | succ n =>
    rw [Parse.unary]
    have hsign : (t.isSymbol .bang || t.isSymbol .minus) = true ∧
        op = if t.isSymbol .bang then .not else .negate := by
      unfold leading? at hop
      split at hop <;> simp_all [Token.isSymbol]
    refine (Follows.bind (.inl (accept_some hsign.1))).trans ?_
    refine (Follows.bind (h n rest faults hrest)).trans ?_
    rw [hsign.2]
    exact .refl

/-- Suffixes end where neither a call nor a property follows. -/
theorem follows_suffixes {tier : Tier} {rest : List Token} (h : Stops tier rest) (n : Nat) (e : Expr)
    (faults : List ParseFault) : Follows (suffixes n e ⟨rest,faults⟩) (.ok e ⟨rest,faults⟩) := by
  cases n with
  | zero => exact follows_exhausted
  | succ n =>
    rw [suffixes]
    refine (Follows.bind (.inl (accept_none ?_))).trans .refl
    intro t ht
    have hext := h t ht
    simp only [Extends,not_or] at hext
    simp [Token.isSymbol,hext.1,hext.2.1]

theorem accepts_call {ts : List Token} {e : Expr} (h : Accepts .call ts e) :
    Accepts (.operation .unary) ts e := by
  intro n rest faults hrest
  obtain ⟨m,h⟩ := h n rest faults
  exact h.trans (follows_suffixes hrest m e faults)

theorem accepts_primary {ts : List Token} {e : Expr} (hd : Derives .primary ts e)
    (h : Accepts .primary ts e) : Accepts .call ts e := by
  intro n rest faults
  cases n with
  | zero => exact ⟨0,follows_exhausted⟩
  | succ n =>
    refine ⟨n,?_⟩
    obtain ⟨t,us,rfl,ht⟩ := hd.starts rfl
    rw [Parse.unary]
    refine (Follows.bind (.inl (accept_none ?_))).trans (Follows.bind (h n rest faults))
    rintro _ ⟨⟩
    cases hk : t.kind with
    | symbol s => cases s <;> simp_all [Token.isSymbol,starts,startsPrimary]
    | _ => simp [Token.isSymbol,hk]

theorem accepts_application {opening closing : Token} {ts us : List Token} {callee : Expr}
    {args : List Expr} (hcallee : Accepts .call ts callee) (hopening : opening.kind = .symbol .leftParen)
    (hargs : Accepts .argumentList us args) (hclosing : closing.kind = .symbol .rightParen) :
    Accepts .call (ts ++ opening :: us ++ [closing]) (Expr.call callee closing args) := by
  intro n rest faults
  obtain ⟨m,hc⟩ := hcallee n (opening :: us ++ closing :: rest) faults
  cases m with
  | zero => exact ⟨0,by simpa using hc.trans follows_exhausted⟩
  | succ m =>
    refine ⟨m,?_⟩
    have hshape : ts ++ opening :: us ++ [closing] ++ rest =
        ts ++ (opening :: us ++ closing :: rest) := by simp
    rw [hshape]
    refine hc.trans ?_
    rw [suffixes]
    have hparen : opening.isSymbol .leftParen = true := by simp [Token.isSymbol,hopening]
    refine (Follows.bind (.inl (accept_some (by simp [hparen])))).trans ?_
    simp only [hparen,if_true]
    refine (Follows.bind (hargs m closing rest faults hclosing)).trans ?_
    exact Follows.bind (follows_expectSymbol hclosing)

theorem accepts_property {dot name : Token} {ts : List Token} {object : Expr}
    (hobject : Accepts .call ts object) (hdot : dot.kind = .symbol .dot)
    (hname : name.kind = .identifier) : Accepts .call (ts ++ [dot,name]) (Expr.get object name) := by
  intro n rest faults
  obtain ⟨m,ho⟩ := hobject n (dot :: name :: rest) faults
  rw [List.append_assoc]
  cases m with
  | zero => exact ⟨0,ho.trans follows_exhausted⟩
  | succ m =>
    refine ⟨m,ho.trans ?_⟩
    rw [suffixes]
    have hnot : dot.isSymbol .leftParen = false := by simp [Token.isSymbol,hdot]
    refine (Follows.bind (.inl (accept_some (by simp [Token.isSymbol,hdot])))).trans ?_
    simp only [hnot]
    exact Follows.bind (follows_expectName hname)

theorem accepts_operation {ts : List Token} {e : Expr}
    (h : Accepts (.operation .disjunction) ts e) : Accepts .expression ts e := by
  intro n rest faults hrest
  cases n with
  | zero => exact follows_exhausted
  | succ n =>
    rw [expression,operators_eq_reader]
    refine (Follows.bind (follows_reader h n hrest.1 faults)).trans ?_
    refine (Follows.bind (.inl (accept_none ?_))).trans .refl
    intro t ht
    simp [Token.isSymbol,hrest.2 t ht]

/-- What can be assigned to is a phrase of every tier. -/
theorem accepts_target {ts : List Token} {e : Expr} (h : Accepts .call ts e) :
    Accepts (.operation .disjunction) ts e :=
  accepts_operand rfl (accepts_operand rfl (accepts_operand rfl (accepts_operand rfl
    (accepts_operand rfl (accepts_operand rfl (accepts_call h))))))

theorem accepts_assign {equal : Token} {ts us : List Token} {target value e : Expr}
    (htarget : Accepts .call ts target) (hequal : equal.kind = .symbol .equal)
    (hvalue : Accepts .expression us value)
    (he : ∀ c : Cursor, assignment target equal value c = .ok e c) :
    Accepts .expression (ts ++ equal :: us) e := by
  intro n rest faults hrest
  cases n with
  | zero => exact follows_exhausted
  | succ n =>
    rw [expression,operators_eq_reader,List.append_assoc]
    have hstops : Stops .disjunction (equal :: us ++ rest) := by
      rintro _ ⟨⟩ (hp | hd | ⟨other,ho,-⟩)
      · simp [hequal] at hp
      · simp [hequal] at hd
      · simp [hequal,tierOf] at ho
    refine (Follows.bind (follows_reader (accepts_target htarget) n hstops faults)).trans ?_
    refine (Follows.bind (.inl (accept_some (by simp [Token.isSymbol,hequal])))).trans ?_
    refine (Follows.bind (hvalue n rest faults hrest)).trans ?_
    exact .inl (he _)

theorem accepts_atom {t : Token} {ts : List Token} {e : Expr}
    (h : ∀ n rest faults, Follows (Parse.atom (Parse.expression n) t ⟨t :: (ts ++ rest),faults⟩)
      (.ok e ⟨rest,faults⟩)) : Accepts .primary (t :: ts) e := by
  intro n rest faults
  cases n with
  | zero => exact follows_exhausted
  | succ n =>
    rw [Parse.primary]
    exact (Follows.bind .refl).trans (h n rest faults)

theorem accepts_name {name : Token} (h : name.kind = .identifier) :
    Accepts .primary [name] (Expr.variable_ name) := by
  refine accepts_atom fun n rest faults => ?_
  simp only [Parse.atom,h]
  exact .refl

theorem accepts_literal {t : Token} {value : Scalar} (h : scalar? t = some value) :
    Accepts .primary [t] (Expr.literal value) := by
  refine accepts_atom fun n rest faults => ?_
  unfold scalar? at h
  split at h <;> cases h <;> rename_i hk <;> simp only [Parse.atom,hk] <;> exact .refl

theorem accepts_self {keyword : Token} (h : keyword.kind = .keyword .this_) :
    Accepts .primary [keyword] (Expr.self keyword) := by
  refine accepts_atom fun n rest faults => ?_
  simp only [Parse.atom,h]
  exact .refl

theorem accepts_superMethod {keyword dot name : Token} (h : keyword.kind = .keyword .super)
    (hdot : dot.kind = .symbol .dot) (hname : name.kind = .identifier) :
    Accepts .primary [keyword,dot,name] (Expr.superMethod keyword name) := by
  refine accepts_atom fun n rest faults => ?_
  simp only [Parse.atom,h]
  refine (Follows.bind .refl).trans ?_
  refine (Follows.bind (follows_expectSymbol hdot)).trans ?_
  exact (Follows.bind (follows_expectName hname)).trans .refl

theorem accepts_grouping {opening closing : Token} {ts : List Token} {inner : Expr}
    (hopening : opening.kind = .symbol .leftParen) (h : Accepts .expression ts inner)
    (hclosing : closing.kind = .symbol .rightParen) :
    Accepts .primary (opening :: ts ++ [closing]) (Expr.grouping inner) := by
  rw [List.cons_append]
  refine accepts_atom fun n rest faults => ?_
  simp only [Parse.atom,List.append_assoc,List.cons_append,List.nil_append,hopening]
  refine (Follows.bind .refl).trans ?_
  have hends := endsExpression_cons rest hclosing (by simp)
  refine (Follows.bind (h n (closing :: rest) faults hends)).trans ?_
  exact (Follows.bind (follows_expectSymbol hclosing)).trans .refl

theorem accepts_lastArgument {ts : List Token} {e : Expr} (h : Accepts .expression ts e) :
    Accepts .arguments ts [e] := by
  intro n count closing rest faults hclosing hcount
  cases n with
  | zero => exact follows_exhausted
  | succ n =>
    rw [arguments]
    refine (Follows.bind (.inl (checkCount_of_lt (by simp at hcount; omega) _))).trans ?_
    have hends := endsExpression_cons rest hclosing (by simp)
    refine (Follows.bind (h n (closing :: rest) faults hends)).trans ?_
    refine (Follows.bind (follows_acceptSymbol_false ?_)).trans .refl
    rintro _ ⟨⟩
    simp [hclosing]

theorem accepts_moreArguments {comma : Token} {ts us : List Token} {e : Expr} {args : List Expr}
    (h : Accepts .expression ts e) (hcomma : comma.kind = .symbol .comma)
    (hargs : Accepts .arguments us args) : Accepts .arguments (ts ++ comma :: us) (e :: args) := by
  intro n count closing rest faults hclosing hcount
  simp only [List.length_cons] at hcount
  cases n with
  | zero => exact follows_exhausted
  | succ n =>
    rw [arguments,List.append_assoc]
    refine (Follows.bind (.inl (checkCount_of_lt (by omega) _))).trans ?_
    have hends := endsExpression_cons (us ++ closing :: rest) hcomma (by simp)
    refine (Follows.bind (h n _ faults hends)).trans ?_
    refine (Follows.bind (follows_acceptSymbol hcomma)).trans ?_
    exact (Follows.bind (hargs n (count + 1) closing rest faults hclosing (by omega))).trans .refl

theorem accepts_lastParameter {name : Token} (h : name.kind = .identifier) :
    Accepts .parameters [name] [name] := by
  intro n count closing rest faults hclosing hcount
  cases n with
  | zero => exact follows_exhausted
  | succ n =>
    rw [parameters]
    refine (Follows.bind (.inl (checkCount_of_lt (by simp at hcount; omega) _))).trans ?_
    refine (Follows.bind (follows_expectName h)).trans ?_
    refine (Follows.bind (follows_acceptSymbol_false ?_)).trans .refl
    rintro _ ⟨⟩
    simp [hclosing]

theorem accepts_moreParameters {name comma : Token} {ts params : List Token}
    (h : name.kind = .identifier) (hcomma : comma.kind = .symbol .comma)
    (hparams : Accepts .parameters ts params) :
    Accepts .parameters (name :: comma :: ts) (name :: params) := by
  intro n count closing rest faults hclosing hcount
  simp only [List.length_cons] at hcount
  cases n with
  | zero => exact follows_exhausted
  | succ n =>
    rw [parameters]
    refine (Follows.bind (.inl (checkCount_of_lt (by omega) _))).trans ?_
    refine (Follows.bind (follows_expectName h)).trans ?_
    refine (Follows.bind (follows_acceptSymbol hcomma)).trans ?_
    exact (Follows.bind (hparams n (count + 1) closing rest faults hclosing (by omega))).trans .refl

/-! ## Statements -/

theorem accepts_expressionStatement {semicolon : Token} {ts : List Token} {value : Expr}
    (h : Accepts .expression ts value) (hsemicolon : semicolon.kind = .symbol .semicolon) :
    Accepts .expressionStatement (ts ++ [semicolon]) (Stmt.expression value) := by
  intro n rest faults
  rw [List.append_assoc]
  have hends := endsExpression_cons rest hsemicolon (by simp)
  refine (Follows.bind (h n (semicolon :: rest) faults hends)).trans ?_
  exact (Follows.bind (follows_expectSymbol hsemicolon)).trans .refl

theorem accepts_bareVariable {keyword name semicolon : Token} (hkeyword : keyword.kind = .keyword .var)
    (hname : name.kind = .identifier) (hsemicolon : semicolon.kind = .symbol .semicolon) :
    Accepts .variableDeclaration [keyword,name,semicolon] (Stmt.varDecl name none) := by
  refine ⟨keyword,[name,semicolon],rfl,hkeyword,?_⟩
  intro n rest faults
  refine (Follows.bind (follows_expectName hname)).trans ?_
  refine (Follows.bind (follows_after?_none ?_)).trans ?_
  · rintro _ ⟨⟩
    simp [Token.isSymbol,hsemicolon]
  · exact (Follows.bind (follows_expectSymbol hsemicolon)).trans .refl

theorem accepts_initialVariable {keyword name equal semicolon : Token} {ts : List Token}
    {value : Expr} (hkeyword : keyword.kind = .keyword .var) (hname : name.kind = .identifier)
    (hequal : equal.kind = .symbol .equal) (h : Accepts .expression ts value)
    (hsemicolon : semicolon.kind = .symbol .semicolon) :
    Accepts .variableDeclaration (keyword :: name :: equal :: ts ++ [semicolon])
      (Stmt.varDecl name (some value)) := by
  refine ⟨keyword,name :: equal :: ts ++ [semicolon],rfl,hkeyword,?_⟩
  intro n rest faults
  rw [List.append_assoc]
  refine (Follows.bind (follows_expectName hname)).trans ?_
  have hends := endsExpression_cons rest hsemicolon (by simp)
  have hvalue := h n (semicolon :: rest) faults hends
  refine (Follows.bind (follows_after?_some (by simp [Token.isSymbol,hequal]) hvalue)).trans ?_
  exact (Follows.bind (follows_expectSymbol hsemicolon)).trans .refl

theorem accepts_someExpression {ts : List Token} {value : Expr} (hd : Derives .expression ts value)
    (h : Accepts .expression ts value) : Accepts .optionalExpression ts (some value) := by
  intro n s closing rest faults hclosing hs
  have hvalue := h n (closing :: rest) faults (endsExpression_cons rest hclosing (hs.imp_right .inl))
  obtain ⟨t,us,rfl,ht⟩ := hd.starts rfl
  refine follows_unlessAt ?_ hvalue.map
  intro hk
  rw [hk] at ht
  rcases hs with rfl | rfl <;> simp [starts,startsExpression,startsPrimary] at ht

theorem accepts_expressionStart {ts : List Token} {s : Stmt} (hd : Derives .expressionStatement ts s)
    (h : Accepts .expressionStatement ts s) : Accepts .loopStart ts (some s) := by
  intro n rest faults
  have hs := h n rest faults
  obtain ⟨t,us,rfl,ht⟩ := hd.starts rfl
  refine (Follows.bind (follows_acceptSymbol_false ?_)).trans ?_
  · rintro _ ⟨⟩ hk
    simp [hk,starts,startsExpression,startsPrimary] at ht
  refine (Follows.bind (.inl (accept_none ?_))).trans hs.map
  rintro _ ⟨⟩
  cases hk : t.kind with
  | keyword k => cases k <;> simp_all [Token.isKeyword,starts,startsExpression,startsPrimary]
  | _ => simp [Token.isKeyword,hk]

theorem accepts_variableStart {ts : List Token} {s : Stmt}
    (h : Accepts .variableDeclaration ts s) : Accepts .loopStart ts (some s) := by
  intro n rest faults
  obtain ⟨keyword,us,rfl,hkeyword,h⟩ := h
  refine (Follows.bind (follows_acceptSymbol_false ?_)).trans ?_
  · rintro _ ⟨⟩
    simp [hkeyword]
  refine (Follows.bind (.inl (accept_some (by simp [Token.isKeyword,hkeyword])))).trans ?_
  exact (h n rest faults).map

/-- A statement that opens with a word of its own is read by the function for that word. -/
theorem follows_statement {n : Nat} {t : Token} {rest : List Token} {faults : List ParseFault}
    {r : EStateM.Result Stop Cursor Stmt}
    (h : Follows (match t.kind with
      | .keyword .for_ => forStatement n (Parse.statement n) ⟨rest,faults⟩
      | .keyword .if_ => ifStatement n (Parse.statement n) ⟨rest,faults⟩
      | .keyword .print => printStatement n ⟨rest,faults⟩
      | .keyword .return_ => returnStatement n t ⟨rest,faults⟩
      | .keyword .while_ => whileStatement n (Parse.statement n) ⟨rest,faults⟩
      | .symbol .leftBrace => (do return .block (← block n) : Parse Stmt) ⟨rest,faults⟩
      | _ => expressionStatement n ⟨t :: rest,faults⟩) r) :
    Follows (Parse.statement (n + 1) ⟨t :: rest,faults⟩) r := by
  rw [Parse.statement]
  refine (Follows.bind .refl).trans ?_
  cases hk : t.kind with
  | symbol s => rw [hk] at h; cases s <;> exact h
  | keyword k => rw [hk] at h; cases k <;> exact h
  | _ => rw [hk] at h; exact h

theorem accepts_plainStatement {ts : List Token} {s : Stmt} (hd : Derives .expressionStatement ts s)
    (h : Accepts .expressionStatement ts s) : Accepts (.statement false) ts s := by
  intro n rest faults _
  cases n with
  | zero => exact follows_exhausted
  | succ n =>
    have hs := h n rest faults
    obtain ⟨t,us,rfl,ht⟩ := hd.starts rfl
    refine follows_statement ?_
    cases hk : t.kind with
    | symbol s => cases s <;> simp_all [starts,startsExpression,startsPrimary]
    | keyword k => cases k <;> simp_all [starts,startsExpression,startsPrimary]
    | _ => exact hs

theorem accepts_printStatement {keyword semicolon : Token} {ts : List Token} {value : Expr}
    (hkeyword : keyword.kind = .keyword .print) (h : Accepts .expression ts value)
    (hsemicolon : semicolon.kind = .symbol .semicolon) :
    Accepts (.statement false) (keyword :: ts ++ [semicolon]) (Stmt.print value) := by
  intro n rest faults _
  cases n with
  | zero => exact follows_exhausted
  | succ n =>
    rw [List.append_assoc]
    refine follows_statement ?_
    simp only [hkeyword]
    have hends := endsExpression_cons rest hsemicolon (by simp)
    refine (Follows.bind (h n (semicolon :: rest) faults hends)).trans ?_
    exact (Follows.bind (follows_expectSymbol hsemicolon)).trans .refl

theorem accepts_returnStatement {keyword semicolon : Token} {ts : List Token} {value : Option Expr}
    (hkeyword : keyword.kind = .keyword .return_) (h : Accepts .optionalExpression ts value)
    (hsemicolon : semicolon.kind = .symbol .semicolon) :
    Accepts (.statement false) (keyword :: ts ++ [semicolon]) (Stmt.return_ keyword value) := by
  intro n rest faults _
  cases n with
  | zero => exact follows_exhausted
  | succ n =>
    rw [List.append_assoc]
    refine follows_statement ?_
    simp only [hkeyword]
    refine (Follows.bind (h n .semicolon semicolon rest faults hsemicolon (.inl rfl))).trans ?_
    exact (Follows.bind (follows_expectSymbol hsemicolon)).trans .refl

theorem accepts_whileStatement {keyword opening closing : Token} {ts us : List Token}
    {condition : Expr} {dangling : Bool} {body : Stmt} (hkeyword : keyword.kind = .keyword .while_)
    (hopening : opening.kind = .symbol .leftParen) (hcondition : Accepts .expression ts condition)
    (hclosing : closing.kind = .symbol .rightParen) (hbody : Accepts (.statement dangling) us body) :
    Accepts (.statement dangling) (keyword :: opening :: ts ++ closing :: us)
      (Stmt.while_ condition body) := by
  intro n rest faults hrest
  cases n with
  | zero => exact follows_exhausted
  | succ n =>
    rw [List.append_assoc]
    refine follows_statement ?_
    simp only [hkeyword]
    refine (Follows.bind (follows_expectSymbol hopening)).trans ?_
    have hends := endsExpression_cons (us ++ rest) hclosing (by simp)
    refine (Follows.bind (hcondition n _ faults hends)).trans ?_
    refine (Follows.bind (follows_expectSymbol hclosing)).trans ?_
    exact (Follows.bind (hbody n rest faults hrest)).trans .refl

theorem accepts_forStatement {keyword opening closing semicolon : Token} {ts us vs ws : List Token}
    {start : Option Stmt} {condition step : Option Expr} {dangling : Bool} {body : Stmt}
    (hkeyword : keyword.kind = .keyword .for_) (hopening : opening.kind = .symbol .leftParen)
    (hstart : Accepts .loopStart ts start) (hcondition : Accepts .optionalExpression us condition)
    (hsemicolon : semicolon.kind = .symbol .semicolon) (hstep : Accepts .optionalExpression vs step)
    (hclosing : closing.kind = .symbol .rightParen) (hbody : Accepts (.statement dangling) ws body) :
    Accepts (.statement dangling) (keyword :: opening :: ts ++ us ++ semicolon :: vs ++ closing :: ws)
      (Stmt.counting start condition step body) := by
  intro n rest faults hrest
  cases n with
  | zero => exact follows_exhausted
  | succ n =>
    have hshape : keyword :: opening :: ts ++ us ++ semicolon :: vs ++ closing :: ws ++ rest =
        keyword :: opening :: (ts ++ (us ++ semicolon :: (vs ++ closing :: (ws ++ rest)))) := by simp
    rw [hshape]
    refine follows_statement ?_
    simp only [hkeyword]
    refine (Follows.bind (follows_expectSymbol hopening)).trans ?_
    refine (Follows.bind (hstart n _ faults)).trans ?_
    refine (Follows.bind (hcondition n .semicolon semicolon _ faults hsemicolon (.inl rfl))).trans ?_
    refine (Follows.bind (follows_expectSymbol hsemicolon)).trans ?_
    refine (Follows.bind (hstep n .rightParen closing _ faults hclosing (.inr rfl))).trans ?_
    refine (Follows.bind (follows_expectSymbol hclosing)).trans ?_
    exact (Follows.bind (hbody n rest faults hrest)).trans .refl

theorem accepts_ifStatement {keyword opening closing : Token} {ts us : List Token}
    {condition : Expr} {dangling : Bool} {thenBranch : Stmt} (hkeyword : keyword.kind = .keyword .if_)
    (hopening : opening.kind = .symbol .leftParen) (hcondition : Accepts .expression ts condition)
    (hclosing : closing.kind = .symbol .rightParen)
    (hthen : Accepts (.statement dangling) us thenBranch) :
    Accepts (.statement true) (keyword :: opening :: ts ++ closing :: us)
      (Stmt.ifElse condition thenBranch none) := by
  intro n rest faults hrest
  cases n with
  | zero => exact follows_exhausted
  | succ n =>
    rw [List.append_assoc]
    refine follows_statement ?_
    simp only [hkeyword]
    refine (Follows.bind (follows_expectSymbol hopening)).trans ?_
    have hends := endsExpression_cons (us ++ rest) hclosing (by simp)
    refine (Follows.bind (hcondition n _ faults hends)).trans ?_
    refine (Follows.bind (follows_expectSymbol hclosing)).trans ?_
    refine (Follows.bind (hthen n rest faults (fun _ => hrest rfl))).trans ?_
    refine (Follows.bind (follows_after?_none ?_)).trans .refl
    intro t ht
    have hk : t.kind ≠ .keyword .else_ := fun hk => hrest rfl ⟨t,ht,hk⟩
    simp [Token.isKeyword,hk]

theorem accepts_ifElseStatement {keyword opening closing otherwise : Token} {ts us vs : List Token}
    {condition : Expr} {dangling : Bool} {thenBranch elseBranch : Stmt}
    (hkeyword : keyword.kind = .keyword .if_) (hopening : opening.kind = .symbol .leftParen)
    (hcondition : Accepts .expression ts condition) (hclosing : closing.kind = .symbol .rightParen)
    (hthen : Accepts (.statement false) us thenBranch) (hotherwise : otherwise.kind = .keyword .else_)
    (helse : Accepts (.statement dangling) vs elseBranch) :
    Accepts (.statement dangling) (keyword :: opening :: ts ++ closing :: us ++ otherwise :: vs)
      (Stmt.ifElse condition thenBranch (some elseBranch)) := by
  intro n rest faults hrest
  cases n with
  | zero => exact follows_exhausted
  | succ n =>
    have hshape : keyword :: opening :: ts ++ closing :: us ++ otherwise :: vs ++ rest =
        keyword :: opening :: (ts ++ closing :: (us ++ otherwise :: (vs ++ rest))) := by simp
    rw [hshape]
    refine follows_statement ?_
    simp only [hkeyword]
    refine (Follows.bind (follows_expectSymbol hopening)).trans ?_
    have hends := endsExpression_cons (us ++ otherwise :: (vs ++ rest)) hclosing (by simp)
    refine (Follows.bind (hcondition n _ faults hends)).trans ?_
    refine (Follows.bind (follows_expectSymbol hclosing)).trans ?_
    refine (Follows.bind (hthen n _ faults (by simp))).trans ?_
    have hother := helse n rest faults hrest
    refine (Follows.bind (follows_after?_some (by simp [Token.isKeyword,hotherwise]) hother)).trans ?_
    exact .refl

theorem accepts_blockStatement {opening closing : Token} {ts : List Token} {body : List Stmt}
    (hopening : opening.kind = .symbol .leftBrace) (h : Accepts .declarations ts body)
    (hclosing : closing.kind = .symbol .rightBrace) :
    Accepts (.statement false) (opening :: ts ++ [closing]) (Stmt.block body) := by
  intro n rest faults _
  cases n with
  | zero => exact follows_exhausted
  | succ n =>
    rw [List.append_assoc]
    refine follows_statement ?_
    simp only [hopening]
    exact (Follows.bind (h.2.1 n closing rest faults hclosing)).trans .refl

/-! ## Declarations -/

theorem accepts_function {name opening closing openBrace closeBrace : Token}
    {ts us params : List Token} {body : List Stmt} (hname : name.kind = .identifier)
    (hopening : opening.kind = .symbol .leftParen) (hparams : Accepts .parameterList ts params)
    (hclosing : closing.kind = .symbol .rightParen) (hopenBrace : openBrace.kind = .symbol .leftBrace)
    (hbody : Accepts .declarations us body) (hcloseBrace : closeBrace.kind = .symbol .rightBrace) :
    Accepts .function (name :: opening :: ts ++ closing :: openBrace :: us ++ [closeBrace])
      (FunctionDecl.mk name params body) := by
  intro n role rest faults
  cases n with
  | zero => exact follows_exhausted
  | succ n =>
    have hshape : name :: opening :: ts ++ closing :: openBrace :: us ++ [closeBrace] ++ rest =
        name :: opening :: (ts ++ closing :: openBrace :: (us ++ closeBrace :: rest)) := by simp
    rw [function,hshape]
    refine (Follows.bind (follows_expectName hname)).trans ?_
    refine (Follows.bind (follows_expectSymbol hopening)).trans ?_
    refine (Follows.bind (hparams n closing _ faults hclosing)).trans ?_
    refine (Follows.bind (follows_expectSymbol hclosing)).trans ?_
    refine (Follows.bind (follows_expectSymbol hopenBrace)).trans ?_
    exact (Follows.bind (hbody.2.1 n closeBrace rest faults hcloseBrace)).trans .refl

theorem accepts_noFunctions : Accepts .functions [] [] := by
  intro n closing rest faults hclosing
  cases n with
  | zero => exact follows_exhausted
  | succ n =>
    rw [methods]
    refine (Follows.bind .refl).trans ?_
    simp only [List.nil_append,Token.isSymbol,hclosing,decide_true,if_true]
    exact .refl

theorem accepts_moreFunctions {ts us : List Token} {decl : FunctionDecl} {rest : List FunctionDecl}
    (hd : Derives .function ts decl) (h : Accepts .function ts decl)
    (hrest : Accepts .functions us rest) : Accepts .functions (ts ++ us) (decl :: rest) := by
  intro n closing after faults hclosing
  cases n with
  | zero => exact follows_exhausted
  | succ n =>
    have hdecl := h n .method (us ++ closing :: after) faults
    obtain ⟨t,ts',rfl,ht⟩ := hd.starts rfl
    rw [methods,List.append_assoc]
    refine (Follows.bind .refl).trans ?_
    have hbrace : t.isSymbol .rightBrace = false := by simp_all [Token.isSymbol,starts]
    simp only [List.cons_append,hbrace]
    refine (Follows.bind hdecl).trans ?_
    exact (Follows.bind (hrest n closing after faults hclosing)).trans .refl

theorem accepts_plainClass {keyword name opening closing : Token} {ts : List Token}
    {decls : List FunctionDecl} (hkeyword : keyword.kind = .keyword .class_)
    (hname : name.kind = .identifier) (hopening : opening.kind = .symbol .leftBrace)
    (hdecls : Accepts .functions ts decls) (hclosing : closing.kind = .symbol .rightBrace) :
    Accepts .declaration (keyword :: name :: opening :: ts ++ [closing])
      (Stmt.classDecl name none decls) := by
  intro n rest faults _
  match n with
  | 0 => exact follows_exhausted
  | n + 1 =>
    rw [declaration,List.append_assoc]
    have hclass : keyword.isKeyword .class_ = true := by simp [Token.isKeyword,hkeyword]
    refine (Follows.bind (.inl (accept_some (by simp [hclass])))).trans ?_
    simp only [hclass,if_true]
    cases n with
    | zero => exact follows_exhausted
    | succ n =>
      rw [classDeclaration]
      refine (Follows.bind (follows_expectName hname)).trans ?_
      refine (Follows.bind (follows_after?_none ?_)).trans ?_
      · rintro _ ⟨⟩
        simp [Token.isSymbol,hopening]
      refine (Follows.bind (follows_expectSymbol hopening)).trans ?_
      refine (Follows.bind (hdecls n closing rest faults hclosing)).trans ?_
      exact (Follows.bind (follows_expectSymbol hclosing)).trans .refl

theorem accepts_derivedClass {keyword name less parent opening closing : Token} {ts : List Token}
    {decls : List FunctionDecl} (hkeyword : keyword.kind = .keyword .class_)
    (hname : name.kind = .identifier) (hless : less.kind = .symbol .less)
    (hparent : parent.kind = .identifier) (hopening : opening.kind = .symbol .leftBrace)
    (hdecls : Accepts .functions ts decls) (hclosing : closing.kind = .symbol .rightBrace) :
    Accepts .declaration (keyword :: name :: less :: parent :: opening :: ts ++ [closing])
      (Stmt.classDecl name (some parent) decls) := by
  intro n rest faults _
  match n with
  | 0 => exact follows_exhausted
  | n + 1 =>
    rw [declaration,List.append_assoc]
    have hclass : keyword.isKeyword .class_ = true := by simp [Token.isKeyword,hkeyword]
    refine (Follows.bind (.inl (accept_some (by simp [hclass])))).trans ?_
    simp only [hclass,if_true]
    cases n with
    | zero => exact follows_exhausted
    | succ n =>
      rw [classDeclaration]
      refine (Follows.bind (follows_expectName hname)).trans ?_
      have hsuper : Follows
          (expectName .superclassName ⟨parent :: (opening :: ts ++ closing :: rest),faults⟩)
          (.ok parent ⟨opening :: ts ++ closing :: rest,faults⟩) := follows_expectName hparent
      refine (Follows.bind (follows_after?_some (by simp [Token.isSymbol,hless]) hsuper)).trans ?_
      refine (Follows.bind (follows_expectSymbol hopening)).trans ?_
      refine (Follows.bind (hdecls n closing rest faults hclosing)).trans ?_
      exact (Follows.bind (follows_expectSymbol hclosing)).trans .refl

theorem accepts_namedFunction {keyword : Token} {ts : List Token} {decl : FunctionDecl}
    (hkeyword : keyword.kind = .keyword .fun_) (h : Accepts .function ts decl) :
    Accepts .declaration (keyword :: ts) (Stmt.funDecl decl) := by
  intro n rest faults _
  cases n with
  | zero => exact follows_exhausted
  | succ n =>
    rw [declaration]
    refine (Follows.bind (.inl (accept_some (by simp [Token.isKeyword,hkeyword])))).trans ?_
    simp only [Token.isKeyword,hkeyword]
    exact (h n .function rest faults).map

theorem accepts_variable {ts : List Token} {s : Stmt} (h : Accepts .variableDeclaration ts s) :
    Accepts .declaration ts s := by
  intro n rest faults _
  obtain ⟨keyword,us,rfl,hkeyword,h⟩ := h
  cases n with
  | zero => exact follows_exhausted
  | succ n =>
    rw [declaration]
    refine (Follows.bind (.inl (accept_some (by simp [Token.isKeyword,hkeyword])))).trans ?_
    simp only [Token.isKeyword,hkeyword]
    exact h n rest faults

theorem accepts_statement {ts : List Token} {dangling : Bool} {s : Stmt}
    (hd : Derives (.statement dangling) ts s) (h : Accepts (.statement dangling) ts s) :
    Accepts .declaration ts s := by
  intro n rest faults hrest
  cases n with
  | zero => exact follows_exhausted
  | succ n =>
    have hs := h n rest faults (fun _ => hrest)
    obtain ⟨t,us,rfl,ht⟩ := hd.starts rfl
    rw [declaration]
    refine (Follows.bind (.inl (accept_none ?_))).trans hs
    rintro _ ⟨⟩
    cases hk : t.kind with
    | keyword k =>
      cases k <;>
        simp_all [Token.isKeyword,starts,startsStatement,startsExpression,startsPrimary]
    | _ => simp [Token.isKeyword,hk]

theorem accepts_noDeclarations : Accepts .declarations [] [] := by
  refine ⟨by simp [AtElse],?_,?_⟩
  · intro n closing rest faults hclosing
    cases n with
    | zero => exact follows_exhausted
    | succ n =>
      rw [block]
      refine (Follows.bind .refl).trans ?_
      simp only [List.nil_append,Token.isSymbol,hclosing,decide_true,if_true]
      exact .refl
  · intro n faults
    cases n with
    | zero => exact follows_exhausted
    | succ n => exact .refl

theorem follows_recovering {p : Parse Stmt} {c d : Cursor} {s : Stmt}
    (h : Follows (p c) (.ok s d)) : Follows (recovering p c) (.ok (some s) d) := by
  unfold recovering
  rcases h with h | ⟨d',h⟩ <;> rw [h]
  · exact .refl
  · exact .inr ⟨d',rfl⟩

theorem accepts_moreDeclarations {ts us : List Token} {s : Stmt} {rest : List Stmt}
    (hd : Derives .declaration ts s) (h : Accepts .declaration ts s)
    (hrest : Accepts .declarations us rest) : Accepts .declarations (ts ++ us) (s :: rest) := by
  obtain ⟨t,ts',rfl,ht⟩ := hd.starts rfl
  refine ⟨?_,?_,?_⟩
  · rintro ⟨_,⟨⟩,hk⟩
    simp [hk,starts,startsStatement,startsExpression,startsPrimary] at ht
  · intro n closing after faults hclosing
    cases n with
    | zero => exact follows_exhausted
    | succ n =>
      have helse : ¬ AtElse (us ++ closing :: after) := by
        rintro ⟨t',ht',hk⟩
        cases us with
        | nil => cases ht'; simp [hclosing] at hk
        | cons u us => exact hrest.1 ⟨t',ht',hk⟩
      have hs := follows_recovering (h n (us ++ closing :: after) faults helse)
      rw [block,List.append_assoc]
      refine (Follows.bind .refl).trans ?_
      have hbrace : t.isSymbol .rightBrace = false := by
        cases hk : t.kind with
        | symbol k =>
          cases k <;> simp_all [Token.isSymbol,starts,startsStatement,startsExpression,startsPrimary]
        | _ => simp [Token.isSymbol,hk]
      simp only [List.cons_append,hbrace]
      refine (Follows.bind hs).trans ?_
      exact (Follows.bind (hrest.2.1 n closing after faults hclosing)).trans .refl
  · intro n faults
    cases n with
    | zero => exact follows_exhausted
    | succ n =>
      rw [Parse.program]
      refine (Follows.bind .refl).trans ?_
      refine (Follows.bind (follows_recovering (h n us faults hrest.1))).trans ?_
      exact (Follows.bind (hrest.2.2 n faults)).trans .refl

/-! ## Acceptance -/

/-- Every derivation is read. -/
theorem Derives.accepts {phrase : Phrase} {ts : List Token} {tree : phrase.Tree}
    (h : Derives phrase ts tree) : Accepts phrase ts tree := by
  induction h with
  | noDeclarations => exact accepts_noDeclarations
  | moreDeclarations hd _ ih ihrest => exact accepts_moreDeclarations hd ih ihrest
  | plainClass hk hn ho _ hc ih => exact accepts_plainClass hk hn ho ih hc
  | derivedClass hk hn hl hp ho _ hc ih => exact accepts_derivedClass hk hn hl hp ho ih hc
  | namedFunction hk _ ih => exact accepts_namedFunction hk ih
  | variable_ _ ih => exact accepts_variable ih
  | statement hd ih => exact accepts_statement hd ih
  | noFunctions => exact accepts_noFunctions
  | moreFunctions hd _ ih ihrest => exact accepts_moreFunctions hd ih ihrest
  | function hn ho _ hc hob _ hcb ihp ihb => exact accepts_function hn ho ihp hc hob ihb hcb
  | noParameters => exact fun n closing rest faults hc => follows_unlessAt_absent hc
  | someParameters hd hlen ih =>
    intro n closing rest faults hc
    have hp := ih n 0 closing rest faults hc (by omega)
    obtain ⟨t,us,rfl,ht⟩ := hd.starts rfl
    refine follows_unlessAt ?_ hp
    intro hk
    simp [hk,Grammar.starts] at ht
  | lastParameter hn => exact accepts_lastParameter hn
  | moreParameters hn hc _ ih => exact accepts_moreParameters hn hc ih
  | bareVariable hk hn hs => exact accepts_bareVariable hk hn hs
  | initialVariable hk hn he _ hs ih => exact accepts_initialVariable hk hn he ih hs
  | expressionStatement _ hs ih => exact accepts_expressionStatement ih hs
  | plainStatement hd ih => exact accepts_plainStatement hd ih
  | forStatement hk ho _ _ hs _ hc _ ihi ihc ihs ihb =>
    rw [← counting_eq]
    exact accepts_forStatement hk ho ihi ihc hs ihs hc ihb
  | noStart hs =>
    exact fun n rest faults => (Follows.bind (follows_acceptSymbol hs)).trans .refl
  | variableStart _ ih => exact accepts_variableStart ih
  | expressionStart hd ih => exact accepts_expressionStart hd ih
  | ifStatement hk ho _ hc _ ihc iht => exact accepts_ifStatement hk ho ihc hc iht
  | ifElseStatement hk ho _ hc _ he _ ihc iht ihe =>
    exact accepts_ifElseStatement hk ho ihc hc iht he ihe
  | printStatement hk _ hs ih => exact accepts_printStatement hk ih hs
  | returnStatement hk _ hs ih => exact accepts_returnStatement hk ih hs
  | whileStatement hk ho _ hc _ ihc ihb => exact accepts_whileStatement hk ho ihc hc ihb
  | blockStatement ho _ hc ih => exact accepts_blockStatement ho ih hc
  | noExpression => exact fun n s closing rest faults hc _ => follows_unlessAt_absent hc
  | someExpression hd ih => exact accepts_someExpression hd ih
  | assignVariable hn he _ ih =>
    exact accepts_assign (accepts_primary (.name hn) (accepts_name hn)) he ih fun _ => rfl
  | assignProperty _ hd hn he _ ihc ih =>
    have := accepts_assign (accepts_property ihc hd hn) he ih fun _ => rfl
    simpa using this
  | operation _ ih => exact accepts_operation ih
  | operand ht _ ih => exact accepts_operand ht ih
  | join ht _ hnode _ ihl ihr => exact accepts_join ht ihl hnode ihr
  | leading hop _ ih => exact accepts_leading hop ih
  | call _ ih => exact accepts_call ih
  | primary hd ih => exact accepts_primary hd ih
  | application _ ho _ hc ihf iha => exact accepts_application ihf ho iha hc
  | property _ hd hn ih => exact accepts_property ih hd hn
  | noArguments => exact fun n closing rest faults hc => follows_unlessAt_absent hc
  | someArguments hd hlen ih =>
    intro n closing rest faults hc
    have ha := ih n 0 closing rest faults hc (by omega)
    obtain ⟨t,us,rfl,ht⟩ := hd.starts rfl
    refine follows_unlessAt ?_ ha
    intro hk
    simp [hk,Grammar.starts,startsExpression,startsPrimary] at ht
  | lastArgument _ ih => exact accepts_lastArgument ih
  | moreArguments _ hc _ ih ihrest => exact accepts_moreArguments ih hc ihrest
  | literal ht => exact accepts_literal ht
  | name hn => exact accepts_name hn
  | self hk => exact accepts_self hk
  | superMethod hk hd hn => exact accepts_superMethod hk hd hn
  | grouping ho _ hc ih => exact accepts_grouping ho ih hc

/-- The budget lasts for every list of tokens. -/
theorem program_ne_exhausted (tokens : List Token) (d : Cursor) :
    Parse.program (budget tokens) ⟨tokens,[]⟩ ≠ .error .exhausted d := by
  intro h
  have hr := reads_program (budget tokens) ⟨tokens,[]⟩ (by simp only [budget]; omega)
  rw [h] at hr
  exact hr

theorem parse_of_isProgram {tokens : List Token} {program : List Stmt}
    (h : IsProgram tokens program) : parse tokens = ⟨program,[]⟩ := by
  unfold parse
  rcases (Derives.accepts h).2.2 (budget tokens) [] with hp | ⟨d,hp⟩
  · rw [hp]
    rfl
  · exact absurd hp (program_ne_exhausted tokens d)

/-- The parser accepts exactly the programs of the grammar, and builds the tree of the derivation. -/
theorem parse_eq_iff_isProgram (tokens : List Token) (program : List Stmt) :
    (parse tokens).faults = [] ∧ (parse tokens).statements = program ↔ IsProgram tokens program := by
  constructor
  · rintro ⟨hfaults,rfl⟩
    exact isProgram_of_parse hfaults
  · intro h
    simp [parse_of_isProgram h]

end Scriptlet.Grammar
