import Scriptlet.Proofs.Grammar
import Scriptlet.Tree.Parser

/-! # What the parser reads

Each parsing function either reads tokens from the front of what is left or fails with a new
report, and with a budget in proportion to the tokens left it never runs dry. A function that
reports nothing has read a phrase of the grammar, and gives the tree of that phrase.
-/
namespace Scriptlet.Grammar
open Parse

section Rules

variable {α β : Type} {c : Cursor} {p : Parse α}

/-- What came of a parsing function that started at `c`. A result satisfies `Q` together with the
new reports, the tokens that were read and those still left. -/
def Reads (c : Cursor) (Q : List ParseFault → List Token → List Token → α → Prop) :
    EStateM.Result Stop Cursor α → Prop
  | .ok a d => ∃ extra used, c.rest = used ++ d.rest ∧ d.faults = extra ++ c.faults ∧
      Q extra used d.rest a
  | .error .failed d => ∃ extra used, c.rest = used ++ d.rest ∧ d.faults = extra ++ c.faults ∧
      extra ≠ []
  | .error .exhausted _ => False

variable {Q R : List ParseFault → List Token → List Token → α → Prop}

theorem Reads.pure {a : α} (h : Q [] [] c.rest a) : Reads c Q ((pure a : Parse α) c) :=
  ⟨[],[],rfl,rfl,h⟩

theorem Reads.mono {r : EStateM.Result Stop Cursor α} (h : Reads c Q r)
    (hQ : ∀ extra used rest a, Q extra used rest a → R extra used rest a) : Reads c R r := by
  match r, h with
  | .ok _ _, ⟨extra,used,hr,hf,hq⟩ => exact ⟨extra,used,hr,hf,hQ _ _ _ _ hq⟩
  | .error .failed _, h => exact h

theorem Reads.bind {f : α → Parse β} {S : List ParseFault → List Token → List Token → β → Prop}
    (hp : Reads c Q (p c))
    (hf : ∀ extra used a d, c.rest = used ++ d.rest → Q extra used d.rest a →
      Reads d (fun e u rest b => S (e ++ extra) (used ++ u) rest b) (f a d)) :
    Reads c S ((p >>= f) c) := by
  change Reads c S (EStateM.bind p f c)
  unfold EStateM.bind
  cases hr : p c with
  | error e d =>
    rw [hr] at hp
    cases e with
    | failed => exact hp
    | exhausted => exact hp
  | ok a d =>
    rw [hr] at hp
    obtain ⟨extra,used,hrest,hfaults,hq⟩ := hp
    have hb := hf extra used a d hrest hq
    dsimp only
    cases hs : f a d with
    | error e d' =>
      rw [hs] at hb
      cases e with
      | failed =>
        obtain ⟨extra',used',hrest',hfaults',hne⟩ := hb
        exact ⟨extra' ++ extra,used ++ used',by rw [hrest,hrest',List.append_assoc],
          by rw [hfaults',hfaults,List.append_assoc],by simp [hne]⟩
      | exhausted => exact hb
    | ok b d' =>
      rw [hs] at hb
      obtain ⟨extra',used',hrest',hfaults',hq'⟩ := hb
      exact ⟨extra' ++ extra,used ++ used',by rw [hrest,hrest',List.append_assoc],
        by rw [hfaults',hfaults,List.append_assoc],hq'⟩

theorem Reads.map {f : α → β} {S : List ParseFault → List Token → List Token → β → Prop}
    (hp : Reads c Q (p c)) (hf : ∀ extra used rest a, Q extra used rest a → S extra used rest (f a)) :
    Reads c S ((f <$> p) c) := by
  refine Reads.bind (p := p) (f := fun a => Pure.pure (f a)) hp ?_
  intro extra used a d _ hq
  exact Reads.pure (by simpa using hf _ _ _ _ hq)

/-- Looking at the next token reads nothing. -/
theorem Reads.peek {f : Option Token → Parse α} (h : Reads c Q (f c.rest.head? c)) :
    Reads c Q ((peek? >>= f) c) := h

/-- Passing a token reads it. -/
theorem Reads.advance {f : Unit → Parse α} {t : Token} {rest : List Token} (hc : c.rest = t :: rest)
    (h : Reads ⟨rest,c.faults⟩ (fun e u rest a => Q e (t :: u) rest a) (f () ⟨rest,c.faults⟩)) :
    Reads c Q ((Parse.advance >>= f) c) := by
  obtain ⟨_,faults⟩ := c
  subst hc
  change Reads _ Q (f () ⟨rest,faults⟩)
  cases hr : f () ⟨rest,faults⟩ with
  | error e d =>
    rw [hr] at h
    cases e with
    | failed =>
      obtain ⟨extra,used,hrest,hfaults,hne⟩ := h
      exact ⟨extra,t :: used,congrArg (t :: ·) hrest,hfaults,hne⟩
    | exhausted => exact h
  | ok a d =>
    rw [hr] at h
    obtain ⟨extra,used,hrest,hfaults,hq⟩ := h
    exact ⟨extra,t :: used,congrArg (t :: ·) hrest,hfaults,hq⟩

theorem reads_fail {error : ParseError} : Reads c Q ((fail error : Parse α) c) :=
  ⟨[⟨error,c.rest.head?⟩],[],rfl,rfl,by simp⟩

/-- What reading a token if it is wanted does. -/
theorem reads_take? (wanted : Token → Option α) :
    Reads c (fun extra used rest r => extra = [] ∧
      match r with
      | some a => ∃ t, used = [t] ∧ wanted t = some a
      | none => used = [] ∧ ∀ t ∈ rest.head?, wanted t = none) (take? wanted c) := by
  obtain ⟨rest,faults⟩ := c
  refine Reads.peek ?_
  cases rest with
  | nil => exact Reads.pure ⟨rfl,rfl,by simp⟩
  | cons t rest =>
    dsimp only [List.head?_cons]
    cases hw : wanted t with
    | none => exact Reads.pure ⟨rfl,rfl,by simpa using hw⟩
    | some a => exact Reads.advance rfl (Reads.pure ⟨rfl,t,rfl,hw⟩)

theorem reads_accept (wanted : Token → Bool) :
    Reads c (fun extra used rest r => extra = [] ∧
      match r with
      | some t => used = [t] ∧ wanted t = true
      | none => used = [] ∧ ∀ t ∈ rest.head?, wanted t = false) (accept wanted c) := by
  refine (reads_take? _).mono ?_
  rintro extra used rest (_ | a) ⟨rfl,h⟩
  · exact ⟨rfl,h.1,fun t ht => by simpa using h.2 t ht⟩
  · obtain ⟨t,rfl,ht⟩ := h
    obtain ⟨ht,hta⟩ := Option.ite_none_right_eq_some.mp ht
    cases hta
    exact ⟨rfl,rfl,ht⟩

theorem reads_expect (wanted : Token → Bool) (error : ParseError) :
    Reads c (fun extra used _ t => extra = [] ∧ used = [t] ∧ wanted t = true)
      (expect wanted error c) := by
  refine Reads.bind (reads_accept wanted) ?_
  rintro extra used (_ | t) d - ⟨rfl,h⟩
  · exact reads_fail
  · exact Reads.pure ⟨rfl,by simpa using h.1,h.2⟩

theorem reads_expectSymbol (s : Symbol) (error : ParseError) :
    Reads c (fun extra used _ t => extra = [] ∧ used = [t] ∧ t.kind = .symbol s)
      (expectSymbol s error c) := by
  refine (reads_expect _ error).mono ?_
  rintro extra used rest t ⟨rfl,rfl,ht⟩
  exact ⟨rfl,rfl,by simpa [Token.isSymbol] using ht⟩

theorem reads_expectName (error : ParseError) :
    Reads c (fun extra used _ t => extra = [] ∧ used = [t] ∧ t.kind = .identifier)
      (expectName error c) := by
  refine (reads_expect _ error).mono ?_
  rintro extra used rest t ⟨rfl,rfl,ht⟩
  exact ⟨rfl,rfl,by simpa [Token.isIdentifier] using ht⟩

theorem reads_acceptSymbol (s : Symbol) :
    Reads c (fun extra used _ found => extra = [] ∧
      if found then ∃ t : Token, used = [t] ∧ t.kind = .symbol s else used = [])
      (acceptSymbol s c) := by
  refine Reads.bind (reads_accept _) ?_
  rintro extra used (_ | t) d - ⟨rfl,h⟩
  · exact Reads.pure ⟨rfl,by simp [h.1]⟩
  · exact Reads.pure ⟨rfl,by simpa [h.1,Token.isSymbol] using h.2⟩

/-- Only a list that is already full is reported. -/
theorem reads_checkCount (error : ParseError) (count : Nat) :
    Reads c (fun extra used _ _ => used = [] ∧ (extra = [] → count < 8)) (checkCount error count c) := by
  unfold checkCount
  by_cases h : maxParameters ≤ count
  · rw [if_pos h]
    exact ⟨[⟨error,c.rest.head?⟩],[],rfl,rfl,rfl,by simp⟩
  · rw [if_neg h]
    exact Reads.pure ⟨rfl,fun _ => Nat.lt_of_not_le h⟩

theorem reads_after? {wanted : Token → Bool}
    (hp : ∀ t d, wanted t = true → c.rest = t :: d.rest → Reads d Q (p d)) :
    Reads c (fun extra used rest r =>
      match r with
      | some a => ∃ t u, used = t :: u ∧ wanted t = true ∧ Q extra u rest a
      | none => extra = [] ∧ used = [] ∧ ∀ t ∈ rest.head?, wanted t = false)
      (after? wanted p c) := by
  refine Reads.bind (reads_accept wanted) ?_
  rintro extra used (_ | t) d hd ⟨rfl,h⟩
  · obtain ⟨rfl,hnone⟩ := h
    exact Reads.pure ⟨rfl,rfl,hnone⟩
  · obtain ⟨rfl,ht⟩ := h
    refine Reads.map (hp t d ht hd) ?_
    intro e u rest a hq
    exact ⟨t,u,rfl,ht,by simpa using hq⟩

theorem reads_unlessAt {closing : Symbol} {absent : α} (hp : Reads c Q (p c)) :
    Reads c (fun extra used rest a => (extra = [] ∧ used = [] ∧ a = absent) ∨ Q extra used rest a)
      (unlessAt closing absent p c) := by
  refine Reads.peek (f := fun r => Pure.pure (r.any (·.isSymbol closing)) >>= fun b =>
    if b then Pure.pure absent else p) ?_
  change Reads c _ ((if (c.rest.head?.any (·.isSymbol closing)) = true then Pure.pure absent else p) c)
  split
  · exact Reads.pure (.inl ⟨rfl,rfl,rfl⟩)
  · exact hp.mono fun _ _ _ _ h => .inr h

end Rules

/-- Something was read, and if nothing was reported it is the given phrase. -/
def Forms (phrase : Phrase) (extra : List ParseFault) (used _rest : List Token)
    (tree : phrase.Tree) : Prop :=
  used ≠ [] ∧ (extra = [] → Derives phrase used tree)

/-- The levels of the parser are the tiers of the grammar. -/
theorem levels_eq : levels =
    [Tier.factor,.term,.comparison,.equality,.conjunction,.disjunction].map
      (fun tier t => tier.node? t) := by
  simp only [levels,List.map,List.cons.injEq,and_true]
  refine ⟨?_,?_,?_,?_,?_,?_⟩
  all_goals
    funext t
    obtain ⟨kind,_,_,_⟩ := t
    cases kind with
    | symbol s => cases s <;> rfl
    | keyword k => cases k <;> rfl
    | _ => rfl

/-- An operator between two operands makes a binary or a logical node. -/
theorem node?_eq {tier : Tier} {t : Token} {node : Expr → Expr → Expr}
    (h : tier.node? t = some node) :
    (∃ op, node = .binary op t) ∨ ∃ op, node = .logical op := by
  cases tier with
  | disjunction | conjunction =>
    simp only [Tier.node?,Option.ite_none_right_eq_some,Option.some.injEq] at h
    exact .inr ⟨_,h.2.symm⟩
  | unary => simp [Tier.node?] at h
  | _ =>
    simp only [Tier.node?] at h
    split at h <;> cases h <;> exact .inl ⟨_,rfl⟩

section Operators

variable {tier inner : Tier} {operand : Parse Expr} {limit : Nat}

/-- Joining further operands extends an operation. -/
theorem reads_chain (ht : tier.tighter = some inner)
    (hop : ∀ c, c.rest.length ≤ limit → Reads c (Forms (.operation inner)) (operand c)) :
    ∀ n c left, c.rest.length ≤ limit → c.rest.length < n →
      Reads c (fun extra used _ e => extra = [] → ∀ ts, Derives (.operation tier) ts left →
        Derives (.operation tier) (ts ++ used) e)
        (chain operand (fun t => tier.node? t) n left c) := by
  intro n
  induction n with
  | zero => intro c left _ hn; exact absurd hn (Nat.not_lt_zero _)
  | succ n ih =>
    intro c left hc hn
    refine Reads.bind (reads_take? _) ?_
    rintro extra used (_ | node) d hd ⟨rfl,h⟩
    · obtain ⟨rfl,-⟩ := h
      exact Reads.pure (by simp)
    · obtain ⟨t,rfl,hnode⟩ := h
      have hlen : d.rest.length + 1 = c.rest.length := by simp [hd]
      refine Reads.bind (hop d (by omega)) ?_
      rintro extra used right d' hd' ⟨hne,hright⟩
      have hlen' : d'.rest.length ≤ d.rest.length := by simp [hd']
      refine (ih d' (node left right) (by omega) (by omega)).mono ?_
      intro e u rest value hvalue hclean ts hleft
      obtain ⟨rfl,rfl⟩ : e = [] ∧ extra = [] := by simpa using hclean
      have := hvalue rfl (ts ++ t :: used) (.join ht hleft hnode (hright rfl))
      simpa using this

theorem reads_leftAssociative (ht : tier.tighter = some inner)
    (hop : ∀ c, c.rest.length ≤ limit → Reads c (Forms (.operation inner)) (operand c))
    {n : Nat} (hn : limit < n) (c : Cursor) (hc : c.rest.length ≤ limit) :
    Reads c (Forms (.operation tier)) (leftAssociative n operand (fun t => tier.node? t) c) := by
  refine Reads.bind (hop c hc) ?_
  rintro extra used first d hd ⟨hne,hfirst⟩
  have hlen : d.rest.length ≤ c.rest.length := by simp [hd]
  refine (reads_chain ht hop n d first (by omega) (by omega)).mono ?_
  intro e u rest value hvalue
  refine ⟨by simp [hne],?_⟩
  intro hclean
  obtain ⟨rfl,rfl⟩ : e = [] ∧ extra = [] := by simpa using hclean
  exact hvalue rfl used (.operand ht (hfirst rfl))

theorem reads_operators {n : Nat} (hn : limit < n)
    (hop : ∀ c, c.rest.length ≤ limit → Reads c (Forms (.operation .unary)) (operand c)) :
    ∀ c, c.rest.length ≤ limit →
      Reads c (Forms (.operation .disjunction)) (operators n operand c) := by
  simp only [operators,levels_eq,List.map,List.foldl]
  exact reads_leftAssociative rfl (reads_leftAssociative rfl (reads_leftAssociative rfl
    (reads_leftAssociative rfl (reads_leftAssociative rfl (reads_leftAssociative rfl hop
      hn) hn) hn) hn) hn) hn

end Operators

/-- The tokens of an expression that can be assigned to. -/
def TargetTokens (ts : List Token) : Expr → Prop
  | .variable_ name => ts = [name] ∧ name.kind = .identifier
  | .get object name => ∃ us dot, ts = us ++ [dot,name] ∧ Derives .call us object ∧
      dot.kind = .symbol .dot ∧ name.kind = .identifier
  | _ => True

theorem targetTokens_node {tier : Tier} {t : Token} {node : Expr → Expr → Expr}
    (h : tier.node? t = some node) (ts : List Token) (l r : Expr) : TargetTokens ts (node l r) := by
  rcases node?_eq h with ⟨op,rfl⟩ | ⟨op,rfl⟩ <;> trivial

/-- A variable or a property stands for its own tokens only: no operator, group or sign hides in
the phrase. -/
theorem Derives.targetTokens {phrase : Phrase} {ts : List Token} {tree : phrase.Tree}
    (h : Derives phrase ts tree) :
    match phrase, tree with
    | .operation _, e => TargetTokens ts e
    | .call, e => TargetTokens ts e
    | .primary, e => TargetTokens ts e
    | _, _ => True := by
  induction h with
  | operand _ _ ih => exact ih
  | join _ _ hnode _ _ _ => exact targetTokens_node hnode _ _ _
  | call _ ih => exact ih
  | primary _ ih => exact ih
  | property hobject hdot hname _ => exact ⟨_,_,rfl,hobject,hdot,hname⟩
  | name hname => exact ⟨rfl,hname⟩
  | _ => trivial

/-- Assigning to what was read is an assignment of the grammar, unless the target is reported. -/
theorem reads_assignment {c : Cursor} (target value : Expr) {equal : Token}
    (hequal : equal.kind = .symbol .equal) :
    Reads c (fun extra used _ e => used = [] ∧ (extra = [] → ∀ ts us,
      Derives (.operation .disjunction) ts target → Derives .expression us value →
      Derives .expression (ts ++ equal :: us) e)) (assignment target equal value c) := by
  cases target with
  | variable_ name =>
    refine Reads.pure ⟨rfl,fun _ ts us htarget hvalue => ?_⟩
    obtain ⟨rfl,hname⟩ := htarget.targetTokens
    exact .assignVariable hname hequal hvalue
  | get object name =>
    refine Reads.pure ⟨rfl,fun _ ts us htarget hvalue => ?_⟩
    obtain ⟨ts',dot,rfl,hobject,hdot,hname⟩ := htarget.targetTokens
    simpa using Derives.assignProperty hobject hdot hname hequal hvalue
  | _ => exact ⟨[⟨.assignmentTarget,some equal⟩],[],rfl,rfl,rfl,by simp⟩

mutual

theorem reads_expression : ∀ n c, 3 * c.rest.length + 3 ≤ n →
    Reads c (Forms .expression) (expression n c)
  | 0, _, hn => absurd hn (by omega)
  | n + 1, c, hn => by
    rw [expression]
    have hlimit : c.rest.length < n := by omega
    refine Reads.bind (reads_operators hlimit (fun d hd => reads_unary n d (by omega)) c
      (Nat.le_refl _)) ?_
    rintro extra₁ left first d hd ⟨hne,hfirst⟩
    refine Reads.bind (reads_accept _) ?_
    rintro extra used (_ | equal) d' hd' ⟨rfl,h⟩
    · obtain ⟨rfl,-⟩ := h
      refine Reads.pure ⟨by simp [hne],?_⟩
      intro hclean
      simpa using Derives.operation (hfirst (by simpa using hclean))
    · obtain ⟨rfl,hequal⟩ := h
      have hlen : d'.rest.length + 1 ≤ c.rest.length := by simp [hd,hd']
      refine Reads.bind (reads_expression n d' (by omega)) ?_
      rintro extra₂ right value d'' - ⟨-,hvalue⟩
      refine (reads_assignment first value (by simpa [Token.isSymbol] using hequal)).mono ?_
      rintro extra₃ used rest e ⟨rfl,he⟩
      refine ⟨by simp,?_⟩
      intro hclean
      obtain ⟨rfl,rfl,rfl⟩ : extra₃ = [] ∧ extra₂ = [] ∧ extra₁ = [] := by
        simpa [and_assoc] using hclean
      simpa using he rfl left right (hfirst rfl) (hvalue rfl)

theorem reads_unary : ∀ n c, 3 * c.rest.length + 2 ≤ n →
    Reads c (Forms (.operation .unary)) (unary n c)
  | 0, _, hn => absurd hn (by omega)
  | n + 1, c, hn => by
    rw [unary]
    refine Reads.bind (reads_accept _) ?_
    rintro extra used (_ | t) d hd ⟨rfl,h⟩
    · obtain ⟨rfl,-⟩ := h
      have hlen : d.rest.length = c.rest.length := by simp [hd]
      refine Reads.bind (reads_primary n d (by omega)) ?_
      rintro extra used base d' hd' ⟨hne,hbase⟩
      have hlen' : d'.rest.length ≤ d.rest.length := by simp [hd']
      have hpos : 0 < used.length := List.length_pos_iff.mpr hne
      have hlen'' : d'.rest.length + used.length = d.rest.length := by simp [hd']; omega
      refine (reads_suffixes n d' base (by omega)).mono ?_
      intro extra' used' rest e he
      refine ⟨by simp [hne],?_⟩
      intro hclean
      obtain ⟨rfl,rfl⟩ : extra' = [] ∧ extra = [] := by simpa using hclean
      simpa using Derives.call (he rfl used (.primary (hbase rfl)))
    · obtain ⟨rfl,hsign⟩ := h
      have hlen : d.rest.length + 1 = c.rest.length := by simp [hd]
      refine Reads.bind (reads_unary n d (by omega)) ?_
      rintro extra used value d' - ⟨hne,hvalue⟩
      refine Reads.pure ⟨by simp,?_⟩
      intro hclean
      have hop : leading? t = some (if t.isSymbol .bang then .not else .negate) := by
        simp only [Token.isSymbol,Bool.or_eq_true,decide_eq_true_eq] at hsign ⊢
        rcases hsign with hk | hk <;> simp [leading?,hk]
      simpa using Derives.leading hop (hvalue (by simpa using hclean))

theorem reads_suffixes : ∀ n c base, 3 * c.rest.length + 2 ≤ n →
    Reads c (fun extra used _ e => extra = [] → ∀ ts, Derives .call ts base →
      Derives .call (ts ++ used) e) (suffixes n base c)
  | 0, _, _, hn => absurd hn (by omega)
  | n + 1, c, base, hn => by
    rw [suffixes]
    refine Reads.bind (reads_accept _) ?_
    rintro extra used (_ | t) d hd ⟨rfl,h⟩
    · obtain ⟨rfl,-⟩ := h
      exact Reads.pure (by simp)
    · obtain ⟨rfl,ht⟩ := h
      have hlen : d.rest.length + 1 = c.rest.length := by simp [hd]
      by_cases hparen : t.isSymbol .leftParen = true
      · simp only [hparen,if_true]
        refine Reads.bind (reads_unlessAt (reads_arguments n d 0 (by omega))) ?_
        rintro extra₁ us args d₁ hd₁ hargs
        refine Reads.bind (reads_expectSymbol _ _) ?_
        rintro _ _ closing d₂ hd₂ ⟨rfl,rfl,hclosing⟩
        have hlen₂ : d₂.rest.length ≤ d.rest.length := by simp [hd₁,hd₂]; omega
        refine (reads_suffixes n d₂ _ (by omega)).mono ?_
        intro extra₂ used rest e he hclean ts hbase
        obtain ⟨rfl,rfl⟩ : extra₂ = [] ∧ extra₁ = [] := by simpa using hclean
        have hlist : Derives .argumentList us args := by
          rcases hargs with ⟨-,rfl,rfl⟩ | ⟨-,hargs⟩
          · exact .noArguments
          · exact .someArguments (hargs rfl).1 (by simpa using (hargs rfl).2)
        have hopening : t.kind = .symbol .leftParen := by simpa [Token.isSymbol] using hparen
        simpa using he rfl _ (.application hbase hopening hlist hclosing)
      · have hdot : t.kind = .symbol .dot := by
          simp only [Token.isSymbol,Bool.or_eq_true,decide_eq_true_eq] at ht hparen
          exact ht.resolve_left hparen
        simp only [hparen]
        refine Reads.bind (reads_expectName _) ?_
        rintro _ _ name d₁ hd₁ ⟨rfl,rfl,hname⟩
        have hlen₁ : d₁.rest.length ≤ d.rest.length := by simp [hd₁]
        refine (reads_suffixes n d₁ _ (by omega)).mono ?_
        intro extra₂ used rest e he hclean ts hbase
        simpa using he (by simpa using hclean) _ (.property hbase hdot hname)

theorem reads_arguments : ∀ n c count, 3 * c.rest.length + 4 ≤ n →
    Reads c (fun extra used _ es => used ≠ [] ∧
      (extra = [] → Derives .arguments used es ∧ count + es.length ≤ 8)) (arguments n count c)
  | 0, _, _, hn => absurd hn (by omega)
  | n + 1, c, count, hn => by
    rw [arguments]
    refine Reads.bind (reads_checkCount _ _) ?_
    rintro extra₁ _ _ d hd ⟨rfl,hcount⟩
    have hlen : d.rest.length = c.rest.length := by simp [hd]
    refine Reads.bind (reads_expression n d (by omega)) ?_
    rintro extra₂ ts first d₂ hd₂ ⟨hne,hfirst⟩
    refine Reads.bind (reads_acceptSymbol _) ?_
    rintro _ used (_ | _) d₃ hd₃ ⟨rfl,h⟩
    · obtain rfl : used = [] := by simpa using h
      refine Reads.pure ⟨by simp [hne],?_⟩
      intro hclean
      obtain ⟨rfl,rfl⟩ : extra₂ = [] ∧ extra₁ = [] := by simpa using hclean
      refine ⟨by simpa using Derives.lastArgument (hfirst rfl),?_⟩
      have := hcount rfl
      simp only [List.length_singleton]
      omega
    · obtain ⟨comma,rfl,hcomma⟩ : ∃ t : Token, used = [t] ∧ t.kind = .symbol .comma := by simpa using h
      have hlen₃ : d₃.rest.length + 1 ≤ c.rest.length := by
        simp only [hd₂,hd₃,List.length_append,List.length_cons] at hlen
        omega
      refine Reads.bind (reads_arguments n d₃ (count + 1) (by omega)) ?_
      rintro extra₄ us args d₄ - ⟨-,hargs⟩
      refine Reads.pure ⟨by simp,?_⟩
      intro hclean
      obtain ⟨rfl,rfl,rfl⟩ : extra₄ = [] ∧ extra₂ = [] ∧ extra₁ = [] := by
        simpa [and_assoc] using hclean
      refine ⟨by simpa using Derives.moreArguments (hfirst rfl) hcomma (hargs rfl).1,?_⟩
      have := (hargs rfl).2
      simp only [List.length_cons]
      omega

theorem reads_primary : ∀ n c, 3 * c.rest.length + 1 ≤ n →
    Reads c (Forms .primary) (primary n c)
  | 0, _, hn => absurd hn (by omega)
  | n + 1, c, hn => by
    rw [primary]
    refine Reads.peek ?_
    cases hc : c.rest with
    | nil => exact reads_fail
    | cons t rest =>
      rw [List.head?_cons]
      show Reads c (Forms .primary) (atom (expression n) t c)
      rw [atom]
      have hliteral : ∀ {value : Scalar}, scalar? t = some value →
          Reads c (Forms .primary) ((do Parse.advance; return .literal value : Parse Expr) c) :=
        fun ht => Reads.advance hc (Reads.pure ⟨by simp,fun _ => .literal ht⟩)
      cases hk : t.kind with
      | symbol s =>
        cases s with
        | leftParen =>
          have hlen : rest.length + 1 = c.rest.length := by simp [hc]
          refine Reads.advance hc (Reads.bind (reads_expression n _ (by dsimp only; omega)) ?_)
          rintro extra ts inner d - ⟨-,hinner⟩
          refine Reads.bind (reads_expectSymbol _ _) ?_
          rintro _ _ closing d' - ⟨rfl,rfl,hclosing⟩
          refine Reads.pure ⟨by simp,?_⟩
          intro hclean
          simpa using Derives.grouping hk (hinner (by simpa using hclean)) hclosing
        | _ => exact reads_fail
      | keyword k =>
        cases k with
        | true_ => exact hliteral (by simp [scalar?,hk])
        | false_ => exact hliteral (by simp [scalar?,hk])
        | nil => exact hliteral (by simp [scalar?,hk])
        | this_ => exact Reads.advance hc (Reads.pure ⟨by simp,fun _ => .self hk⟩)
        | super =>
          refine Reads.advance hc (Reads.bind (reads_expectSymbol _ _) ?_)
          rintro _ _ dot d - ⟨rfl,rfl,hdot⟩
          refine Reads.bind (reads_expectName _) ?_
          rintro _ _ name d' - ⟨rfl,rfl,hname⟩
          exact Reads.pure ⟨by simp,fun _ => .superMethod hk hdot hname⟩
        | _ => exact reads_fail
      | identifier => exact Reads.advance hc (Reads.pure ⟨by simp,fun _ => .name hk⟩)
      | string value => exact hliteral (by simp [scalar?,hk])
      | integer value => exact hliteral (by simp [scalar?,hk])
      | float value => exact hliteral (by simp [scalar?,hk])

end

/-! ## Statements -/

theorem reads_optionalExpression {n : Nat} {c : Cursor} (closing : Symbol)
    (hn : 3 * c.rest.length + 3 ≤ n) :
    Reads c (fun extra used _ e => extra = [] → Derives .optionalExpression used e)
      (optionalExpression n closing c) := by
  refine (reads_unlessAt ((reads_expression n c hn).map
    (S := fun extra used _ e => extra = [] → Derives .optionalExpression used e) ?_)).mono ?_
  · intro extra used rest e he hclean
    exact .someExpression (he.2 hclean)
  · rintro extra used rest e (⟨-,rfl,rfl⟩ | he)
    · exact fun _ => .noExpression
    · exact he

theorem reads_expressionStatement {n : Nat} {c : Cursor} (hn : 3 * c.rest.length + 3 ≤ n) :
    Reads c (Forms .expressionStatement) (expressionStatement n c) := by
  refine Reads.bind (reads_expression n c hn) ?_
  rintro extra used value d - ⟨hne,hvalue⟩
  refine Reads.bind (reads_expectSymbol _ _) ?_
  rintro _ _ semicolon d' - ⟨rfl,rfl,hsemicolon⟩
  refine Reads.pure ⟨by simp,?_⟩
  intro hclean
  simpa using Derives.expressionStatement (hvalue (by simpa using hclean)) hsemicolon

theorem reads_variableDeclaration {n : Nat} {c : Cursor} (hn : 3 * c.rest.length + 3 ≤ n) :
    Reads c (fun extra used _ s => extra = [] → ∀ keyword : Token, keyword.kind = .keyword .var →
      Derives .variableDeclaration (keyword :: used) s) (variableDeclaration n c) := by
  refine Reads.bind (reads_expectName _) ?_
  rintro _ _ name d hd ⟨rfl,rfl,hname⟩
  have hlen : d.rest.length + 1 = c.rest.length := by simp [hd]
  refine Reads.bind (reads_after? fun t d' _ hd' => reads_expression n d' ?_) ?_
  · have : d'.rest.length + 1 = d.rest.length := by simp [hd']
    omega
  rintro extra used initial d₁ - hinitial
  refine Reads.bind (reads_expectSymbol _ _) ?_
  rintro _ _ semicolon d₂ - ⟨rfl,rfl,hsemicolon⟩
  refine Reads.pure ?_
  intro hclean keyword hkeyword
  cases initial with
  | none =>
    obtain ⟨-,rfl,-⟩ := hinitial
    exact .bareVariable hkeyword hname hsemicolon
  | some value =>
    obtain ⟨equal,ts,rfl,hequal,-,hvalue⟩ := hinitial
    have hequal : equal.kind = .symbol .equal := by simpa [Token.isSymbol] using hequal
    simpa using Derives.initialVariable hkeyword hname hequal (hvalue (by simpa using hclean)) hsemicolon

theorem reads_forStart {n : Nat} {c : Cursor} (hn : 3 * c.rest.length + 3 ≤ n) :
    Reads c (fun extra used _ s => extra = [] → Derives .loopStart used s) (forStart n c) := by
  refine Reads.bind (reads_acceptSymbol _) ?_
  rintro _ used (_ | _) d hd ⟨rfl,h⟩
  · obtain rfl : used = [] := by simpa using h
    have hlen : d.rest.length = c.rest.length := by simp [hd]
    refine Reads.bind (reads_accept _) ?_
    rintro _ used (_ | keyword) d' hd' ⟨rfl,h⟩
    · obtain ⟨rfl,-⟩ := h
      have hlen' : d'.rest.length = d.rest.length := by simp [hd']
      refine (reads_expressionStatement (by omega)).map ?_
      intro extra used rest s hs hclean
      exact .expressionStart (hs.2 (by simpa using hclean))
    · obtain ⟨rfl,hkeyword⟩ := h
      have hlen' : d'.rest.length + 1 = d.rest.length := by simp [hd']
      refine (reads_variableDeclaration (by omega)).map ?_
      intro extra used rest s hs hclean
      exact .variableStart
        (hs (by simpa using hclean) keyword (by simpa [Token.isKeyword] using hkeyword))
  · obtain ⟨semicolon,rfl,hsemicolon⟩ : ∃ t : Token, used = [t] ∧ t.kind = .symbol .semicolon := by
      simpa using h
    exact Reads.pure fun _ => .noStart hsemicolon

theorem reads_parameters : ∀ n c count, c.rest.length < n →
    Reads c (fun extra used _ ps => extra = [] → Derives .parameters used ps ∧ count + ps.length ≤ 8)
      (parameters n count c) := by
  intro n
  induction n with
  | zero => intro c count hn; exact absurd hn (Nat.not_lt_zero _)
  | succ n ih =>
    intro c count hn
    rw [parameters]
    refine Reads.bind (reads_checkCount _ _) ?_
    rintro extra₁ _ _ d hd ⟨rfl,hcount⟩
    refine Reads.bind (reads_expectName _) ?_
    rintro _ _ first d₂ hd₂ ⟨rfl,rfl,hfirst⟩
    refine Reads.bind (reads_acceptSymbol _) ?_
    rintro _ used (_ | _) d₃ hd₃ ⟨rfl,h⟩
    · obtain rfl : used = [] := by simpa using h
      refine Reads.pure fun hclean => ⟨.lastParameter hfirst,?_⟩
      have := hcount (by simpa using hclean)
      simp only [List.length_singleton]
      omega
    · obtain ⟨comma,rfl,hcomma⟩ : ∃ t : Token, used = [t] ∧ t.kind = .symbol .comma := by simpa using h
      have hlen : d₃.rest.length + 2 = c.rest.length := by simp [hd,hd₂,hd₃]
      refine Reads.bind (ih d₃ (count + 1) (by omega)) ?_
      rintro extra₄ us ps d₄ - hps
      refine Reads.pure fun hclean => ?_
      obtain ⟨rfl,rfl⟩ : extra₄ = [] ∧ extra₁ = [] := by simpa using hclean
      refine ⟨by simpa using Derives.moreParameters hfirst hcomma (hps rfl).1,?_⟩
      have := (hps rfl).2
      simp only [List.length_cons]
      omega

/-- Recovery drops tokens from the front, and at least one if there is any. -/
theorem synchronize_suffix (ts : List Token) :
    ∃ dropped, ts = dropped ++ synchronize ts ∧ (ts ≠ [] → dropped ≠ []) := by
  fun_induction synchronize ts with
  | case1 => exact ⟨[],rfl,by simp⟩
  | case2 t rest _ => exact ⟨[t],rfl,by simp⟩
  | case3 t _ => exact ⟨[t],rfl,by simp⟩
  | case4 t _ next rest _ => exact ⟨[t],rfl,by simp⟩
  | case5 t _ next rest _ ih =>
    obtain ⟨dropped,hd,-⟩ := ih
    exact ⟨t :: dropped,by rw [List.cons_append,← hd],by simp⟩

/-- A statement that fails leaves a report behind. -/
theorem reads_recovering {c : Cursor} {p : Parse Stmt} (hc : c.rest ≠ [])
    {Q : List ParseFault → List Token → List Token → Stmt → Prop}
    (hp : Reads c (fun extra used rest s => used ≠ [] ∧ Q extra used rest s) (p c)) :
    Reads c (fun extra used rest r => used ≠ [] ∧
      match r with
      | some s => Q extra used rest s
      | none => extra ≠ []) (recovering p c) := by
  unfold recovering
  cases hr : p c with
  | ok s d => rw [hr] at hp; exact hp
  | error e d =>
    rw [hr] at hp
    cases e with
    | exhausted => exact hp
    | failed =>
      obtain ⟨extra,used,hrest,hfaults,hne⟩ := hp
      obtain ⟨dropped,hd,hdropped⟩ := synchronize_suffix d.rest
      have hsplit : c.rest = (used ++ dropped) ++ synchronize d.rest := by
        rw [hrest,List.append_assoc,← hd]
      refine ⟨extra,used ++ dropped,hsplit,hfaults,?_,hne⟩
      intro h
      obtain ⟨rfl,rfl⟩ := List.append_eq_nil_iff.mp h
      by_cases hd0 : d.rest = []
      · exact hc (by rw [hrest,hd0]; rfl)
      · exact hdropped hd0 rfl

/-- Whether the next token is an `else`. -/
def AtElse (rest : List Token) : Prop := ∃ t ∈ rest.head?, t.kind = .keyword .else_

/-- A statement was read, and no `else` that it could take is left. -/
def FormsStatement (extra : List ParseFault) (used rest : List Token) (s : Stmt) : Prop :=
  used ≠ [] ∧ (extra = [] → ∃ dangling, Derives (.statement dangling) used s ∧
    (dangling = true → ¬ AtElse rest))

/-- Declarations were read up to and with a closing brace. -/
def FormsBody (extra : List ParseFault) (used _rest : List Token) (body : List Stmt) : Prop :=
  extra = [] → ∃ ts closing, used = ts ++ [closing] ∧ closing.kind = .symbol .rightBrace ∧
    Derives .declarations ts body

theorem reads_printStatement {n : Nat} {c : Cursor} {keyword : Token}
    (hkeyword : keyword.kind = .keyword .print) (hn : 3 * c.rest.length + 3 ≤ n) :
    Reads c (fun extra used rest s => FormsStatement extra (keyword :: used) rest s)
      (printStatement n c) := by
  refine Reads.bind (reads_expression n c hn) ?_
  rintro extra ts value d - ⟨-,hvalue⟩
  refine Reads.bind (reads_expectSymbol _ _) ?_
  rintro _ _ semicolon d' - ⟨rfl,rfl,hsemicolon⟩
  refine Reads.pure ⟨by simp,fun hclean => ⟨false,?_,by simp⟩⟩
  simpa using Derives.printStatement hkeyword (hvalue (by simpa using hclean)) hsemicolon

theorem reads_returnStatement {n : Nat} {c : Cursor} {keyword : Token}
    (hkeyword : keyword.kind = .keyword .return_) (hn : 3 * c.rest.length + 3 ≤ n) :
    Reads c (fun extra used rest s => FormsStatement extra (keyword :: used) rest s)
      (returnStatement n keyword c) := by
  refine Reads.bind (reads_optionalExpression _ hn) ?_
  rintro extra ts value d - hvalue
  refine Reads.bind (reads_expectSymbol _ _) ?_
  rintro _ _ semicolon d' - ⟨rfl,rfl,hsemicolon⟩
  refine Reads.pure ⟨by simp,fun hclean => ⟨false,?_,by simp⟩⟩
  simpa using Derives.returnStatement hkeyword (hvalue (by simpa using hclean)) hsemicolon

section Compound

-- The statements inside a compound statement are read by `body`, which is right on fewer tokens.
variable {n : Nat} {c : Cursor} {body : Parse Stmt}
variable (hbody : ∀ d : Cursor, d.rest.length < c.rest.length → Reads d FormsStatement (body d))
include hbody

theorem reads_whileStatement {keyword : Token} (hkeyword : keyword.kind = .keyword .while_)
    (hn : 3 * c.rest.length + 3 ≤ n) :
    Reads c (fun extra used rest s => FormsStatement extra (keyword :: used) rest s)
      (whileStatement n body c) := by
  refine Reads.bind (reads_expectSymbol _ _) ?_
  rintro _ _ opening d₁ hd₁ ⟨rfl,rfl,hopening⟩
  have hlen₁ : d₁.rest.length + 1 = c.rest.length := by simp [hd₁]
  refine Reads.bind (reads_expression n d₁ (by omega)) ?_
  rintro extra₂ ts condition d₂ hd₂ ⟨-,hcondition⟩
  refine Reads.bind (reads_expectSymbol _ _) ?_
  rintro _ _ closing d₃ hd₃ ⟨rfl,rfl,hclosing⟩
  have hlen₃ : d₃.rest.length ≤ d₁.rest.length := by simp [hd₂,hd₃]; omega
  refine Reads.bind (hbody d₃ (by omega)) ?_
  rintro extra₄ us s d₄ - ⟨-,hs⟩
  refine Reads.pure ⟨by simp,fun hclean => ?_⟩
  obtain ⟨rfl,rfl⟩ : extra₄ = [] ∧ extra₂ = [] := by simpa using hclean
  obtain ⟨dangling,hs,helse⟩ := hs rfl
  refine ⟨dangling,?_,helse⟩
  simpa using Derives.whileStatement hkeyword hopening (hcondition rfl) hclosing hs

theorem reads_forStatement {keyword : Token} (hkeyword : keyword.kind = .keyword .for_)
    (hn : 3 * c.rest.length + 3 ≤ n) :
    Reads c (fun extra used rest s => FormsStatement extra (keyword :: used) rest s)
      (forStatement n body c) := by
  refine Reads.bind (reads_expectSymbol _ _) ?_
  rintro _ _ opening d₁ hd₁ ⟨rfl,rfl,hopening⟩
  have hlen₁ : d₁.rest.length + 1 = c.rest.length := by simp [hd₁]
  refine Reads.bind (reads_forStart (by omega)) ?_
  rintro extra₂ ts start d₂ hd₂ hstart
  have hlen₂ : d₂.rest.length ≤ d₁.rest.length := by simp [hd₂]
  refine Reads.bind (reads_optionalExpression _ (by omega)) ?_
  rintro extra₃ us condition d₃ hd₃ hcondition
  refine Reads.bind (reads_expectSymbol _ _) ?_
  rintro _ _ semicolon d₄ hd₄ ⟨rfl,rfl,hsemicolon⟩
  have hlen₄ : d₄.rest.length ≤ d₂.rest.length := by simp [hd₃,hd₄]; omega
  refine Reads.bind (reads_optionalExpression _ (by omega)) ?_
  rintro extra₅ vs step d₅ hd₅ hstep
  refine Reads.bind (reads_expectSymbol _ _) ?_
  rintro _ _ closing d₆ hd₆ ⟨rfl,rfl,hclosing⟩
  have hlen₆ : d₆.rest.length ≤ d₄.rest.length := by simp [hd₅,hd₆]; omega
  refine Reads.bind (hbody d₆ (by omega)) ?_
  rintro extra₇ ws s d₇ - ⟨-,hs⟩
  refine Reads.pure ⟨by simp,fun hclean => ?_⟩
  obtain ⟨rfl,rfl,rfl,rfl⟩ : extra₇ = [] ∧ extra₅ = [] ∧ extra₃ = [] ∧ extra₂ = [] := by
    simpa [and_assoc] using hclean
  obtain ⟨dangling,hs,helse⟩ := hs rfl
  refine ⟨dangling,?_,helse⟩
  rw [counting_eq]
  simpa using Derives.forStatement hkeyword hopening (hstart rfl) (hcondition rfl) hsemicolon
    (hstep rfl) hclosing hs

theorem reads_ifStatement {keyword : Token} (hkeyword : keyword.kind = .keyword .if_)
    (hn : 3 * c.rest.length + 3 ≤ n) :
    Reads c (fun extra used rest s => FormsStatement extra (keyword :: used) rest s)
      (ifStatement n body c) := by
  refine Reads.bind (reads_expectSymbol _ _) ?_
  rintro _ _ opening d₁ hd₁ ⟨rfl,rfl,hopening⟩
  have hlen₁ : d₁.rest.length + 1 = c.rest.length := by simp [hd₁]
  refine Reads.bind (reads_expression n d₁ (by omega)) ?_
  rintro extra₂ ts condition d₂ hd₂ ⟨-,hcondition⟩
  refine Reads.bind (reads_expectSymbol _ _) ?_
  rintro _ _ closing d₃ hd₃ ⟨rfl,rfl,hclosing⟩
  have hlen₃ : d₃.rest.length ≤ d₁.rest.length := by simp [hd₂,hd₃]; omega
  refine Reads.bind (hbody d₃ (by omega)) ?_
  rintro extra₄ us thenBranch d₄ hd₄ ⟨-,hthen⟩
  have hlen₄ : d₄.rest.length ≤ d₃.rest.length := by simp [hd₄]
  refine Reads.bind (reads_after? fun t d _ hd => hbody d ?_) ?_
  · have : d.rest.length + 1 = d₄.rest.length := by simp [hd]
    omega
  rintro extra₅ used elseBranch d₅ hd₅ helse
  refine Reads.pure ⟨by simp,fun hclean => ?_⟩
  obtain ⟨rfl,rfl,rfl⟩ : extra₅ = [] ∧ extra₄ = [] ∧ extra₂ = [] := by
    simpa [and_assoc] using hclean
  obtain ⟨dangling,hthen,hnotElse⟩ := hthen rfl
  cases elseBranch with
  | none =>
    obtain ⟨-,rfl,hnone⟩ := helse
    refine ⟨true,by simpa using Derives.ifStatement hkeyword hopening (hcondition rfl) hclosing hthen,?_⟩
    rintro - ⟨t,ht,helse⟩
    simpa [Token.isKeyword,helse] using hnone t ht
  | some other =>
    obtain ⟨otherwise,vs,rfl,hotherwise,-,hother⟩ := helse
    have hotherwise : otherwise.kind = .keyword .else_ := by
      simpa [Token.isKeyword] using hotherwise
    -- A branch that still could take the `else` would have read it.
    have hclosed : dangling = false := by
      cases dangling with
      | false => rfl
      | true => exact absurd ⟨otherwise,by simp [hd₅],hotherwise⟩ (hnotElse rfl)
    subst hclosed
    obtain ⟨dangling,hother,hrest⟩ := hother rfl
    refine ⟨dangling,?_,hrest⟩
    simpa using Derives.ifElseStatement hkeyword hopening (hcondition rfl) hclosing hthen hotherwise
      hother

end Compound

mutual

theorem reads_declaration : ∀ n c, 3 * c.rest.length + 5 ≤ n →
    Reads c (Forms .declaration) (declaration n c)
  | 0, _, hn => absurd hn (by omega)
  | n + 1, c, hn => by
    rw [declaration]
    refine Reads.bind (reads_accept _) ?_
    rintro _ used (_ | t) d hd ⟨rfl,h⟩
    · obtain ⟨rfl,-⟩ := h
      have hlen : d.rest.length = c.rest.length := by simp [hd]
      refine (reads_statement n d (by omega)).mono ?_
      rintro extra used rest s ⟨hne,hs⟩
      refine ⟨by simpa using hne,?_⟩
      intro hclean
      obtain ⟨dangling,hs,-⟩ := hs (by simpa using hclean)
      exact .statement hs
    · obtain ⟨rfl,ht⟩ := h
      have hlen : d.rest.length + 1 = c.rest.length := by simp [hd]
      simp only [Token.isKeyword,Bool.or_eq_true,decide_eq_true_eq] at ht
      by_cases hclass : t.isKeyword .class_ = true
      · simp only [hclass,if_true]
        refine (reads_classDeclaration n d (by omega)).mono ?_
        intro extra used rest s hs
        refine ⟨by simp,fun hclean => ?_⟩
        exact hs (by simpa using hclean) t (by simpa [Token.isKeyword] using hclass)
      · simp only [hclass]
        by_cases hfun : t.isKeyword .fun_ = true
        · simp only [hfun,if_true]
          refine (reads_function n d .function (by omega)).map ?_
          intro extra used rest decl hdecl
          refine ⟨by simp,fun hclean => ?_⟩
          exact .namedFunction (by simpa [Token.isKeyword] using hfun) (hdecl.2 (by simpa using hclean))
        · simp only [hfun]
          have hvar : t.kind = .keyword .var := by
            simp only [Token.isKeyword,decide_eq_true_eq] at hclass hfun
            simpa [hclass,hfun] using ht
          refine (reads_variableDeclaration (by omega)).mono ?_
          intro extra used rest s hs
          exact ⟨by simp,fun hclean => .variable_ (hs (by simpa using hclean) t hvar)⟩

theorem reads_classDeclaration : ∀ n c, 3 * c.rest.length + 1 ≤ n →
    Reads c (fun extra used _ s => extra = [] → ∀ keyword : Token, keyword.kind = .keyword .class_ →
      Derives .declaration (keyword :: used) s) (classDeclaration n c)
  | 0, _, hn => absurd hn (by omega)
  | n + 1, c, hn => by
    rw [classDeclaration]
    refine Reads.bind (reads_expectName _) ?_
    rintro _ _ name d hd ⟨rfl,rfl,hname⟩
    refine Reads.bind (reads_after? fun t d' _ _ => reads_expectName _) ?_
    rintro extra₁ used superclass d₁ hd₁ hsuper
    refine Reads.bind (reads_expectSymbol _ _) ?_
    rintro _ _ opening d₂ hd₂ ⟨rfl,rfl,hopening⟩
    have hlen : d₂.rest.length + 2 ≤ c.rest.length := by simp [hd,hd₁,hd₂]
    refine Reads.bind (reads_methods n d₂ (by omega)) ?_
    rintro extra₃ ts methods d₃ - hmethods
    refine Reads.bind (reads_expectSymbol _ _) ?_
    rintro _ _ closing d₄ - ⟨rfl,rfl,hclosing⟩
    refine Reads.pure fun hclean keyword hkeyword => ?_
    obtain ⟨rfl,rfl⟩ : extra₃ = [] ∧ extra₁ = [] := by simpa using hclean
    cases superclass with
    | none =>
      obtain ⟨-,rfl,-⟩ := hsuper
      simpa using Derives.plainClass hkeyword hname hopening (hmethods rfl) hclosing
    | some parent =>
      obtain ⟨less,us,rfl,hless,-,rfl,hparent⟩ := hsuper
      have hless : less.kind = .symbol .less := by simpa [Token.isSymbol] using hless
      simpa using Derives.derivedClass hkeyword hname hless hparent hopening (hmethods rfl) hclosing

theorem reads_methods : ∀ n c, 3 * c.rest.length + 2 ≤ n →
    Reads c (fun extra used _ decls => extra = [] → Derives .functions used decls) (methods n c)
  | 0, _, hn => absurd hn (by omega)
  | n + 1, c, hn => by
    rw [methods]
    refine Reads.peek ?_
    cases hc : c.rest with
    | nil => exact Reads.pure fun _ => .noFunctions
    | cons t rest =>
      simp only [List.head?_cons]
      split
      · exact Reads.pure fun _ => .noFunctions
      · refine Reads.bind (reads_function n c .method (by omega)) ?_
        rintro extra₁ ts first d hd ⟨hne,hfirst⟩
        have hpos : 0 < ts.length := List.length_pos_iff.mpr hne
        have hlen : ts.length + d.rest.length = c.rest.length := by rw [hd,List.length_append]
        refine Reads.bind (reads_methods n d (by omega)) ?_
        rintro extra₂ us rest d' - hrest
        refine Reads.pure fun hclean => ?_
        obtain ⟨rfl,rfl⟩ : extra₂ = [] ∧ extra₁ = [] := by simpa using hclean
        simpa using Derives.moreFunctions (hfirst rfl) (hrest rfl)

theorem reads_function : ∀ n c role, 3 * c.rest.length + 1 ≤ n →
    Reads c (Forms .function) (function n role c)
  | 0, _, _, hn => absurd hn (by omega)
  | n + 1, c, role, hn => by
    rw [function]
    refine Reads.bind (reads_expectName _) ?_
    rintro _ _ name d hd ⟨rfl,rfl,hname⟩
    refine Reads.bind (reads_expectSymbol _ _) ?_
    rintro _ _ opening d₁ hd₁ ⟨rfl,rfl,hopening⟩
    have hlen₁ : d₁.rest.length + 2 = c.rest.length := by simp [hd,hd₁]
    refine Reads.bind (reads_unlessAt (reads_parameters n d₁ 0 (by omega))) ?_
    rintro extra₂ ts params d₂ hd₂ hparams
    refine Reads.bind (reads_expectSymbol _ _) ?_
    rintro _ _ closing d₃ hd₃ ⟨rfl,rfl,hclosing⟩
    refine Reads.bind (reads_expectSymbol _ _) ?_
    rintro _ _ openBrace d₄ hd₄ ⟨rfl,rfl,hopenBrace⟩
    have hlen₄ : d₄.rest.length + 2 ≤ d₁.rest.length := by simp [hd₂,hd₃,hd₄]
    refine Reads.bind (reads_block n d₄ (by omega)) ?_
    rintro extra₅ us body d₅ - hbody
    refine Reads.pure ⟨by simp,fun hclean => ?_⟩
    obtain ⟨rfl,rfl⟩ : extra₅ = [] ∧ extra₂ = [] := by simpa using hclean
    have hlist : Derives .parameterList ts params := by
      rcases hparams with ⟨-,rfl,rfl⟩ | hparams
      · exact .noParameters
      · exact .someParameters (hparams rfl).1 (by simpa using (hparams rfl).2)
    obtain ⟨vs,closeBrace,rfl,hcloseBrace,hbody⟩ := hbody rfl
    simpa using Derives.function hname hopening hlist hclosing hopenBrace hbody hcloseBrace

theorem reads_block : ∀ n c, 3 * c.rest.length + 6 ≤ n → Reads c FormsBody (block n c)
  | 0, _, hn => absurd hn (by omega)
  | n + 1, c, hn => by
    rw [block]
    refine Reads.peek ?_
    cases hc : c.rest with
    | nil => exact reads_fail
    | cons t rest =>
      simp only [List.head?_cons]
      split
      · next ht =>
        refine Reads.advance hc (Reads.pure fun _ => ?_)
        exact ⟨[],t,rfl,by simpa [Token.isSymbol] using ht,.noDeclarations⟩
      · refine Reads.bind (reads_recovering (by simp [hc]) (reads_declaration n c (by omega))) ?_
        rintro extra₁ ts first d hd ⟨hne,hfirst⟩
        have hpos : 0 < ts.length := List.length_pos_iff.mpr hne
        have hlen : ts.length + d.rest.length = c.rest.length := by rw [hd,List.length_append]
        refine Reads.bind (reads_block n d (by omega)) ?_
        rintro extra₂ us rest d' - hrest
        refine Reads.pure fun hclean => ?_
        obtain ⟨rfl,rfl⟩ : extra₂ = [] ∧ extra₁ = [] := by simpa using hclean
        obtain ⟨vs,closing,rfl,hclosing,hrest⟩ := hrest rfl
        cases first with
        | none => exact absurd rfl hfirst
        | some s =>
          refine ⟨ts ++ vs,closing,by simp,hclosing,?_⟩
          simpa using Derives.moreDeclarations (hfirst rfl) hrest

theorem reads_statement : ∀ n c, 3 * c.rest.length + 4 ≤ n →
    Reads c FormsStatement (statement n c)
  | 0, _, hn => absurd hn (by omega)
  | n + 1, c, hn => by
    rw [statement]
    refine Reads.peek ?_
    have hplain : Reads c FormsStatement (expressionStatement n c) := by
      refine (reads_expressionStatement (by omega)).mono ?_
      rintro extra used rest s ⟨hne,hs⟩
      exact ⟨hne,fun hclean => ⟨false,.plainStatement (hs hclean),by simp⟩⟩
    cases hc : c.rest with
    | nil => exact hplain
    | cons t rest =>
      simp only [List.head?_cons]
      have hlen : rest.length + 1 = c.rest.length := by simp [hc]
      cases hk : t.kind with
      | symbol s =>
        cases s with
        | leftBrace =>
          refine Reads.advance hc (Reads.bind (reads_block n _ (by dsimp only; omega)) ?_)
          rintro extra ts body d - hbody
          refine Reads.pure ⟨by simp,fun hclean => ?_⟩
          obtain ⟨us,closing,rfl,hclosing,hbody⟩ := hbody (by simpa using hclean)
          exact ⟨false,by simpa using Derives.blockStatement hk hbody hclosing,by simp⟩
        | _ => exact hplain
      | keyword k =>
        cases k with
        | for_ =>
          exact Reads.advance hc (reads_forStatement
            (fun d hd => reads_statement n d (by dsimp only at hd; omega)) hk (by dsimp only; omega))
        | if_ =>
          exact Reads.advance hc (reads_ifStatement
            (fun d hd => reads_statement n d (by dsimp only at hd; omega)) hk (by dsimp only; omega))
        | while_ =>
          exact Reads.advance hc (reads_whileStatement
            (fun d hd => reads_statement n d (by dsimp only at hd; omega)) hk (by dsimp only; omega))
        | print => exact Reads.advance hc (reads_printStatement hk (by dsimp only; omega))
        | return_ => exact Reads.advance hc (reads_returnStatement hk (by dsimp only; omega))
        | _ => exact hplain
      | _ => exact hplain

end

theorem reads_program : ∀ n c, 3 * c.rest.length + 6 ≤ n →
    Reads c (fun extra used rest program => rest = [] ∧ (extra = [] → IsProgram used program))
      (Parse.program n c) := by
  intro n
  induction n with
  | zero => intro c hn; exact absurd hn (by omega)
  | succ n ih =>
    intro c hn
    rw [Parse.program]
    refine Reads.peek ?_
    cases hc : c.rest with
    | nil => exact Reads.pure ⟨hc,fun _ => .noDeclarations⟩
    | cons t rest =>
      refine Reads.bind (reads_recovering (by simp [hc]) (reads_declaration n c (by omega))) ?_
      rintro extra₁ ts first d hd ⟨hne,hfirst⟩
      have hpos : 0 < ts.length := List.length_pos_iff.mpr hne
      have hlen : ts.length + d.rest.length = c.rest.length := by rw [hd,List.length_append]
      refine Reads.bind (ih d (by omega)) ?_
      rintro extra₂ us rest d' - ⟨hend,hrest⟩
      refine Reads.pure ⟨hend,fun hclean => ?_⟩
      obtain ⟨rfl,rfl⟩ : extra₂ = [] ∧ extra₁ = [] := by simpa using hclean
      cases first with
      | none => exact absurd rfl hfirst
      | some s => simpa [IsProgram] using Derives.moreDeclarations (hfirst rfl) (hrest rfl)

/-- What is parsed without a report is a program of the grammar. -/
theorem isProgram_of_parse {tokens : List Token} (h : (parse tokens).faults = []) :
    IsProgram tokens (parse tokens).statements := by
  have hr := reads_program (budget tokens) ⟨tokens,[]⟩ (by simp only [budget]; omega)
  unfold parse at h ⊢
  cases hp : Parse.program (budget tokens) (⟨tokens,[]⟩ : Cursor) with
  | ok program d =>
    rw [hp] at hr
    obtain ⟨extra,used,hrest,hfaults,hend,hprogram⟩ := hr
    rw [hp] at h
    have hextra : extra = [] := by simpa [hfaults] using h
    rw [hend,List.append_nil] at hrest
    have htokens : tokens = used := hrest
    rw [htokens]
    exact hprogram hextra
  | error e d =>
    rw [hp] at hr h
    cases e with
    | exhausted => exact hr.elim
    | failed =>
      obtain ⟨extra,used,-,hfaults,hne⟩ := hr
      exact absurd (by simpa [hfaults] using h) hne

end Scriptlet.Grammar
