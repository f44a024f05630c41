import Scriptlet.Proofs.Grammar.Reading
import Scriptlet.Proofs.Grammar.Usage
import Scriptlet.Proofs.Histories
import Scriptlet.Proofs.Scoping.Resolved

/-! # Sources are regular

What scanning and the grammar guarantee about a tree before it is resolved. The words `this` and
`super` never are names, so they stand in their own places only; no branch and no body of a loop is
a declaration; and each token of the source is the name of at most one node, so that the places of
tokens tell the nodes apart.
-/
namespace Scriptlet

/-! ## Words -/

/-- Words have the kind that their text asks for. -/
structure Token.Genuine (t : Token) : Prop where
  name : t.kind = .identifier → Keyword.ofText? t.lexeme = none
  keyword : ∀ k, t.kind = .keyword k → t.lexeme = k.text

theorem Token.Genuine.isPlain {t : Token} (h : t.Genuine) (hname : t.kind = .identifier) :
    IsPlain t.lexeme := by
  have hnone := h.name hname
  simp only [Keyword.ofText?,List.find?_eq_none] at hnone
  refine ⟨fun heq => ?_,fun heq => ?_⟩
  · exact hnone .this_ (by decide) (beq_iff_eq.2 heq.symm)
  · exact hnone .super (by decide) (beq_iff_eq.2 heq.symm)

/-- What a segment says about the word it may be. -/
def Segment.IsGenuine : Segment → Prop
  | .token kind lexeme => ∀ line index, Token.Genuine ⟨kind,lexeme,line,index⟩
  | _ => True

/-- Tokens that are no words are genuine. -/
theorem Segment.isGenuine_token {kind : Kind} {lexeme : Bytes} (hname : kind ≠ .identifier)
    (hkeyword : ∀ k, kind ≠ .keyword k) : (Segment.token kind lexeme).IsGenuine :=
  fun _ _ => ⟨fun h => absurd h hname,fun k h => absurd h (hkeyword k)⟩

theorem Segment.isGenuine_number (input : Bytes) : (Segment.number input).1.IsGenuine := by
  have hinteger : ∀ digits, (Segment.integer digits).IsGenuine := by
    intro digits
    unfold Segment.integer
    split
    · exact isGenuine_token (by simp) (by simp)
    · trivial
  simp only [Segment.number]
  split
  · split
    · exact hinteger _
    · simp only [Segment.float]
      split
      · trivial
      · exact isGenuine_token (by simp) (by simp)
  · exact hinteger _

theorem Segment.isGenuine_word (input : Bytes) : (Segment.word input).1.IsGenuine := by
  intro line index
  cases h : Keyword.ofText? (input.takeWhile isWordByte) with
  | none => exact ⟨fun _ => h,by simp⟩
  | some k =>
    have htext : (k.text == input.takeWhile isWordByte) = true :=
      List.find?_some (p := fun k : Keyword => k.text == input.takeWhile isWordByte) h
    refine ⟨by simp [h],fun k' hk => ?_⟩
    obtain rfl : k = k' := by simpa [h] using hk
    exact (beq_iff_eq.1 htext).symm

theorem Segment.isGenuine_next (b : UInt8) (rest : Bytes) : (Segment.next b rest).1.IsGenuine := by
  unfold Segment.next
  split
  · trivial
  split
  · unfold Segment.string
    split
    · trivial
    · exact isGenuine_token (by simp) (by simp)
  split
  · exact isGenuine_number _
  split
  · exact isGenuine_word _
  · unfold Segment.punctuation
    split
    · trivial
    · unfold Segment.symbol
      split
      · trivial
      · split <;> exact isGenuine_token (by simp) (by simp)

theorem isGenuine_segments (source : Bytes) : ∀ s ∈ segments source, s.IsGenuine := by
  fun_induction segments source with
  | case1 => simp
  | case2 b rest ih => exact List.forall_mem_cons.2 ⟨Segment.isGenuine_next b rest,ih⟩

/-! ## Places -/

theorem genuine_locate {line index : Nat} {segments : List Segment}
    (h : ∀ s ∈ segments, s.IsGenuine) : ∀ t ∈ (locate line index segments).tokens, t.Genuine := by
  induction segments generalizing line index with
  | nil => simp [locate]
  | cons s rest ih =>
    obtain ⟨hs,hrest⟩ := List.forall_mem_cons.1 h
    cases s with
    | token kind lexeme => exact List.forall_mem_cons.2 ⟨hs _ _,ih hrest⟩
    | _ => exact ih hrest

/-- The tokens of a source take consecutive places. -/
theorem index_locate (line index : Nat) (segments : List Segment) :
    (locate line index segments).tokens.map Token.index =
      List.range' index (locate line index segments).tokens.length := by
  induction segments generalizing line index with
  | nil => rfl
  | cons s rest ih =>
    cases s with
    | token kind lexeme => simp [locate,ih,List.range'_succ]
    | _ => exact ih _ _

theorem genuine_scanFrom (index : Nat) (source : Bytes) :
    ∀ t ∈ (scanFrom index source).tokens, t.Genuine :=
  genuine_locate (isGenuine_segments source)

/-! ## Trees -/

namespace Grammar

/-- The trees of a phrase that hold `this` and `super` in their own places only. -/
def Phrase.IsRegular : (phrase : Phrase) → phrase.Tree → Prop
  | .declarations, ss => Stmt.AllRegular ss
  | .declaration, s | .variableDeclaration, s => s.Regular
  | .expressionStatement, s | .statement _, s => s.declared? = none ∧ s.Regular
  | .function, decl => decl.Regular
  | .functions, decls => FunctionDecl.AllRegular decls
  | .parameters, params | .parameterList, params => ∀ p ∈ params, IsPlain p.lexeme
  | .loopStart, start => ∀ s ∈ start, s.Regular
  | .optionalExpression, value => ∀ e ∈ value, e.Regular
  | .expression, e | .operation _, e | .call, e | .primary, e => e.Regular
  | .arguments, es | .argumentList, es => Expr.AllRegular es

theorem regular_counting {start : Option Stmt} {condition step : Option Expr} {body : Stmt}
    (hstart : ∀ s ∈ start, s.Regular) (hcondition : ∀ e ∈ condition, e.Regular)
    (hstep : ∀ e ∈ step, e.Regular) (hbody : body.declared? = none ∧ body.Regular) :
    (Stmt.counting start condition step body).declared? = none ∧
      (Stmt.counting start condition step body).Regular := by
  have htest : (condition.getD (.literal (.bool true))).Regular := by
    cases condition with
    | none => trivial
    | some e => exact hcondition e rfl
  have hround : ∀ round : Stmt, round.declared? = none ∧ round.Regular →
      (Stmt.while_ (condition.getD (.literal (.bool true))) round).Regular :=
    fun round h => ⟨htest,h⟩
  cases step with
  | none =>
    cases start with
    | none => exact ⟨rfl,hround body hbody⟩
    | some s => exact ⟨rfl,hstart s rfl,hround body hbody,trivial⟩
  | some e =>
    have hblock := hround (.block [body,.expression e]) ⟨rfl,hbody.2,hstep e rfl,trivial⟩
    cases start with
    | none => exact ⟨rfl,hblock⟩
    | some s => exact ⟨rfl,hstart s rfl,hblock,trivial⟩

theorem Derives.regular {phrase : Phrase} {ts : List Token} {tree : phrase.Tree}
    (h : Derives phrase ts tree) (hts : ∀ t ∈ ts, t.Genuine) : phrase.IsRegular tree := by
  induction h with
  | noDeclarations | noFunctions | noArguments | literal => trivial
  | noParameters | noStart | noExpression => simp [Phrase.IsRegular]
  | moreDeclarations _ _ ih ihrest | moreFunctions _ _ ih ihrest =>
    exact ⟨ih (by grind),ihrest (by grind)⟩
  | plainClass _ hn _ _ _ ih => exact ⟨(hts _ (by simp)).isPlain hn,by simp,ih (by grind)⟩
  | derivedClass _ hn _ hp _ _ _ ih =>
    refine ⟨(hts _ (by simp)).isPlain hn,?_,ih (by grind)⟩
    simpa using (hts _ (by simp)).isPlain hp
  | namedFunction _ _ ih => exact ih (by grind)
  | variable_ _ ih => exact ih hts
  | statement _ ih => exact (ih hts).2
  | function hn _ _ _ _ _ _ ihp ihb =>
    exact ⟨(hts _ (by simp)).isPlain hn,ihp (by grind),ihb (by grind)⟩
  | someParameters _ _ ih | operation _ ih | operand _ _ ih | call _ ih | primary _ ih => exact ih hts
  | lastParameter hn => simpa [Phrase.IsRegular] using (hts _ (by simp)).isPlain hn
  | moreParameters hn _ _ ih =>
    exact List.forall_mem_cons.2 ⟨(hts _ (by simp)).isPlain hn,ih (by grind)⟩
  | bareVariable _ hn _ => exact (hts _ (by simp)).isPlain hn
  | initialVariable _ hn _ _ _ ih => exact ⟨(hts _ (by simp)).isPlain hn,ih (by grind)⟩
  | expressionStatement _ _ ih | printStatement _ _ _ ih => exact ⟨rfl,ih (by grind)⟩
  | plainStatement _ ih => exact ih hts
  | forStatement _ _ _ _ _ _ _ _ ihi ihc ihs ihb =>
    rw [← counting_eq]
    exact regular_counting (ihi (by grind)) (ihc (by grind)) (ihs (by grind)) (ihb (by grind))
  | variableStart _ ih => simpa [Phrase.IsRegular] using ih hts
  | expressionStart _ ih => simpa [Phrase.IsRegular] using (ih hts).2
  | ifStatement _ _ _ _ _ ihc iht => exact ⟨rfl,ihc (by grind),iht (by grind)⟩
  | ifElseStatement _ _ _ _ _ _ _ ihc iht ihe =>
    exact ⟨rfl,ihc (by grind),iht (by grind),ihe (by grind)⟩
  | @returnStatement _ _ _ value _ _ _ ih =>
    cases value with
    | none => exact ⟨rfl,trivial⟩
    | some value => exact ⟨rfl,ih (by grind) value rfl⟩
  | whileStatement _ _ _ _ _ ihc ihb => exact ⟨rfl,ihc (by grind),ihb (by grind)⟩
  | blockStatement _ _ _ ih => exact ⟨rfl,ih (by grind)⟩
  | someExpression _ ih => simpa [Phrase.IsRegular] using ih hts
  | assignVariable hn _ _ ih => exact ⟨ih (by grind),(hts _ (by simp)).isPlain hn⟩
  | assignProperty _ _ _ _ _ iho ihv => exact ⟨ihv (by grind),iho (by grind)⟩
  | join _ _ hnode _ ihl ihr =>
    rcases node?_eq hnode with ⟨op,rfl⟩ | ⟨op,rfl⟩ <;> exact ⟨ihl (by grind),ihr (by grind)⟩
  | leading _ _ ih => exact ih (by grind)
  | application _ _ _ _ ihf iha => exact ⟨ihf (by grind),iha (by grind)⟩
  | property _ _ _ ih => exact ih (by grind)
  | someArguments _ _ ih => exact ih hts
  | lastArgument _ ih => exact ⟨ih hts,trivial⟩
  | moreArguments _ _ _ ih ihrest => exact ⟨ih (by grind),ihrest (by grind)⟩
  | name hn => exact (hts _ (by simp)).isPlain hn
  | self hk => exact (hts _ (by simp)).keyword _ hk
  | superMethod hk _ _ => exact (hts _ (by simp)).keyword _ hk
  | grouping _ _ _ ih => exact ih (by grind)

end Grammar

/-! ## Sources -/

/-- What is known of the statements of a source before they are resolved. -/
structure Loaded.Sound (index : Nat) (loaded : Loaded) : Prop where
  regular : Stmt.AllRegular loaded.statements
  distinct : ((Stmt.allRefs loaded.statements).map Token.index).Nodup
  range : ∀ x ∈ Stmt.allRefs loaded.statements,
    index ≤ x.index ∧ x.index < index + loaded.tokens.length

theorem isProgram_of_load {index : Nat} {source : Bytes}
    (h : (load index source).diagnostics = []) :
    Grammar.IsProgram (load index source).tokens (load index source).statements := by
  have hfaults : (parse (scanFrom index source).tokens).faults = [] := by
    simpa [load] using (List.append_eq_nil_iff.1 h).2
  exact Grammar.isProgram_of_parse hfaults

theorem index_load (index : Nat) (source : Bytes) : (load index source).tokens.map Token.index =
    List.range' index (load index source).tokens.length :=
  index_locate 1 index _

theorem range_of_mem_load {index : Nat} {source : Bytes} {t : Token}
    (h : t ∈ (load index source).tokens) :
    index ≤ t.index ∧ t.index < index + (load index source).tokens.length := by
  have hrange : t.index ∈ List.range' index (load index source).tokens.length :=
    index_load index source ▸ List.mem_map_of_mem h
  simpa [List.mem_range'_1] using hrange

theorem nodup_index_load (index : Nat) (source : Bytes) :
    ((load index source).tokens.map Token.index).Nodup := by
  rw [index_load]
  exact List.nodup_range'

/-- What a node refers to is a token of the source. -/
theorem mem_load_of_mem_refs {index : Nat} {source : Bytes} {x : Token}
    (h : x ∈ Stmt.allRefs (load index source).statements) : x ∈ (load index source).tokens :=
  mem_of_mem_parse (List.mem_append_left _ h)

/-- The nodes of a source that refer to names have different places, whatever the source is. -/
theorem nodup_refs_load (index : Nat) (source : Bytes) :
    ((Stmt.allRefs (load index source).statements).map Token.index).Nodup :=
  nodup_refs_parse (nodup_index_load index source)

theorem sound_load {index : Nat} {source : Bytes} (h : (load index source).diagnostics = []) :
    (load index source).Sound index where
  regular := Grammar.Derives.regular (isProgram_of_load h) (genuine_scanFrom index source)
  distinct := nodup_refs_load index source
  range _ hx := range_of_mem_load (mem_load_of_mem_refs hx)

/-- Resolving a source changes only entries for its own places. -/
theorem resolve_load_getElem? {index i : Nat} {source : Bytes} (table : Table)
    (h : (load index source).diagnostics = [])
    (hi : i < index ∨ index + (load index source).tokens.length ≤ i) :
    (resolve table (load index source).statements).table[i]? = table[i]? := by
  refine resolve_table_getElem? fun x hx heq => ?_
  have hrange := (sound_load h).range x hx
  omega

/-! ## Places in a session -/

/-- The table has entries only for places that are taken. -/
def Session.PlacesFree (s : Session) : Prop := ∀ i, s.nextIndex ≤ i → s.table[i]? = none

theorem Session.placesFree_start (clock : Clock) : (start clock).PlacesFree :=
  fun _ _ => Std.TreeMap.getElem?_emptyc

theorem Session.PlacesFree.perform {s : Session} (h : s.PlacesFree) (r : Request) :
    (s.perform r).2.PlacesFree := by
  have hpast : ∀ i, s.nextIndex + (load s.nextIndex r.source).tokens.length ≤ i →
      s.table[i]? = none :=
    fun i hi => h i (Nat.le_trans (Nat.le_add_right _ _) hi)
  by_cases hload : (load s.nextIndex r.source).diagnostics = []
  · have hresolved : ∀ i, s.nextIndex + (load s.nextIndex r.source).tokens.length ≤ i →
        (resolve s.table (load s.nextIndex r.source).statements).table[i]? = none :=
      fun i hi => (resolve_load_getElem? s.table hload (.inr hi)).trans (hpast i hi)
    by_cases hclean : (resolve s.table (load s.nextIndex r.source).statements).faults = []
    · rw [(perform_of_resolved hload hclean).2]
      exact hresolved
    · rw [(perform_of_unresolved hload hclean).2]
      exact hresolved
  · rw [(perform_of_unreadable hload).2]
    exact hpast

end Scriptlet
