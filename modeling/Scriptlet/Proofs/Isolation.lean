import Scriptlet.Proofs.Grammar.Completeness
import Scriptlet.Proofs.Grammar.Outcomes
import Scriptlet.Proofs.Readers

/-! # Errors in simple statements

A simple statement ends with its semicolon, and so does the reading of it. Nothing behind the
semicolon is looked at before it is passed, and a statement that fails is skipped up to there, since
nothing in front of the semicolon looks like the start of a statement. So the statement is read as if
nothing followed, and what follows as if nothing stood in front.
-/
namespace Scriptlet

/-- The tokens that end a statement, open or close a block, or start a statement by their own. -/
def boundaries : List Kind :=
  [.symbol .semicolon,.symbol .leftBrace,.symbol .rightBrace,.keyword .class_,.keyword .fun_,
    .keyword .var,.keyword .for_,.keyword .if_,.keyword .while_,.keyword .print,.keyword .return_]

/-- Anything up to a semicolon, perhaps behind the keyword of a simple statement. -/
inductive IsSimple : List Token → Prop
  | led {keyword semicolon : Token} {body : List Token} :
      keyword.kind ∈ [.keyword .var,.keyword .print,.keyword .return_] →
      (∀ t ∈ body, t.kind ∉ boundaries) → semicolon.kind = .symbol .semicolon →
      IsSimple (keyword :: body ++ [semicolon])
  | bare {semicolon : Token} {body : List Token} :
      (∀ t ∈ body, t.kind ∉ boundaries) → (∀ t ∈ body.head?, t.kind ≠ .keyword .else_) →
      semicolon.kind = .symbol .semicolon → IsSimple (body ++ [semicolon])

namespace Cursor

/-- What is left to read is the same, and there are some more reports from before. -/
structure Shifted (base : List ParseFault) (c d : Cursor) : Prop where
  rest : c.rest = d.rest
  faults : c.faults = d.faults ++ base

/-- Tokens without a semicolon, and none but the first one starts a statement. -/
def Quiet (front : List Token) : Prop :=
  (∀ t ∈ front, t.kind ≠ .symbol .semicolon) ∧ ∀ t ∈ front.tail, t.opensStatement = false

/-- The same tokens are left up to the semicolon. One cursor ends there, the other one goes on. -/
structure Cut (semicolon : Token) (after : List Token) (base : List ParseFault) (c d : Cursor) :
    Prop where
  tokens : ∃ front, c.rest = front ++ semicolon :: after ∧ d.rest = front ++ [semicolon] ∧ Quiet front
  faults : c.faults = d.faults ++ base

/-- Both cursors are behind the semicolon. -/
structure Past (after : List Token) (base : List ParseFault) (c d : Cursor) : Prop where
  rest : c.rest = after
  alone : d.rest = []
  faults : c.faults = d.faults ++ base

variable {semicolon : Token} {after : List Token} {base : List ParseFault} {c d : Cursor}

theorem Quiet.tail {t : Token} {front : List Token} (h : Quiet (t :: front)) : Quiet front :=
  ⟨fun t' ht' => h.1 t' (List.mem_cons_of_mem t ht'),fun t' ht' => h.2 t' (List.mem_of_mem_tail ht')⟩

theorem reader_follows : Reader.Follows (Shifted base) where
  look h := ⟨congrArg List.head? h.rest,h⟩
  pass h _ := ⟨congrArg List.tail h.rest,h.faults⟩
  report error h := ⟨h.rest,by simp [Reader.report,h.rest,h.faults]⟩
  reportAt error token h := ⟨h.rest,by simp [Reader.reportAt,h.faults]⟩
  resume h := ⟨congrArg Parse.synchronize h.rest,h.faults⟩

theorem Cut.head? (h : Cut semicolon after base c d) : c.rest.head? = d.rest.head? := by
  obtain ⟨front,hc,hd,-⟩ := h.tokens
  rw [hc,hd]
  cases front <;> rfl

theorem reader_shows (after : List Token) (base : List ParseFault)
    (hsemicolon : semicolon.kind = .symbol .semicolon) :
    Reader.Shows (Cut semicolon after base) fun t => t.kind ≠ .symbol .semicolon where
  look h := ⟨h.head?,h⟩
  pass {c t rest faults} h ht := by
    obtain ⟨front,hc,hd,hquiet⟩ := h.tokens
    refine ⟨?_,h.faults⟩
    cases front with
    | nil =>
      obtain ⟨rfl,-⟩ : t = semicolon ∧ rest = [] := by simpa using hd
      exact absurd hsemicolon ht
    | cons t' front =>
      obtain ⟨rfl,rfl⟩ : t = t' ∧ rest = front ++ [semicolon] := by simpa using hd
      exact ⟨front,congrArg List.tail hc,rfl,hquiet.tail⟩
  report error h := ⟨h.tokens,by simp [Reader.report,h.head?,h.faults]⟩
  reportAt error token h := ⟨h.tokens,by simp [Reader.reportAt,h.faults]⟩

theorem expectSymbol_semicolon {rest : List Token} {faults : List ParseFault} {error : ParseError}
    (hsemicolon : semicolon.kind = .symbol .semicolon) :
    Parse.expectSymbol .semicolon error (⟨semicolon :: rest,faults⟩ : Cursor) =
      .ok semicolon ⟨rest,faults⟩ := by
  have haccept : Parse.accept (·.isSymbol .semicolon) (⟨semicolon :: rest,faults⟩ : Cursor) =
      .ok (some semicolon) ⟨rest,faults⟩ := Grammar.accept_some (by simp [Token.isSymbol,hsemicolon])
  change EStateM.bind _ _ _ = _
  simp only [EStateM.bind,haccept]
  rfl

/-- The semicolon is passed, or missed at the same token. -/
theorem agree_end {short : Prop} {error : ParseError} (hsemicolon : semicolon.kind = .symbol .semicolon)
    (hc : Cut semicolon after base c d) :
    Agree short (Cut semicolon after base) (Past after base)
      (Parse.expectSymbol .semicolon error c) (Parse.expectSymbol .semicolon error d) := by
  have hshows := reader_shows after base hsemicolon
  obtain ⟨front,hrest,halone,hquiet⟩ := hc.tokens
  cases front with
  | nil =>
    obtain ⟨rest,faults⟩ := c
    obtain ⟨rest',faults'⟩ := d
    obtain ⟨rfl,rfl⟩ : rest = semicolon :: after ∧ rest' = [semicolon] := ⟨hrest,halone⟩
    rw [expectSymbol_semicolon hsemicolon,expectSymbol_semicolon hsemicolon]
    exact .ok ⟨rfl,rfl,hc.faults⟩
  | cons t front =>
    refine hshows.agree_refused hc ?_ fun c hc => hshows.agree_fail hc
    simpa [halone,Token.isSymbol] using hquiet.1 t List.mem_cons_self

/-! ## Simple statements -/

/-- The keywords and braces that start a statement with others inside. -/
def compounds : List Kind :=
  [.symbol .leftBrace,.keyword .class_,.keyword .fun_,.keyword .for_,.keyword .if_,.keyword .while_]

section

variable {short : Prop} {n n' : Nat} (hsemicolon : semicolon.kind = .symbol .semicolon)
variable (hn : n < n' → short)
include hsemicolon hn

theorem agree_variableDeclaration (hc : Cut semicolon after base c d) :
    Agree short (Cut semicolon after base) (Past after base) (Parse.variableDeclaration n c)
      (Parse.variableDeclaration n' d) := by
  have hshows := reader_shows after base hsemicolon
  refine (hshows.agree_expectName (fun _ h => h) hc).bind fun name c d hc => ?_
  refine (hshows.agree_after? hc (fun t ht => ?_) fun c d hc =>
    (hshows.expressions (fun _ h => h) hn).expression c d hc).bind fun initial c d hc => ?_
  · simp [show t.kind = .symbol .equal from of_decide_eq_true ht]
  · exact (agree_end hsemicolon hc).bind fun _ _ _ hc => .ok hc

theorem agree_expressionStatement (hc : Cut semicolon after base c d) :
    Agree short (Cut semicolon after base) (Past after base) (Parse.expressionStatement n c)
      (Parse.expressionStatement n' d) :=
  (((reader_shows after base hsemicolon).expressions (fun _ h => h) hn).expression c d hc).bind
    fun _ _ _ hc => (agree_end hsemicolon hc).bind fun _ _ _ hc => .ok hc

theorem agree_printStatement (hc : Cut semicolon after base c d) :
    Agree short (Cut semicolon after base) (Past after base) (Parse.printStatement n c)
      (Parse.printStatement n' d) :=
  (((reader_shows after base hsemicolon).expressions (fun _ h => h) hn).expression c d hc).bind
    fun _ _ _ hc => (agree_end hsemicolon hc).bind fun _ _ _ hc => .ok hc

theorem agree_returnStatement {keyword : Token} (hc : Cut semicolon after base c d) :
    Agree short (Cut semicolon after base) (Past after base) (Parse.returnStatement n keyword c)
      (Parse.returnStatement n' keyword d) :=
  ((reader_shows after base hsemicolon).agree_optionalExpression (fun _ h => h) hn hc).bind
    fun _ _ _ hc => (agree_end hsemicolon hc).bind fun _ _ _ hc => .ok hc

theorem agree_statement (hc : Cut semicolon after base c d)
    (hhead : ∀ t ∈ d.rest.head?, t.kind ∉ compounds) :
    Agree short (Cut semicolon after base) (Past after base) (Parse.statement (n + 1) c)
      (Parse.statement (n' + 1) d) := by
  have hshows := reader_shows after base hsemicolon
  refine hshows.agree_peek hc fun c hc => ?_
  cases hnext : d.rest.head? with
  | none => exact agree_expressionStatement hsemicolon hn hc
  | some t =>
    have ht : t.kind ∉ compounds := hhead t hnext
    have hadvance : t.kind ≠ .symbol .semicolon →
        Agree short (Cut semicolon after base) (Cut semicolon after base) (Parse.advance c)
          (Parse.advance d) := hshows.agree_advance hc hnext
    dsimp only
    cases hkind : t.kind with
    | symbol s =>
      cases s with
      | leftBrace => simp [compounds,hkind] at ht
      | _ => exact agree_expressionStatement hsemicolon hn hc
    | keyword k =>
      cases k with
      | for_ | if_ | while_ => simp [compounds,hkind] at ht
      | print =>
        exact (hadvance (by simp [hkind])).bind fun _ _ _ hc => agree_printStatement hsemicolon hn hc
      | return_ =>
        exact (hadvance (by simp [hkind])).bind fun _ _ _ hc => agree_returnStatement hsemicolon hn hc
      | _ => exact agree_expressionStatement hsemicolon hn hc
    | _ => exact agree_expressionStatement hsemicolon hn hc

theorem agree_declaration (hc : Cut semicolon after base c d)
    (hhead : ∀ t ∈ d.rest.head?, t.kind ∉ compounds) :
    Agree short (Cut semicolon after base) (Past after base) (Parse.declaration n c)
      (Parse.declaration n' d) := by
  have hshows := reader_shows after base hsemicolon
  obtain ⟨front,-,halone,-⟩ := hc.tokens
  obtain ⟨t,rest,hrest⟩ : ∃ t rest, d.rest = t :: rest := by
    rw [halone]
    exact List.exists_cons_of_ne_nil (by simp)
  have ht : t.kind ∉ compounds := hhead t (by simp [hrest])
  match n', n with
  | 0, _ => exact .dryCursor
  | n' + 1, 0 => exact .dry (hn n'.succ_pos)
  | n' + 1, n + 1 =>
    have hn' : n < n' → short := fun hlt => hn (Nat.succ_lt_succ hlt)
    by_cases hvar : t.kind = .keyword .var
    · refine hshows.agree_taken hc hrest (by simp [Token.isKeyword,hvar]) (by simp [hvar]) fun c hc => ?_
      simp only [Token.isKeyword,hvar]
      exact agree_variableDeclaration hsemicolon hn' hc
    · refine hshows.agree_refused hc ?_ fun c hc => ?_
      · rw [hrest]
        rintro _ ⟨⟩
        simp only [compounds,List.mem_cons,not_or] at ht
        simp [Token.isKeyword,hvar,ht]
      · match n', n with
        | 0, _ => exact .dryCursor
        | n' + 1, 0 => exact .dry (hn' n'.succ_pos)
        | n' + 1, n + 1 =>
          exact agree_statement hsemicolon (fun hlt => hn' (Nat.succ_lt_succ hlt)) hc hhead

end

/-- Everything up to the semicolon is skipped. -/
theorem synchronize_quiet (hsemicolon : semicolon.kind = .symbol .semicolon) {front : List Token}
    (h : Quiet front) : Parse.synchronize (front ++ semicolon :: after) = after := by
  have hend : semicolon.isSymbol .semicolon = true := by simp [Token.isSymbol,hsemicolon]
  induction front with
  | nil => exact Parse.synchronize_semicolon hend
  | cons t front ih =>
    have ht : ¬t.isSymbol .semicolon = true := by
      simpa [Token.isSymbol] using h.1 t List.mem_cons_self
    cases front with
    | nil =>
      have hcalm : ¬semicolon.opensStatement = true := by simp [Token.opensStatement,hsemicolon]
      exact (Parse.synchronize_other ht hcalm).trans (ih h.tail)
    | cons next front =>
      have hcalm : ¬next.opensStatement = true := by simp [h.2 next (by simp)]
      exact (Parse.synchronize_other ht hcalm).trans (ih h.tail)

theorem Cut.skipped (hsemicolon : semicolon.kind = .symbol .semicolon)
    (h : Cut semicolon after base c d) :
    Past after base (Reader.resume c) { d with rest := Parse.synchronize d.rest } := by
  obtain ⟨front,hc,hd,hquiet⟩ := h.tokens
  refine ⟨?_,?_,h.faults⟩
  · change Parse.synchronize c.rest = after
    rw [hc,synchronize_quiet hsemicolon hquiet]
  · change Parse.synchronize d.rest = []
    rw [hd,synchronize_quiet hsemicolon hquiet]

end Cursor

theorem not_boundary {t : Token} (h : t.kind ∉ boundaries) :
    t.kind ≠ .symbol .semicolon ∧ t.opensStatement = false ∧ t.kind ∉ Cursor.compounds := by
  have hsub : ∀ kind ∈ Cursor.compounds, kind ∈ boundaries := by
    simp [Cursor.compounds,boundaries]
  refine ⟨fun hkind => h (by simp [boundaries,hkind]),?_,fun hmem => h (hsub t.kind hmem)⟩
  unfold Token.opensStatement
  split
  · next k hkind => cases k <;> simp_all [boundaries]
  · rfl

namespace IsSimple

variable {tokens : List Token}

/-- A simple statement can be cut off behind its semicolon. -/
theorem cut (h : IsSimple tokens) (after : List Token) (base : List ParseFault) :
    ∃ semicolon : Token, semicolon.kind = .symbol .semicolon ∧
      Cursor.Cut semicolon after base ⟨tokens ++ after,base⟩ ⟨tokens,[]⟩ := by
  cases h with
  | @led keyword semicolon body hkeyword hbody hsemicolon =>
    refine ⟨semicolon,hsemicolon,⟨keyword :: body,by simp,rfl,?_,?_⟩,rfl⟩
    · intro t ht
      rcases List.mem_cons.1 ht with rfl | ht
      · intro hkind
        simp [hkind] at hkeyword
      · exact (not_boundary (hbody t ht)).1
    · exact fun t ht => (not_boundary (hbody t ht)).2.1
  | @bare semicolon body hbody _ hsemicolon =>
    refine ⟨semicolon,hsemicolon,⟨body,by simp,rfl,?_,?_⟩,rfl⟩
    · exact fun t ht => (not_boundary (hbody t ht)).1
    · exact fun t ht => (not_boundary (hbody t (List.mem_of_mem_tail ht))).2.1

theorem head (h : IsSimple tokens) :
    ∀ t ∈ tokens.head?, t.kind ∉ Cursor.compounds ∧ t.kind ≠ .keyword .else_ := by
  cases h with
  | led hkeyword =>
    rintro t ⟨⟩
    simp only [List.mem_cons,List.not_mem_nil,or_false] at hkeyword
    rcases hkeyword with hkind | hkind | hkind <;> simp [hkind,Cursor.compounds]
  | @bare semicolon body hbody helse hsemicolon =>
    cases body with
    | nil =>
      rintro t ⟨⟩
      simp [hsemicolon,Cursor.compounds]
    | cons t body =>
      rintro _ ⟨⟩
      exact ⟨(not_boundary (hbody t List.mem_cons_self)).2.2,helse t rfl⟩

theorem ne_nil (h : IsSimple tokens) : tokens ≠ [] := by
  cases h <;> simp

end IsSimple

/-! ## The parts of a program -/

section Parts

open Parse Grammar

variable {n : Nat} {tokens after : List Token} {base : List ParseFault}

/-- A list of tokens is read the same way behind earlier reports and with more budget. -/
theorem program_shifted (base : List ParseFault) (hn : budget tokens ≤ n) :
    Parse.program n (⟨tokens,base⟩ : Cursor) =
      .ok (parse tokens).statements ⟨[],(parse tokens).faults.reverse ++ base⟩ := by
  have hbudget : 3 * tokens.length + 6 ≤ n := by simp only [budget] at hn; omega
  obtain ⟨statements,faults,hrun⟩ := program_ends (c := ⟨tokens,base⟩) hbudget
  have hagree : Agree False (Cursor.Shifted base) (Cursor.Shifted base)
      (Parse.program n (⟨tokens,base⟩ : Cursor)) (Parse.program (budget tokens) ⟨tokens,[]⟩) :=
    Cursor.reader_follows.agree_program (Nat.not_lt_of_le hn) ⟨rfl,rfl⟩
  obtain ⟨faults',hparse,hfaults'⟩ := parse_eq tokens
  rw [hrun,hparse] at hagree
  cases hagree with
  | ok h =>
    have hfaults : faults = faults' ++ base := h.faults
    rw [hrun,hfaults,hfaults',List.reverse_reverse]

/-- A simple statement is read as if nothing followed it. -/
theorem recovering_simple (base : List ParseFault) (h : IsSimple tokens)
    (hn : budget (tokens ++ after) ≤ n + 1) :
    ∃ first, recovering (declaration n) (⟨tokens ++ after,base⟩ : Cursor) =
        .ok first ⟨after,(parse tokens).faults.reverse ++ base⟩ ∧
      (parse tokens).statements = first.toList := by
  simp only [budget,List.length_append] at hn
  obtain ⟨semicolon,hsemicolon,hcut⟩ := h.cut after base
  have hhead : ∀ t ∈ tokens.head?, t.kind ∉ Cursor.compounds := fun t ht => (h.head t ht).1
  obtain ⟨first,d,-,hrun,-,-⟩ := recovering_declaration (n := n) (c := ⟨tokens ++ after,base⟩)
    (by simp [h.ne_nil]) (by simp only [List.length_append]; omega)
  obtain ⟨first',d',-,halone,-,-⟩ := recovering_declaration (n := 8 * tokens.length + 15)
    (c := ⟨tokens,[]⟩) h.ne_nil (by dsimp only; omega)
  have hdeclaration : Agree False (Cursor.Cut semicolon after base) (Cursor.Past after base)
      (declaration n (⟨tokens ++ after,base⟩ : Cursor))
      (declaration (8 * tokens.length + 15) ⟨tokens,[]⟩) :=
    Cursor.agree_declaration hsemicolon (fun hlt => by omega) hcut hhead
  have hagree := hdeclaration.recovering fun _ _ hcut => hcut.skipped hsemicolon
  rw [hrun,halone] at hagree
  cases hagree with
  | ok hpast =>
    obtain ⟨rest,faults⟩ := d
    obtain ⟨rest',faults'⟩ := d'
    obtain rfl : rest = after := hpast.rest
    obtain rfl : rest' = [] := hpast.alone
    obtain rfl : faults = faults' ++ base := hpast.faults
    have hprogram : Parse.program (budget tokens) (⟨tokens,[]⟩ : Cursor) =
        .ok first.toList ⟨[],faults'⟩ := by
      rw [budget,program_cons h.ne_nil]
      change EStateM.bind _ _ _ = _
      simp only [EStateM.bind,halone]
      change EStateM.Result.ok (first.toList ++ []) _ = _
      rw [List.append_nil]
    have hparse : parse tokens = ⟨first.toList,faults'.reverse⟩ := by
      simp [parse,hprogram]
    exact ⟨first,by rw [hrun,hparse,List.reverse_reverse],by rw [hparse]⟩

/-- A simple statement and what follows it are read one after the other. -/
theorem program_simple (base : List ParseFault) (h : IsSimple tokens)
    (hn : budget (tokens ++ after) ≤ n) :
    Parse.program n (⟨tokens ++ after,base⟩ : Cursor) =
      .ok ((parse tokens).statements ++ (parse after).statements)
        ⟨[],(parse after).faults.reverse ++ ((parse tokens).faults.reverse ++ base)⟩ := by
  have hpos : 0 < tokens.length := List.length_pos_iff.2 h.ne_nil
  have hbudget : 8 * (tokens.length + after.length) + 16 ≤ n := by simpa [budget] using hn
  obtain ⟨n,rfl⟩ : ∃ m, n = m + 1 := ⟨n - 1,by omega⟩
  obtain ⟨first,hrun,hstatements⟩ := recovering_simple base h hn
  have hrest : budget after ≤ n := by simp only [budget]; omega
  have hafter := program_shifted ((parse tokens).faults.reverse ++ base) hrest
  rw [program_cons (by simp [h.ne_nil]),hstatements]
  change EStateM.bind _ (fun first => EStateM.bind _ _) _ = _
  simp only [EStateM.bind,hrun,hafter]
  rfl

theorem length_declarations {body : List Stmt} (h : Derives .declarations tokens body) :
    body.length ≤ tokens.length := by
  induction body generalizing tokens with
  | nil => exact Nat.zero_le _
  | cons s body ih =>
    cases h with
    | moreDeclarations hfirst hrest =>
      obtain ⟨t,ts,rfl,-⟩ := hfirst.starts rfl
      have hlength := ih hrest
      simp only [List.length_cons,List.length_append]
      omega

/-- The declarations in front of something else are read first. -/
theorem program_declarations {body : List Stmt} (h : Derives .declarations tokens body)
    (helse : ¬AtElse after) {more : List Stmt} {d : Cursor}
    (hmore : Parse.program n ⟨after,base⟩ = .ok more d) :
    Grammar.Follows (Parse.program (body.length + n) ⟨tokens ++ after,base⟩) (.ok (body ++ more) d) := by
  induction body generalizing tokens with
  | nil =>
    cases h
    exact .inl (by simpa using hmore)
  | cons s body ih =>
    cases h with
    | @moreDeclarations ts us _ _ hfirst hrest =>
      obtain ⟨t,ts',rfl,-⟩ := hfirst.starts rfl
      have hnext : ¬AtElse (us ++ after) := by
        cases us with
        | nil => exact helse
        | cons t' us => exact hrest.accepts.1
      have hstatement := follows_recovering (hfirst.accepts (body.length + n) (us ++ after) base hnext)
      rw [List.length_cons,Nat.add_right_comm,List.append_assoc,program_cons (by simp)]
      exact (Follows.bind hstatement).trans ((Follows.bind (ih hrest)).trans .refl)

end Parts

/-- What is read without a report, a simple statement and anything else give in a row what each of
them gives alone. So a syntax error in the simple statement is reported and leaves no trace. -/
theorem simple_statement_isolated (first simple last : List Token) (hfirst : (parse first).faults = [])
    (hsimple : IsSimple simple) :
    (parse (first ++ simple ++ last)).statements =
      (parse first).statements ++ (parse simple).statements ++ (parse last).statements ∧
    (parse (first ++ simple ++ last)).faults = (parse simple).faults ++ (parse last).faults := by
  have hderives : Grammar.Derives .declarations first (parse first).statements :=
    Grammar.isProgram_of_parse hfirst
  have helse : ¬Grammar.AtElse (simple ++ last) := by
    obtain ⟨t,rest,rfl⟩ := List.exists_cons_of_ne_nil hsimple.ne_nil
    rintro ⟨_,⟨⟩,hkind⟩
    exact (hsimple.head t rfl).2 hkind
  have hlength := length_declarations hderives
  obtain ⟨n,hn⟩ : ∃ n, Parse.budget (first ++ (simple ++ last)) = (parse first).statements.length + n :=
    ⟨_,(Nat.add_sub_cancel' (by simp [Parse.budget]; omega)).symm⟩
  have hbudget : Parse.budget (simple ++ last) ≤ n := by
    simp only [Parse.budget,List.length_append] at hn ⊢
    omega
  have hsecond := program_simple [] hsimple hbudget
  have hfollows := program_declarations hderives helse hsecond
  rw [← hn] at hfollows
  have hends : ¬∃ d, Parse.program (Parse.budget (first ++ (simple ++ last)))
      (⟨first ++ (simple ++ last),[]⟩ : Cursor) = .error .exhausted d := by
    rintro ⟨d,hd⟩
    exact Grammar.program_ne_exhausted _ d hd
  have hrun := hfollows.resolve_right hends
  rw [List.append_assoc,parse,hrun]
  simp

/-- The tokens of `a;`, of the wrong `print *;` and of the unfinished `b`. -/
theorem simple_statement_isolated_print :
    let first := [⟨.identifier,utf8 "a",1,0⟩,⟨.symbol .semicolon,utf8 ";",1,1⟩]
    let simple := [⟨.keyword .print,utf8 "print",1,2⟩,⟨.symbol .star,utf8 "*",1,3⟩,
      ⟨.symbol .semicolon,utf8 ";",1,4⟩]
    let last := [⟨.identifier,utf8 "b",1,5⟩]
    (parse first).faults = [] ∧ IsSimple simple ∧
      (parse simple).faults = [⟨.expression,some ⟨.symbol .star,utf8 "*",1,3⟩⟩] ∧
      (parse (first ++ simple ++ last)).statements =
        (parse first).statements ++ (parse simple).statements ++ (parse last).statements ∧
      (parse (first ++ simple ++ last)).faults = (parse simple).faults ++ (parse last).faults := by
  intro first simple last
  have hfirst : (parse first).faults = [] := by rfl
  have hbody : ∀ t ∈ [(⟨.symbol .star,utf8 "*",1,3⟩ : Token)], t.kind ∉ boundaries := by
    simp [boundaries]
  have hsimple : IsSimple simple := .led (by decide) hbody rfl
  exact ⟨hfirst,hsimple,by rfl,simple_statement_isolated first simple last hfirst hsimple⟩

end Scriptlet
