import Scriptlet.Proofs.Decimals
import Scriptlet.Proofs.Integers
import Scriptlet.Proofs.Pieces
import Scriptlet.Proofs.Segmentation

/-! # Integers written and read

A run of digits is read as the integer that it denotes, or is out of range. The text of an integer is
such a run, behind a minus sign if the integer is negative. So a program that prints an integer by its
text prints that text again, unless the integer is the least one: its digits alone are out of range.
-/
namespace Scriptlet

/-! ## Reading a run of digits -/

section

variable {digits rest : Bytes}

/-- A run of digits denotes what its digits sum up to, each with its power of ten. -/
theorem digitsValue_eq_ofDigits (digits : Bytes) :
    digitsValue digits = Nat.ofDigits 10 (digits.reverse.map fun b => b.toNat - 0x30) := by
  rw [digitsValue,Nat.ofDigits_eq_foldr,List.foldr_map,List.foldr_reverse]
  simp only [Nat.cast_id,Nat.add_comm]

theorem newlines_of_isDigits (h : IsDigits digits) : newlines digits = 0 := by
  refine List.count_eq_zero.2 fun hmem => ?_
  have hdigit := h.2 _ hmem
  revert hdigit
  decide

theorem segments_of_fits {s : Segment} (h : s.Fits rest) :
    segments (s.text ++ rest) = s :: segments rest :=
  (splits_iff.1 (.cons h (splits_segments rest))).symm

theorem segments_of_isDigits (hdigits : IsDigits digits) (hrest : EndsDigits rest) :
    segments (digits ++ rest) = Segment.integer digits :: segments rest := by
  have hsegments := segments_of_fits (Segment.fits_integer hdigits hrest)
  rwa [Segment.text_integer] at hsegments

theorem locate_integer (hdigits : IsDigits digits) (hfits : digitsValue digits < 2 ^ 63)
    (line index : Nat) (parts : List Segment) : ∃ n : Int64, n.toInt = digitsValue digits ∧
      locate line index (Segment.integer digits :: parts) =
        { locate line (index + 1) parts with
          tokens := ⟨.integer n,digits,line,index⟩ :: (locate line (index + 1) parts).tokens } := by
  refine ⟨.ofNat (digitsValue digits),Int64.toInt_ofNat_of_lt hfits,?_⟩
  have hsegment : Segment.integer digits = .token (.integer (.ofNat (digitsValue digits))) digits :=
    if_pos (Nat.le_sub_one_of_lt hfits)
  simp only [hsegment,locate,Segment.text,newlines_of_isDigits hdigits,Nat.add_zero]

theorem locate_outOfRange (hdigits : IsDigits digits) (hlarge : 2 ^ 63 ≤ digitsValue digits)
    (line index : Nat) (parts : List Segment) :
    locate line index (Segment.integer digits :: parts) =
      { locate line index parts with
        faults := ⟨.numberOutOfRange,line⟩ :: (locate line index parts).faults } := by
  have hsegment : Segment.integer digits = .faulty .numberOutOfRange digits :=
    if_neg (Nat.not_le.2 (Nat.sub_one_lt_of_le (by decide) hlarge))
  simp only [hsegment,locate,Segment.text,newlines_of_isDigits hdigits,Nat.add_zero]

end

/-! ## A program that prints an integer -/

theorem segments_print (text : Bytes) : segments (utf8 "print " ++ text) =
    .token (.keyword .print) (utf8 "print") :: .blank 0x20 :: segments text := by
  have hblank : (Segment.blank 0x20).Fits text := List.mem_cons_self
  have hprint : (Segment.token (.keyword .print) (utf8 "print")).Fits (0x20 :: text) := by
    refine ⟨.keyword .print,(longest_word Keyword.print.isWord_text).2 ?_⟩
    rintro c ⟨⟩
    decide
  exact (segments_of_fits hprint).trans (congrArg _ (segments_of_fits hblank))

theorem segments_semicolon :
    segments (utf8 ";") = [.token (.symbol .semicolon) (utf8 ";")] := by
  have hfits : (Segment.token (.symbol .semicolon) (utf8 ";")).Fits [] :=
    ⟨.symbol .semicolon,(longest_symbol .semicolon).2 (by simp [Segment.withEqual?])⟩
  have hsegments := segments_of_fits hfits
  rwa [segments,List.append_nil] at hsegments

theorem endsDigits_semicolon : EndsDigits (utf8 ";") := by
  constructor
  · rintro c ⟨⟩
    decide
  · intro after hafter
    cases hafter

theorem segments_decimal (k : Nat) : segments (decimal k ++ utf8 ";") =
    [Segment.integer (decimal k),.token (.symbol .semicolon) (utf8 ";")] := by
  rw [segments_of_isDigits (isDigits_decimal k) endsDigits_semicolon,segments_semicolon]

theorem segments_minus (k : Nat) : segments (0x2d :: decimal k ++ utf8 ";") =
    [.token (.symbol .minus) (utf8 "-"),Segment.integer (decimal k),
      .token (.symbol .semicolon) (utf8 ";")] := by
  have hfits : (Segment.token (.symbol .minus) (utf8 "-")).Fits (decimal k ++ utf8 ";") :=
    ⟨.symbol .minus,(longest_symbol .minus).2 (by simp [Segment.withEqual?])⟩
  rw [← segments_decimal]
  exact segments_of_fits hfits

namespace Grammar

/-- An operand is an expression. -/
theorem Derives.expression_of_unary {ts : List Token} {e : Expr} (h : Derives (.operation .unary) ts e) :
    Derives .expression ts e := by
  have hfactor : Derives (.operation .factor) ts e := .operand rfl h
  have hterm : Derives (.operation .term) ts e := .operand rfl hfactor
  have hcomparison : Derives (.operation .comparison) ts e := .operand rfl hterm
  have hequality : Derives (.operation .equality) ts e := .operand rfl hcomparison
  have hconjunction : Derives (.operation .conjunction) ts e := .operand rfl hequality
  exact .operation (.operand rfl hconjunction)

theorem isProgram_print {keyword semicolon : Token} {ts : List Token} {e : Expr}
    (hkeyword : keyword.kind = .keyword .print) (h : Derives (.operation .unary) ts e)
    (hsemicolon : semicolon.kind = .symbol .semicolon) :
    IsProgram (keyword :: ts ++ [semicolon]) [.print e] := by
  have hstatement := Derives.printStatement hkeyword h.expression_of_unary hsemicolon
  have hprogram := Derives.moreDeclarations hstatement.statement .noDeclarations
  rwa [List.append_nil] at hprogram

end Grammar

theorem scanFrom_print (index : Nat) (text : Bytes) : scanFrom index (utf8 "print " ++ text) =
    { locate 1 (index + 1) (segments text) with
      tokens := ⟨.keyword .print,utf8 "print",1,index⟩ ::
        (locate 1 (index + 1) (segments text)).tokens } := by
  rw [scanFrom,segments_print]
  rfl

theorem locate_minus (index : Nat) (parts : List Segment) :
    locate 1 index (.token (.symbol .minus) (utf8 "-") :: parts) =
      { locate 1 (index + 1) parts with
        tokens := ⟨.symbol .minus,utf8 "-",1,index⟩ :: (locate 1 (index + 1) parts).tokens } := rfl

/-- An expression without names that gives an integer wherever it is evaluated. -/
structure Denotes (e : Expr) (v : Int64) : Prop where
  resolved : ∀ r, Resolver.expr e r = r
  evaluated : ∀ ctx n m, 2 ≤ n → Eval.expr ctx n e m = .ok (.scalar (.int v)) m

theorem denotes_literal (v : Int64) : Denotes (.literal (.int v)) v := by
  refine ⟨fun r => rfl,fun ctx n m hn => ?_⟩
  obtain ⟨n,rfl⟩ := Nat.exists_eq_add_one.2 (Nat.zero_lt_of_lt hn)
  rfl

theorem denotes_negated (token : Token) {n v : Int64} (h : n.toInt = -v.toInt) :
    Denotes (.unary .negate token (.literal (.int n))) v := by
  have hnegated : -n = v := by
    apply eq_of_toInt_modEq
    rw [Int64.toInt_neg,h,Int.neg_neg]
    exact bmod_modEq _
  refine ⟨fun r => rfl,fun ctx budget m hbudget => ?_⟩
  obtain ⟨k,rfl⟩ := Nat.exists_eq_add_of_le' hbudget
  have hliteral : Eval.expr ctx (k + 1) (.literal (.int n)) m = .ok (.scalar (.int n)) m := rfl
  rw [Eval.unary_of_ok hliteral rfl,hnegated]

/-- The text of an integer is an operand that denotes it. -/
theorem exists_operand {v : Int64} (hv : v ≠ .minValue) (index : Nat) :
    ∃ ts semicolon e, locate 1 index (segments ((Scalar.int v).text ++ utf8 ";")) =
        ⟨ts ++ [semicolon],[],1⟩ ∧ semicolon.kind = .symbol .semicolon ∧
      Grammar.Derives (.operation .unary) ts e ∧ Denotes e v := by
  have hlt : digitsValue (decimal v.toInt.natAbs) < 2 ^ 63 := by
    have hmax := v.toInt_lt
    have hmin := v.le_toInt
    have hne : v.toInt ≠ -2 ^ 63 := fun h => hv (Int64.toInt_inj.1 h)
    rw [digitsValue_decimal]
    omega
  have hlocate := locate_integer (isDigits_decimal v.toInt.natAbs) hlt 1
  rw [digitsValue_decimal] at hlocate
  by_cases hneg : v.toInt < 0
  · have htext : (Scalar.int v).text = 0x2d :: decimal v.toInt.natAbs := if_pos hneg
    obtain ⟨n,hn,htokens⟩ := hlocate (index + 1) [.token (.symbol .semicolon) (utf8 ";")]
    refine ⟨[⟨.symbol .minus,utf8 "-",1,index⟩,⟨.integer n,decimal v.toInt.natAbs,1,index + 1⟩],
      ⟨.symbol .semicolon,utf8 ";",1,index + 2⟩,_,?_,rfl,.leading rfl (.call (.primary (.literal rfl))),
      denotes_negated _ (hn.trans (Int.ofNat_natAbs_of_nonpos hneg.le))⟩
    rw [htext,segments_minus,locate_minus,htokens]
    rfl
  · have htext : (Scalar.int v).text = decimal v.toInt.natAbs := if_neg hneg
    obtain ⟨n,hn,htokens⟩ := hlocate index [.token (.symbol .semicolon) (utf8 ";")]
    obtain rfl : n = v := Int64.toInt_inj.1 (hn.trans (Int.natAbs_of_nonneg (Int.not_lt.1 hneg)))
    refine ⟨[⟨.integer n,decimal n.toInt.natAbs,1,index⟩],⟨.symbol .semicolon,utf8 ";",1,index + 1⟩,_,
      ?_,rfl,.call (.primary (.literal rfl)),denotes_literal n⟩
    rw [htext,segments_decimal,htokens]
    rfl

/-- The program that prints the text of an integer prints what denotes the integer. -/
theorem load_print {v : Int64} (hv : v ≠ .minValue) (index : Nat) :
    let loaded := load index (utf8 "print " ++ (Scalar.int v).text ++ utf8 ";")
    loaded.diagnostics = [] ∧ ∃ e, loaded.statements = [.print e] ∧ Denotes e v := by
  intro loaded
  obtain ⟨ts,semicolon,e,hlocate,hsemicolon,hderives,hdenotes⟩ := exists_operand hv (index + 1)
  have hscan : scanFrom index (utf8 "print " ++ (Scalar.int v).text ++ utf8 ";") =
      ⟨⟨.keyword .print,utf8 "print",1,index⟩ :: ts ++ [semicolon],[],1⟩ := by
    rw [List.append_assoc,scanFrom_print,hlocate]
    rfl
  have hloaded : loaded.diagnostics = [] ∧ loaded.statements = [.print e] := by
    apply load_of_isProgram
    · rw [hscan]
    · rw [hscan]
      exact Grammar.isProgram_print rfl hderives hsemicolon
  exact ⟨hloaded.1,e,hloaded.2,hdenotes⟩

/-- The digits of the least integer are out of range. -/
theorem load_print_least (index : Nat) : ∃ more,
    (load index (utf8 "print " ++ (Scalar.int .minValue).text ++ utf8 ";")).diagnostics =
      ⟨.lexical,1,[],LexicalError.numberOutOfRange.message⟩ :: more := by
  have htext : (Scalar.int .minValue).text = 0x2d :: decimal (2 ^ 63) := rfl
  have hlarge : 2 ^ 63 ≤ digitsValue (decimal (2 ^ 63)) := (digitsValue_decimal _).ge
  have hfaults : (scanFrom index (utf8 "print " ++ (Scalar.int .minValue).text ++ utf8 ";")).faults =
      [⟨.numberOutOfRange,1⟩] := by
    rw [List.append_assoc,scanFrom_print,htext,segments_minus,locate_minus,
      locate_outOfRange (isDigits_decimal _) hlarge]
    rfl
  rw [load,hfaults]
  exact ⟨_,rfl⟩

/-! ## Both directions -/

section

variable {digits rest : Bytes} {parts : List Segment} {source : Bytes}

/-- Scanning at a run of digits: one token, or one fault. -/
theorem scanFrom_of_isDigits (index : Nat) (h : segments source = parts ++ segments (digits ++ rest))
    (hdigits : IsDigits digits) (hrest : EndsDigits rest) :
    let before := locate 1 index parts
    let place := index + before.tokens.length
    (digitsValue digits < 2 ^ 63 → ∃ n : Int64, n.toInt = digitsValue digits ∧
      let after := locate before.endLine (place + 1) (segments rest)
      scanFrom index source =
        ⟨before.tokens ++ ⟨.integer n,digits,before.endLine,place⟩ :: after.tokens,
          before.faults ++ after.faults,after.endLine⟩) ∧
    (2 ^ 63 ≤ digitsValue digits →
      let after := locate before.endLine place (segments rest)
      scanFrom index source = ⟨before.tokens ++ after.tokens,
        before.faults ++ ⟨.numberOutOfRange,before.endLine⟩ :: after.faults,after.endLine⟩) := by
  intro before place
  have hscan : scanFrom index source =
      let found := locate before.endLine place (Segment.integer digits :: segments rest)
      ⟨before.tokens ++ found.tokens,before.faults ++ found.faults,found.endLine⟩ := by
    rw [scanFrom,h,segments_of_isDigits hdigits hrest,locate_append]
  constructor
  · intro hfits
    obtain ⟨n,hn,hlocate⟩ := locate_integer hdigits hfits before.endLine place (segments rest)
    exact ⟨n,hn,by rw [hscan,hlocate]⟩
  · intro hlarge
    rw [hscan,locate_outOfRange hdigits hlarge]

end

/-- Statements whose evaluation prints one integer. -/
theorem program_print {e : Expr} {v : Int64} (h : Denotes e v) (ctx : Context) {budget : Nat}
    (hbudget : 3 ≤ budget) (m : Machine) : Eval.program ctx budget [.print e] m =
      .ok () { m with printed := (Scalar.int v).text :: m.printed } := by
  obtain ⟨n,rfl⟩ := Nat.exists_eq_add_one.2 (Nat.zero_lt_of_lt hbudget)
  have hvalue := h.evaluated ctx n m (Nat.le_of_succ_le_succ hbudget)
  simp only [Eval.program,Eval.stmt,Bind.bind,EStateM.bind,hvalue]
  rfl

section

variable (s : Session) {r : Request} {v : Int64}
  (hsource : r.source = utf8 "print " ++ (Scalar.int v).text ++ utf8 ";")

include hsource

theorem perform_print (hv : v ≠ .minValue) :
    let loaded := load s.nextIndex r.source
    loaded.diagnostics = [] ∧ (resolve s.table loaded.statements).faults = [] ∧
      (∃ e, loaded.statements = [.print e] ∧
        ∀ ctx n m, 2 ≤ n → Eval.expr ctx n e m = .ok (.scalar (.int v)) m) ∧
      (3 ≤ r.budget → (s.perform r).1.answer = ⟨.completed,[],[(Scalar.int v).text]⟩) := by
  intro loaded
  have hload := load_print hv s.nextIndex
  rw [← hsource] at hload
  obtain ⟨hdiagnostics,e,hstatements,hdenotes⟩ := hload
  have hfaults : (resolve s.table loaded.statements).faults = [] := by
    rw [hstatements,resolve,Resolver.stmts,Resolver.stmts,Resolver.stmt,hdenotes.resolved]
    rfl
  refine ⟨hdiagnostics,hfaults,⟨e,hstatements,hdenotes.evaluated⟩,fun hbudget => ?_⟩
  have heval : s.evaluation r = .ok () { s.machine with printed := [(Scalar.int v).text] } := by
    rw [Session.evaluation,hstatements]
    exact program_print hdenotes _ hbudget _
  rw [(Session.perform_of_resolved hdiagnostics hfaults).1,heval]
  rfl

theorem perform_print_least (hv : v = .minValue) :
    ∃ more, (s.perform r).1.answer = ⟨.rejected,
        ⟨.lexical,1,[],LexicalError.numberOutOfRange.message⟩ :: more,[]⟩ ∧
      (s.perform r).2.machine = s.machine := by
  obtain ⟨more,hdiagnostics⟩ := load_print_least s.nextIndex
  rw [← hv,← hsource] at hdiagnostics
  have hunreadable : (load s.nextIndex r.source).diagnostics ≠ [] := by
    rw [hdiagnostics]
    exact List.cons_ne_nil _ _
  obtain ⟨hanswer,hsession⟩ := Session.perform_of_unreadable hunreadable
  refine ⟨more,?_,?_⟩
  · rw [hanswer,hdiagnostics]
  · rw [hsession]
    rfl

end

/-- Integers survive printing and reading. Where scanning comes to a run of digits that no point with
a digit follows, it gives one token, whose literal is the number in decimal, if that is at most
`2 ^ 63 - 1`. Otherwise it gives no token and just one fault, that the number is out of range. So a
program that prints the text of an integer has nothing to report, its operand gives that integer, and
it prints that text. For the least integer it is rejected instead and has no effect, and the first
diagnostic says that a number is out of range. -/
theorem integers_survive_printing :
    (∀ (index : Nat) (source : Bytes) (parts : List Segment) (digits rest : Bytes),
      segments source = parts ++ segments (digits ++ rest) → IsDigits digits → EndsDigits rest →
      let number : Nat := Nat.ofDigits 10 (digits.reverse.map fun b => b.toNat - 0x30)
      let before := locate 1 index parts
      let place := index + before.tokens.length
      (number ≤ 2 ^ 63 - 1 → ∃ n : Int64, n.toInt = number ∧
        let after := locate before.endLine (place + 1) (segments rest)
        scanFrom index source =
          ⟨before.tokens ++ ⟨.integer n,digits,before.endLine,place⟩ :: after.tokens,
            before.faults ++ after.faults,after.endLine⟩) ∧
      (2 ^ 63 - 1 < number →
        let after := locate before.endLine place (segments rest)
        scanFrom index source = ⟨before.tokens ++ after.tokens,
          before.faults ++ ⟨.numberOutOfRange,before.endLine⟩ :: after.faults,after.endLine⟩)) ∧
    LexicalError.numberOutOfRange.message = utf8 "Number literal out of range." ∧
    ∀ (s : Session) (budget : Nat) (processVars : NameMap Bytes) (v : Int64),
      let text := (Value.scalar (.int v) : Value).text
      let r : Request := ⟨utf8 "print " ++ text ++ utf8 ";",budget,processVars⟩
      let loaded := load s.nextIndex r.source
      (v ≠ .minValue → loaded.diagnostics = [] ∧ (resolve s.table loaded.statements).faults = [] ∧
        (∃ e, loaded.statements = [.print e] ∧
          ∀ ctx n m, 2 ≤ n → Eval.expr ctx n e m = .ok (.scalar (.int v)) m) ∧
        (3 ≤ budget → (s.perform r).1.answer = ⟨.completed,[],[text]⟩)) ∧
      (v = .minValue → ∃ more, (s.perform r).1.answer = ⟨.rejected,
          ⟨.lexical,1,[],LexicalError.numberOutOfRange.message⟩ :: more,[]⟩ ∧
        (s.perform r).2.machine = s.machine) := by
  refine ⟨?_,rfl,?_⟩
  · intro index source parts digits rest h hdigits hrest
    have hscan := scanFrom_of_isDigits index h hdigits hrest
    rw [digitsValue_eq_ofDigits] at hscan
    exact ⟨fun hle => hscan.1 (Nat.lt_of_le_sub_one (by decide) hle),fun hlt =>
      hscan.2 (Nat.le_of_pred_lt hlt)⟩
  · intro s budget processVars v text r loaded
    exact ⟨perform_print s rfl,perform_print_least s rfl⟩

/-- Zeros in front of a number do not count. The integer next to the least one is printed as it is
written. -/
theorem integers_survive_printing_zeros :
    (∃ n : Int64, n.toInt = 7 ∧ scanFrom 0 (utf8 "007") = ⟨[⟨.integer n,utf8 "007",1,0⟩],[],1⟩) ∧
      ((Session.start {}).perform ⟨utf8 "print -9223372036854775807;",3,.empty⟩).1.answer =
        ⟨.completed,[],[utf8 "-9223372036854775807"]⟩ := by
  obtain ⟨hreads,-,hprints⟩ := integers_survive_printing
  constructor
  · have hdigits : IsDigits (utf8 "007") := ⟨by decide,List.all_eq_true.1 rfl⟩
    have hends : EndsDigits [] := ⟨nofun,nofun⟩
    have hscan := (hreads 0 (utf8 "007") [] (utf8 "007") [] (by simp) hdigits hends).1
    rw [← digitsValue_eq_ofDigits,segments] at hscan
    exact hscan (by decide)
  · exact ((hprints (.start {}) 3 .empty (-9223372036854775807)).1 (by decide)).2.2.2 (Nat.le_refl 3)

end Scriptlet
