import Scriptlet.Proofs.Entries
import Scriptlet.Proofs.Grammar.Reading
import Scriptlet.Proofs.Segmentation

/-! # The braces of an entry

An entry counts the bytes of its lines, the grammar counts tokens. The two differ by the braces that
scanning does not look at: those in comments and in strings, ended or not. A program has as many
opening as closing braces among its tokens, so a line that is a program by itself waits for more
exactly if it hides more opening than closing ones.
-/
namespace Scriptlet

open Segment (quote)

/-- The byte of a brace and its symbol. -/
inductive IsBrace : UInt8 → Symbol → Prop
  | opening : IsBrace Entry.openBrace .leftBrace
  | closing : IsBrace Entry.closeBrace .rightBrace

/-- How many tokens are a given symbol. -/
def countSymbol (s : Symbol) (tokens : List Token) : Nat := tokens.countP (·.isSymbol s)

/-- Whether a segment is text that scanning does not look into. -/
def Segment.hides : Segment → Bool
  | .comment _ | .token (.string _) _ | .faulty .unterminatedString _ => true
  | _ => false

def Segment.isSymbol (s : Symbol) : Segment → Bool
  | .token kind _ => kind = .symbol s
  | _ => false

/-- How often a byte stands in the comments and strings of a source. -/
def countHidden (b : UInt8) (source : Bytes) : Nat :=
  (((segments source).filter Segment.hides).flatMap Segment.text).count b

/-! ## Braces of a source -/

section

variable {b : UInt8} {s : Symbol} {text : Bytes}

theorem IsBrace.isWordByte (h : IsBrace b s) : isWordByte b = false := by
  cases h <;> decide

theorem IsBrace.text_eq (h : IsBrace b s) : s.text = [b] := by
  cases h <;> decide

/-- No other symbol has the byte of a brace. -/
theorem IsBrace.count_symbol (h : IsBrace b s) (s' : Symbol) :
    s'.text.count b = if s' = s then 1 else 0 := by
  cases h <;> cases s' <;> decide

theorem isWordByte_of_isDigit (h : isDigit b = true) : isWordByte b = true := by
  simp [isWordByte,h]

theorem IsDigits.not_mem_brace (htext : IsDigits text) (h : IsBrace b s) : b ∉ text := by
  intro hmem
  have hword := isWordByte_of_isDigit (htext.2 b hmem)
  rw [h.isWordByte] at hword
  cases hword

theorem IsNumeral.not_mem_brace (htext : IsNumeral text) (h : IsBrace b s) : b ∉ text := by
  cases htext with
  | whole hdigits => exact hdigits.not_mem_brace h
  | fractional hwhole hfraction =>
    have hpoint : b ≠ 0x2e := by cases h <;> decide
    simp [hwhole.not_mem_brace h,hfraction.not_mem_brace h,hpoint]

theorem IsWord.not_mem_brace (htext : IsWord text) (h : IsBrace b s) : b ∉ text := by
  obtain ⟨first,rest,rfl,hfirst,hrest⟩ := htext
  have hbyte : ∀ c ∈ first :: rest, isWordByte c = true := by
    intro c hc
    rcases List.mem_cons.1 hc with rfl | hc
    · simp [Scriptlet.isWordByte,hfirst]
    · exact hrest c hc
  intro hmem
  have hword := hbyte b hmem
  rw [h.isWordByte] at hword
  cases hword

/-- Outside of strings, the only token with a brace is the brace. -/
theorem Lexeme.count_brace {kind : Kind} (hlexeme : Lexeme kind text) (h : IsBrace b s)
    (hkind : ∀ value, kind ≠ .string value) :
    text.count b = if kind = .symbol s then 1 else 0 := by
  cases hlexeme with
  | symbol s' => simpa using h.count_symbol s'
  | keyword k => simpa using List.count_eq_zero.2 (k.isWord_text.not_mem_brace h)
  | identifier hword => simpa using List.count_eq_zero.2 (hword.not_mem_brace h)
  | string => exact absurd rfl (hkind _)
  | integer hdigits => simpa using List.count_eq_zero.2 (hdigits.not_mem_brace h)
  | float hwhole hfraction =>
    simpa using List.count_eq_zero.2 ((IsNumeral.fractional hwhole hfraction).not_mem_brace h)

/-- The braces of a segment that scanning looks at are tokens. -/
theorem Segment.Fits.count_brace {segment : Segment} {rest : Bytes} (hfits : segment.Fits rest)
    (h : IsBrace b s) (hseen : segment.hides = false) :
    segment.text.count b = if segment.isSymbol s then 1 else 0 := by
  cases segment with
  | blank byte =>
    have hblank : b ∉ [byte] := by
      intro hmem
      obtain rfl := List.mem_singleton.1 hmem
      have hbyte : b ∈ [0x20,0x0d,0x09,newline] := hfits
      revert hbyte
      cases h <;> decide
    exact List.count_eq_zero.2 hblank
  | comment body => cases hseen
  | token kind lexeme =>
    have hkind : ∀ value, kind ≠ .string value := by
      rintro value rfl
      cases hseen
    simpa [Segment.text,Segment.isSymbol] using hfits.1.count_brace h hkind
  | faulty error stretch =>
    cases error with
    | unterminatedString => cases hseen
    | numberOutOfRange => exact List.count_eq_zero.2 (hfits.1.not_mem_brace h)
    | unexpectedCharacter =>
      obtain ⟨byte,rfl,-,hnone⟩ := hfits
      have hother : b ∉ [byte] := by
        intro hmem
        obtain rfl := List.mem_singleton.1 hmem
        exact hnone [] (h.text_eq ▸ .symbol s)
      exact List.count_eq_zero.2 hother

theorem countSymbol_locate (s : Symbol) (line index : Nat) (parts : List Segment) :
    countSymbol s (locate line index parts).tokens = parts.countP (Segment.isSymbol s) := by
  induction parts generalizing line index with
  | nil => rfl
  | cons segment rest ih =>
    cases segment with
    | token kind lexeme =>
      rw [List.countP_cons,← ih]
      exact List.countP_cons
    | _ => exact ih _ _

theorem not_isSymbol_of_hides {segment : Segment} (h : segment.hides = true) :
    segment.isSymbol s = false := by
  unfold Segment.hides at h
  split at h <;> simp_all [Segment.isSymbol]

theorem count_splits {source : Bytes} {parts : List Segment} (hparts : Splits source parts)
    (h : IsBrace b s) :
    source.count b = parts.countP (Segment.isSymbol s) +
      ((parts.filter Segment.hides).flatMap Segment.text).count b := by
  induction hparts with
  | nil => rfl
  | @cons segment rest parts hfits _ ih =>
    rw [List.count_append,ih,List.countP_cons]
    cases hhides : segment.hides with
    | true =>
      rw [List.filter_cons_of_pos hhides,List.flatMap_cons,List.count_append,
        not_isSymbol_of_hides hhides]
      simp only [Bool.false_eq_true,if_false]
      omega
    | false =>
      rw [List.filter_cons_of_neg (by simp [hhides]),hfits.count_brace h hhides]
      omega

/-- Every brace of a source is a token or hidden. -/
theorem count_brace (h : IsBrace b s) (index : Nat) (source : Bytes) :
    source.count b = countSymbol s (scanFrom index source).tokens + countHidden b source := by
  rw [scanFrom,countSymbol_locate]
  exact count_splits (splits_segments source) h

end

/-! ## Braces of a program -/

namespace Grammar

/-- How much deeper a token leads into blocks. -/
def rise (t : Token) : Int :=
  (if t.isSymbol .leftBrace then 1 else 0) - if t.isSymbol .rightBrace then 1 else 0

/-- How many more braces some tokens open than they close. -/
def excess : List Token → Int
  | [] => 0
  | t :: ts => rise t + excess ts

@[simp] theorem excess_append (ts us : List Token) : excess (ts ++ us) = excess ts + excess us := by
  induction ts with
  | nil => simp [excess]
  | cons t ts ih => simp [excess,ih,Int.add_assoc]

theorem excess_eq (ts : List Token) :
    excess ts = (countSymbol .leftBrace ts : Int) - countSymbol .rightBrace ts := by
  induction ts with
  | nil => rfl
  | cons t ts ih =>
    simp only [excess,countSymbol,rise,List.countP_cons] at ih ⊢
    split <;> split <;> omega

theorem rise_of_node? {t : Token} {tier : Tier} {node : Expr → Expr → Expr}
    (h : tier.node? t = some node) : rise t = 0 := by
  unfold Tier.node? at h
  split at h <;> (try split at h) <;> simp_all [rise,Token.isSymbol]

theorem rise_of_leading? {t : Token} {op : UnaryOp} (h : leading? t = some op) : rise t = 0 := by
  unfold leading? at h
  split at h <;> simp_all [rise,Token.isSymbol]

theorem rise_of_scalar? {t : Token} {value : Scalar} (h : scalar? t = some value) : rise t = 0 := by
  unfold scalar? at h
  split at h <;> simp_all [rise,Token.isSymbol]

/-- What a phrase opens it closes. -/
theorem Derives.excess_eq_zero {phrase : Phrase} {ts : List Token} {tree : phrase.Tree}
    (h : Derives phrase ts tree) : excess ts = 0 := by
  induction h with
  | literal ht => simp [excess,rise_of_scalar? ht]
  | leading hop => simp_all [excess,rise_of_leading? hop]
  | join _ _ hnode => simp_all [excess,rise_of_node? hnode]
  | _ => simp_all [excess,rise,Token.isSymbol]

theorem Derives.countSymbol_eq {phrase : Phrase} {ts : List Token} {tree : phrase.Tree}
    (h : Derives phrase ts tree) : countSymbol .leftBrace ts = countSymbol .rightBrace ts := by
  have hexcess := excess_eq ts
  rw [h.excess_eq_zero] at hexcess
  omega

end Grammar

/-! ## Entries -/

/-- The entry that some lines become if none of them completes it. -/
def Entry.collect (e : Entry) : List Bytes → Option Entry
  | [] => some e
  | line :: rest =>
    match e.add line with
    | (e,none) => e.collect rest
    | (_,some _) => none

/-- The lines that an entry collects are lines that wait. -/
theorem Waiting.collect {front lines : List Bytes} {e : Entry} (h : Waiting front)
    (hcollect : (Entry.ofLines front).collect lines = some e) :
    Waiting (front ++ lines) ∧ e = Entry.ofLines (front ++ lines) := by
  induction lines generalizing front with
  | nil =>
    obtain rfl : Entry.ofLines front = e := Option.some.inj hcollect
    simpa using h
  | cons line rest ih =>
    rw [Entry.collect,h.add line] at hcollect
    by_cases hpos : 0 < balance (front ++ [line])
    · rw [if_pos hpos] at hcollect
      simpa using ih (h.append hpos) hcollect
    · rw [if_neg hpos] at hcollect
      cases hcollect

/-- Line ends are no braces. -/
theorem count_unlines {b : UInt8} (hb : b ≠ newline) (lines : List Bytes) :
    (unlines lines).count b = lines.flatten.count b := by
  induction lines with
  | nil => rfl
  | cons line rest ih => simp_all [unlines,List.count_append,hb.symm]

/-- A line completes an entry exactly if the braces among the tokens of the whole text, together with
those hidden in its strings and comments, are not more often opened than closed. So a line that is a
program by itself, and all of whose braces are tokens, is always handed over at once. -/
theorem entry_completes_iff (index : Nat) (lines : List Bytes) (line : Bytes) (e : Entry)
    (hcollect : ({} : Entry).collect lines = some e) :
    (let text := unlines (lines ++ [line])
      let tokens := (scanFrom index text).tokens
      (e.add line).2 =
        if countSymbol .leftBrace tokens + countHidden Entry.openBrace text ≤
          countSymbol .rightBrace tokens + countHidden Entry.closeBrace text
        then some text else none) ∧
    ((scanFrom index line).faults = [] → (parse (scanFrom index line).tokens).faults = [] →
      (({} : Entry).add line).2 =
        if countHidden Entry.openBrace line ≤ countHidden Entry.closeBrace line
        then some (line ++ [newline]) else none) := by
  obtain ⟨hwaiting,he⟩ : Waiting lines ∧ e = Entry.ofLines lines := waiting_nil.collect hcollect
  subst he
  refine ⟨?_,fun hscan hparse => ?_⟩
  · intro text tokens
    have hopen : countSymbol .leftBrace tokens + countHidden Entry.openBrace text =
        (lines ++ [line]).flatten.count Entry.openBrace :=
      (count_brace .opening index text).symm.trans (count_unlines (by decide) _)
    have hclose : countSymbol .rightBrace tokens + countHidden Entry.closeBrace text =
        (lines ++ [line]).flatten.count Entry.closeBrace :=
      (count_brace .closing index text).symm.trans (count_unlines (by decide) _)
    rw [hwaiting.add line,balance,← hopen,← hclose]
    split
    · rw [if_neg (by omega)]
    · rw [if_pos (by omega)]
  · have hbraces := (Grammar.isProgram_of_parse hparse).countSymbol_eq
    have hopen := count_brace .opening index line
    have hclose := count_brace .closing index line
    have hlone : ({} : Entry).add line = _ := waiting_nil.add line
    rw [hlone,balance]
    simp only [List.nil_append,List.flatten_cons,List.flatten_nil,List.append_nil,hopen,hclose]
    split
    · rw [if_neg (by omega)]
    · rw [if_pos (by omega)]
      simp [unlines]

/-- A function whose body has a closing brace in a string: its first two lines are handed over, with
the body still open. -/
theorem entry_completes_in_string :
    let first := utf8 "fun f() \x7b"
    let line := utf8 "print \"\x7d\";"
    let e : Entry := ⟨unlines [first],1⟩
    let tokens := (scanFrom 0 (unlines [first,line])).tokens
    ({} : Entry).collect [first] = some e ∧ (e.add line).2 = some (unlines [first,line]) ∧
      countSymbol .rightBrace tokens < countSymbol .leftBrace tokens := by
  intro first line e tokens
  have hcollect : ({} : Entry).collect [first] = some e := by decide
  refine ⟨hcollect,(entry_completes_iff 0 [first] line e hcollect).1.trans ?_,?_⟩ <;> decide +kernel

/-- The braces of the tokens do not decide it. This line is a program by itself, and waits for more. -/
theorem entry_waits_for_string :
    let line := utf8 "print \"\x7b\";"
    let tokens := (scanFrom 0 (unlines [line])).tokens
    (scanFrom 0 line).faults = [] ∧ (parse (scanFrom 0 line).tokens).faults = [] ∧
      countSymbol .leftBrace tokens ≤ countSymbol .rightBrace tokens ∧
      (({} : Entry).add line).2 = none := by
  decide +kernel

end Scriptlet
