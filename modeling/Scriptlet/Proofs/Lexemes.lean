import Scriptlet.Proofs.Scanning

/-! # The lexical grammar

What a source can be made of, said without a word on how it is scanned: symbols, words, numerals,
strings and comments, each as long as it can be, blanks between them, and stretches that are none of
these. An item is as long as it can be exactly if what follows can not go on with it, which takes one
or two bytes to see.
-/
namespace Scriptlet

open Segment (quote)

def IsDigits (text : Bytes) : Prop := text ≠ [] ∧ ∀ b ∈ text, isDigit b = true

/-- A numeral is a run of digits, or two of them around a point. -/
inductive IsNumeral : Bytes → Prop
  | whole {digits : Bytes} : IsDigits digits → IsNumeral digits
  | fractional {whole fraction : Bytes} : IsDigits whole → IsDigits fraction →
      IsNumeral (whole ++ 0x2e :: fraction)

/-- A word is a letter and any number of letters and digits. -/
def IsWord (text : Bytes) : Prop :=
  ∃ b rest, text = b :: rest ∧ isLetter b = true ∧ ∀ c ∈ rest, isWordByte c = true

/-- The float nearest to a decimal. -/
def decimalFloat (whole fraction : Bytes) : Float :=
  Float.ofScientific (digitsValue (whole ++ fraction)) true fraction.length

/-- The text of a token of some kind. A number has to be in range. -/
inductive Lexeme : Kind → Bytes → Prop
  | symbol (s : Symbol) : Lexeme (.symbol s) s.text
  | keyword (k : Keyword) : Lexeme (.keyword k) k.text
  | identifier {text : Bytes} : IsWord text → (∀ k : Keyword, text ≠ k.text) →
      Lexeme .identifier text
  | string {body : Bytes} : quote ∉ body → Lexeme (.string body) (quote :: body ++ [quote])
  | integer {digits : Bytes} : IsDigits digits → digitsValue digits < Nat.pow 2 63 →
      Lexeme (.integer (.ofNat (digitsValue digits))) digits
  | float {whole fraction : Bytes} : IsDigits whole → IsDigits fraction →
      (decimalFloat whole fraction).isInf = false →
      Lexeme (.float (decimalFloat whole fraction)) (whole ++ 0x2e :: fraction)

/-- What can be taken from the front of a source in one piece: a token, but for the range of
numbers, or a comment. -/
inductive Item : Bytes → Prop
  | symbol (s : Symbol) : Item s.text
  | word {text : Bytes} : IsWord text → Item text
  | numeral {text : Bytes} : IsNumeral text → Item text
  | string {body : Bytes} : quote ∉ body → Item (quote :: body ++ [quote])
  | comment {body : Bytes} : newline ∉ body → Item (0x2f :: 0x2f :: body)

/-- No longer item starts where `text` does, when `rest` follows. -/
def Longest (text rest : Bytes) : Prop :=
  ∀ other, Item other → other <+: text ++ rest → other.length ≤ text.length

/-- A segment as the grammar has it in front of `rest`. -/
def Segment.Fits (rest : Bytes) : Segment → Prop
  | .blank b => b ∈ [0x20,0x0d,0x09,newline]
  | .comment body => newline ∉ body ∧ ∀ b ∈ rest.head?, b = newline
  | .token kind lexeme => Lexeme kind lexeme ∧ Longest lexeme rest
  | .faulty .unexpectedCharacter stretch =>
    ∃ b, stretch = [b] ∧ b ∉ [0x20,0x0d,0x09,newline,quote] ∧ ∀ text, ¬ Item (b :: text)
  | .faulty .numberOutOfRange stretch =>
    IsNumeral stretch ∧ (∀ kind, ¬ Lexeme kind stretch) ∧ Longest stretch rest
  | .faulty .unterminatedString stretch =>
    rest = [] ∧ ∃ body, stretch = quote :: body ∧ quote ∉ body

/-- A source split into segments of the grammar. -/
inductive Splits : Bytes → List Segment → Prop
  | nil : Splits [] []
  | cons {s : Segment} {rest : Bytes} {parts : List Segment} :
      s.Fits rest → Splits rest parts → Splits (s.text ++ rest) (s :: parts)

/-! ## What an item starts with -/

section

variable {b : UInt8} {text rest : Bytes}

theorem isDigit_of_isLetter (h : isLetter b = true) : isDigit b = false := by
  unfold isLetter at h
  unfold isDigit
  grind

theorem IsDigits.cons (h : IsDigits text) : ∃ b rest, text = b :: rest ∧ isDigit b = true := by
  obtain ⟨hne,hdigits⟩ := h
  obtain ⟨b,rest,rfl⟩ := List.exists_cons_of_ne_nil hne
  exact ⟨b,rest,rfl,hdigits b List.mem_cons_self⟩

theorem IsNumeral.cons (h : IsNumeral text) : ∃ b rest, text = b :: rest ∧ isDigit b = true := by
  cases h with
  | whole hdigits => exact hdigits.cons
  | fractional hwhole _ =>
    obtain ⟨b,rest,rfl,hb⟩ := hwhole.cons
    exact ⟨b,_,rfl,hb⟩

/-- A byte that starts no word and no numeral and is neither a blank nor a quote. -/
def isSign (b : UInt8) : Bool :=
  !Segment.isBlank b && b != quote && !isDigit b && !isLetter b

theorem Symbol.text_cons (s : Symbol) : ∃ b rest, s.text = b :: rest ∧ isSign b = true := by
  cases s <;> exact ⟨_,_,rfl,by decide⟩

/-- The symbol of a text of one byte. -/
theorem Segment.loneSymbol?_of_text {s : Symbol} (h : s.text = [b]) : loneSymbol? b = some s := by
  cases s <;> cases h <;> rfl

theorem Segment.text_of_loneSymbol? {s : Symbol} (h : loneSymbol? b = some s) : s.text = [b] :=
  eq_of_beq (List.find?_some (p := fun s : Symbol => s.text == [b]) h)

theorem Segment.isSome_loneSymbol? {s : Symbol} (h : s.text = b :: rest) :
    (loneSymbol? b).isSome = true := by
  cases s <;> cases h <;> rfl

theorem Segment.text_of_withEqual? {s t : Symbol} (h : withEqual? s = some t) :
    s.text ++ [0x3d] = t.text := by
  cases s <;> cases h <;> rfl

theorem Segment.symbol_of_equal {s t : Symbol} (hs : loneSymbol? b = some s) (ht : withEqual? s = some t) :
    symbol b (0x3d :: rest) = (.token (.symbol t) t.text,rest) := by
  rw [← text_of_withEqual? ht,text_of_loneSymbol? hs]
  simp [symbol,hs,ht]

theorem Segment.symbol_of_other {s : Symbol} (hs : loneSymbol? b = some s)
    (hother : ∀ t, withEqual? s = some t → rest.head? ≠ some 0x3d) :
    symbol b rest = (.token (.symbol s) s.text,rest) := by
  rw [text_of_loneSymbol? hs]
  simp only [symbol,hs]
  split
  · next t after ht => exact absurd rfl (hother t ht)
  · rfl

/-- A symbol can only go on with an equals sign. -/
theorem Segment.withEqual?_of_text {s t : Symbol} {c : UInt8} {tail : Bytes}
    (h : s.text ++ c :: tail = t.text) : withEqual? s = some t ∧ c = 0x3d := by
  obtain ⟨b,signs,hs,-⟩ := s.text_cons
  have htwo : ∀ {sign : UInt8} {lone : Symbol}, t.text = [sign,0x3d] → loneSymbol? sign = some lone →
      s = lone ∧ c = 0x3d := by
    intro sign lone ht hlone
    rw [ht,hs] at h
    obtain ⟨rfl,hc⟩ := List.cons.inj h
    cases signs with
    | nil =>
      obtain ⟨rfl,-⟩ := List.cons.inj hc
      exact ⟨Option.some.inj ((loneSymbol?_of_text hs).symm.trans hlone),rfl⟩
    | cons sign' signs => simp at hc
  have hone : ∀ {sign : UInt8}, t.text ≠ [sign] := by
    intro sign ht
    rw [ht,hs] at h
    simp at h
  cases t with
  | bangEqual | equalEqual | greaterEqual | lessEqual =>
    obtain ⟨rfl,rfl⟩ := htwo rfl rfl
    exact ⟨rfl,rfl⟩
  | _ => exact absurd rfl hone

theorem Keyword.isWord_text (k : Keyword) : IsWord k.text := by
  cases k <;> exact ⟨_,_,rfl,by decide,by decide +kernel⟩

/-- The first byte of an item tells what it can be. -/
theorem Item.cases_first (h : Item (b :: text)) :
    (isLetter b = true ∧ ∀ c ∈ text, isWordByte c = true) ∨
    (isDigit b = true ∧ IsNumeral (b :: text)) ∨
    (b = quote ∧ ∃ body, text = body ++ [quote] ∧ quote ∉ body) ∨
    (isSign b = true ∧ ((∃ s : Symbol, s.text = b :: text) ∨
      b = 0x2f ∧ ∃ body, text = 0x2f :: body ∧ newline ∉ body)) := by
  generalize hwhole : b :: text = item at h
  cases h with
  | symbol s =>
    obtain ⟨b',rest,htext,hsign⟩ := s.text_cons
    obtain ⟨rfl,rfl⟩ := List.cons.inj (hwhole.trans htext)
    exact .inr (.inr (.inr ⟨hsign,.inl ⟨s,rfl⟩⟩))
  | word hword =>
    obtain ⟨b',rest,rfl,hletter,hrest⟩ := hword
    cases hwhole
    exact .inl ⟨hletter,hrest⟩
  | numeral hnumeral =>
    obtain ⟨b',rest,rfl,hdigit⟩ := hnumeral.cons
    cases hwhole
    exact .inr (.inl ⟨hdigit,hnumeral⟩)
  | @string body hbody =>
    cases hwhole
    exact .inr (.inr (.inl ⟨rfl,body,rfl,hbody⟩))
  | @comment body hbody =>
    cases hwhole
    exact .inr (.inr (.inr ⟨by decide,.inr ⟨rfl,body,rfl,hbody⟩⟩))

theorem Item.of_letter (h : Item (b :: text)) (hb : isLetter b = true) :
    ∀ c ∈ text, isWordByte c = true := by
  have hdigit := isDigit_of_isLetter hb
  rcases h.cases_first with h | h | h | h
  · exact h.2
  · rw [hdigit] at h
    cases h.1
  · rw [h.1] at hb
    cases hb
  · simp [isSign,hb] at h

theorem Item.of_digit (h : Item (b :: text)) (hb : isDigit b = true) : IsNumeral (b :: text) := by
  rcases h.cases_first with h | h | h | h
  · rw [isDigit_of_isLetter h.1] at hb
    cases hb
  · exact h.2
  · rw [h.1] at hb
    cases hb
  · simp [isSign,hb] at h

theorem Item.of_quote (h : Item (quote :: text)) : ∃ body, text = body ++ [quote] ∧ quote ∉ body := by
  rcases h.cases_first with h | h | h | h
  · cases h.1
  · cases h.1
  · exact h.2
  · cases h.1

theorem Item.of_sign (h : Item (b :: text)) (hb : isSign b = true) :
    (∃ s : Symbol, s.text = b :: text) ∨ b = 0x2f ∧ ∃ body, text = 0x2f :: body ∧ newline ∉ body := by
  rcases h.cases_first with h | h | h | h
  · simp [isSign,h.1] at hb
  · simp [isSign,h.1] at hb
  · simp [isSign,h.1] at hb
  · exact h.2

end

/-! ## Where an item ends

An item is the longest one exactly if what follows can not go on with it. -/

section

variable {text rest : Bytes}

theorem mem_takeWhile {p : UInt8 → Bool} {c : UInt8} (h : c ∈ text.takeWhile p) : p c = true :=
  List.all_eq_true.1 List.all_takeWhile c h

theorem takeWhile_exact {p : UInt8 → Bool} (hin : ∀ c ∈ text, p c = true)
    (hout : ∀ c ∈ rest.head?, p c = false) : (text ++ rest).takeWhile p = text := by
  rw [List.takeWhile_append_of_pos hin]
  cases rest with
  | nil => simp
  | cons c rest => simp [hout c rfl]

theorem dropWhile_exact {p : UInt8 → Bool} (hin : ∀ c ∈ text, p c = true)
    (hout : ∀ c ∈ rest.head?, p c = false) : (text ++ rest).dropWhile p = rest := by
  rw [List.dropWhile_append_of_pos hin]
  cases rest with
  | nil => simp
  | cons c rest => simp [hout c rfl]

/-- A run of bytes of a class can be told from what follows it. -/
theorem append_inj_of_run {p : UInt8 → Bool} {text' rest' : Bytes} (hin : ∀ c ∈ text, p c = true)
    (hin' : ∀ c ∈ text', p c = true) (hout : ∀ c ∈ rest.head?, p c = false)
    (hout' : ∀ c ∈ rest'.head?, p c = false) (h : text ++ rest = text' ++ rest') :
    text = text' ∧ rest = rest' := by
  have htake := takeWhile_exact hin hout
  rw [h,takeWhile_exact hin' hout'] at htake
  subst htake
  exact ⟨rfl,List.append_cancel_left h⟩

theorem bne_of_not_mem {b : UInt8} (h : b ∉ text) : ∀ c ∈ text, (c != b) = true := by
  intro c hc
  simpa using fun heq : c = b => h (heq ▸ hc)

theorem Segment.string_closed {body : Bytes} (hbody : quote ∉ body) (after : Bytes) :
    string (body ++ quote :: after) = (.token (.string body) (quote :: body ++ [quote]),after) := by
  have hin := bne_of_not_mem hbody
  have hout : ∀ c ∈ (quote :: after).head?, (c != quote) = false := by
    intro c hc
    cases hc
    decide
  rw [string,takeWhile_exact hin hout,dropWhile_exact hin hout]

theorem Segment.string_open {body : Bytes} (hbody : quote ∉ body) :
    string body = (.faulty .unterminatedString (quote :: body),[]) := by
  have hdrop : (body ++ []).dropWhile (· != quote) = [] :=
    dropWhile_exact (bne_of_not_mem hbody) (by simp)
  rw [List.append_nil] at hdrop
  rw [string,hdrop]

/-- A point is no digit. -/
theorem head_point (rest : Bytes) : ∀ c ∈ (0x2e :: rest).head?, isDigit c = false := by
  intro c hc
  cases hc
  decide

/-- Two bytes ahead show if a number goes on behind its whole part. -/
theorem Segment.number_eq_ite (input : Bytes) :
    let tail := input.dropWhile isDigit
    number input =
      if tail.headD 0 == 0x2e && isDigit (tail.tail.headD 0) then
        (float (input.takeWhile isDigit) (tail.tail.takeWhile isDigit),tail.tail.dropWhile isDigit)
      else (integer (input.takeWhile isDigit),tail) := by
  unfold number
  simp only
  cases input.dropWhile isDigit with
  | nil => rfl
  | cons c after =>
    by_cases hc : c = 0x2e
    · subst hc
      cases after with
      | nil => rfl
      | cons d after => cases hd : isDigit d <;> simp [hd]
    · simp [hc]

/-- What is longer than a text and starts like it starts with the text and the next byte. -/
theorem exists_gap {other : Bytes} (hother : other <+: text ++ rest) (hlong : text.length < other.length) :
    ∃ c tail more, other = text ++ c :: tail ∧ rest = c :: tail ++ more := by
  have htext : text <+: text ++ rest := List.prefix_append text rest
  obtain ⟨gap,rfl⟩ := List.prefix_of_prefix_length_le htext hother (Nat.le_of_lt hlong)
  obtain ⟨more,hmore⟩ := (List.prefix_append_right_inj text).1 hother
  cases gap with
  | nil => simp at hlong
  | cons c tail => exact ⟨c,tail,more,rfl,hmore.symm⟩

/-- A run of bytes of a class ends where the next byte is not of the class. -/
theorem length_le_of_run {p : UInt8 → Bool} {other : Bytes} (hother : other <+: text ++ rest)
    (hin : ∀ c ∈ other, p c = true) (hout : ∀ c ∈ rest.head?, p c = false) :
    other.length ≤ text.length := by
  apply Nat.le_of_not_lt
  intro hlong
  obtain ⟨c,tail,more,rfl,rfl⟩ := exists_gap hother hlong
  have hc : p c = true := hin c (by simp)
  rw [hout c rfl] at hc
  cases hc

/-- No item goes on where the longest one ends. -/
theorem Longest.not_item {more : Bytes} (gap : Bytes) (h : Longest text (gap ++ more))
    (hgap : gap ≠ []) : ¬ Item (text ++ gap) := by
  intro hitem
  have hlength := h _ hitem ⟨more,by simp⟩
  have hpos : 0 < gap.length := List.length_pos_iff.2 hgap
  rw [List.length_append] at hlength
  omega

theorem IsDigits.append (h : IsDigits text) {c : UInt8} (hc : isDigit c = true) :
    IsDigits (text ++ [c]) := by
  refine ⟨by simp,?_⟩
  intro d hd
  rcases List.mem_append.1 hd with hd | hd
  · exact h.2 d hd
  · exact List.mem_singleton.1 hd ▸ hc

theorem IsWord.append (h : IsWord text) {c : UInt8} (hc : isWordByte c = true) :
    IsWord (text ++ [c]) := by
  obtain ⟨b,word,rfl,hletter,hword⟩ := h
  refine ⟨b,word ++ [c],rfl,hletter,?_⟩
  intro d hd
  rcases List.mem_append.1 hd with hd | hd
  · exact hword d hd
  · exact List.mem_singleton.1 hd ▸ hc

/-- Items that start where a text starts, if the text starts with a digit. -/
theorem Item.isNumeral_of_isPrefix {other : Bytes} (hitem : Item other) (htext : IsNumeral text)
    (hother : other <+: text ++ rest) (hne : other ≠ []) : IsNumeral other := by
  obtain ⟨b,digits,rfl,hdigit⟩ := htext.cons
  cases other with
  | nil => exact absurd rfl hne
  | cons b' other =>
    obtain ⟨rfl,-⟩ := List.cons_prefix_cons.1 hother
    exact hitem.of_digit hdigit

theorem longest_word (h : IsWord text) :
    Longest text rest ↔ ∀ c ∈ rest.head?, isWordByte c = false := by
  constructor
  · intro hlongest c hc
    obtain ⟨more,rfl⟩ := List.head?_eq_some_iff.1 hc
    rw [Bool.eq_false_iff]
    intro hgo
    exact hlongest.not_item [c] (by simp) (.word (h.append hgo))
  · intro hout other hitem hother
    obtain ⟨b,word,rfl,hletter,hword⟩ := h
    cases other with
    | nil => exact Nat.zero_le _
    | cons b' word' =>
      obtain ⟨rfl,-⟩ := List.cons_prefix_cons.1 hother
      have hin : ∀ c ∈ b' :: word', isWordByte c = true := by
        intro c hc
        rcases List.mem_cons.1 hc with rfl | hc
        · simp [isWordByte,hletter]
        · exact hitem.of_letter hletter c hc
      exact length_le_of_run hother hin hout

/-- A run of digits in front of a byte that is none, in a text that starts with another run. -/
theorem digits_of_isPrefix {whole fraction digits : Bytes} {b : UInt8} (hwhole : IsDigits whole)
    (hb : isDigit b = false) (hdigits : IsDigits digits) (hrest : ∀ c ∈ rest.head?, isDigit c = false)
    (h : whole ++ b :: fraction <+: digits ++ rest) : whole = digits ∧ b :: fraction <+: rest := by
  obtain ⟨more,hmore⟩ := h
  have hout : ∀ c ∈ (b :: fraction ++ more).head?, isDigit c = false := by
    intro c hc
    cases hc
    exact hb
  rw [List.append_assoc] at hmore
  obtain ⟨rfl,htail⟩ := append_inj_of_run hwhole.2 hdigits.2 hout hrest hmore
  exact ⟨rfl,more,htail⟩

/-- A token that starts with a digit is a number. -/
theorem Lexeme.of_digit {kind : Kind} {b : UInt8} (h : Lexeme kind (b :: text))
    (hb : isDigit b = true) :
    (IsDigits (b :: text) ∧ digitsValue (b :: text) < Nat.pow 2 63) ∨
    ∃ whole fraction, b :: text = whole ++ 0x2e :: fraction ∧ IsDigits whole ∧ IsDigits fraction ∧
      (decimalFloat whole fraction).isInf = false := by
  generalize hlexeme : b :: text = lexeme at h ⊢
  have hword : ¬ IsWord lexeme := by
    rintro ⟨b',rest',rfl,hletter,-⟩
    cases hlexeme
    rw [isDigit_of_isLetter hletter] at hb
    cases hb
  cases h with
  | symbol s =>
    obtain ⟨b',rest',htext,hsign⟩ := s.text_cons
    obtain ⟨rfl,-⟩ := List.cons.inj (hlexeme.trans htext)
    simp [isSign,hb] at hsign
  | keyword k => exact absurd k.isWord_text hword
  | identifier h _ => exact absurd h hword
  | string _ =>
    cases hlexeme
    cases hb
  | integer hdigits hlt => exact .inl ⟨hdigits,hlt⟩
  | float hwhole hfraction hfinite => exact .inr ⟨_,_,rfl,hwhole,hfraction,hfinite⟩

theorem not_isDigits_fractional (whole fraction : Bytes) : ¬ IsDigits (whole ++ 0x2e :: fraction) := by
  intro h
  have hpoint := h.2 0x2e (by simp)
  cases hpoint

theorem Lexeme.of_isDigits {kind : Kind} (h : Lexeme kind text) (hdigits : IsDigits text) :
    digitsValue text < Nat.pow 2 63 := by
  obtain ⟨b,digits,rfl,hb⟩ := hdigits.cons
  rcases h.of_digit hb with ⟨-,hlt⟩ | ⟨whole,fraction,heq,-⟩
  · exact hlt
  · exact absurd (heq ▸ hdigits) (not_isDigits_fractional whole fraction)

theorem Lexeme.of_fractional {kind : Kind} {whole fraction : Bytes}
    (h : Lexeme kind (whole ++ 0x2e :: fraction)) (hwhole : IsDigits whole)
    (hfraction : IsDigits fraction) : (decimalFloat whole fraction).isInf = false := by
  obtain ⟨b,digits,hcons,hb⟩ := (IsNumeral.fractional hwhole hfraction).cons
  rw [hcons] at h
  rcases h.of_digit hb with ⟨hdigits,-⟩ | ⟨whole',fraction',heq,hwhole',hfraction',hfinite⟩
  · exact absurd (hcons ▸ hdigits) (not_isDigits_fractional whole fraction)
  · have hsame : whole' ++ 0x2e :: fraction' = whole ++ 0x2e :: fraction := heq.symm.trans hcons.symm
    have hprefix : whole' ++ 0x2e :: fraction' <+: whole ++ 0x2e :: fraction :=
      hsame ▸ List.prefix_refl _
    obtain ⟨rfl,-⟩ := digits_of_isPrefix hwhole' (by decide) hwhole (head_point fraction) hprefix
    rw [← hcons] at heq
    cases List.append_cancel_left heq
    exact hfinite

/-- What ends a run of digits: no digit follows, and no point with a digit behind it. -/
def EndsDigits (rest : Bytes) : Prop :=
  (∀ c ∈ rest.head?, isDigit c = false) ∧
    ∀ after, rest = 0x2e :: after → ∀ c ∈ after.head?, isDigit c = false

theorem longest_whole (h : IsDigits text) : Longest text rest ↔ EndsDigits rest := by
  constructor
  · intro hlongest
    refine ⟨?_,?_⟩
    · intro c hc
      obtain ⟨more,rfl⟩ := List.head?_eq_some_iff.1 hc
      rw [Bool.eq_false_iff]
      intro hgo
      exact hlongest.not_item [c] (by simp) (.numeral (.whole (h.append hgo)))
    · rintro after rfl c hc
      obtain ⟨more,rfl⟩ := List.head?_eq_some_iff.1 hc
      rw [Bool.eq_false_iff]
      intro hgo
      exact hlongest.not_item [0x2e,c] (by simp)
        (.numeral (.fractional h ⟨by simp,by simpa using hgo⟩))
  · rintro ⟨hout,hpoint⟩ other hitem hother
    cases other with
    | nil => exact Nat.zero_le _
    | cons b other =>
      have hnumeral := hitem.isNumeral_of_isPrefix (.whole h) hother (by simp)
      generalize b :: other = numeral at hnumeral hother
      cases hnumeral with
      | whole hdigits => exact length_le_of_run hother hdigits.2 hout
      | fractional hwhole hfraction =>
        obtain ⟨-,more,hmore⟩ := digits_of_isPrefix hwhole (by decide) h hout hother
        obtain ⟨c,tail,rfl,hc⟩ := hfraction.cons
        rw [hpoint _ hmore.symm c rfl] at hc
        cases hc

theorem longest_fractional {whole fraction : Bytes} (hwhole : IsDigits whole)
    (hfraction : IsDigits fraction) :
    Longest (whole ++ 0x2e :: fraction) rest ↔ ∀ c ∈ rest.head?, isDigit c = false := by
  constructor
  · intro hlongest c hc
    obtain ⟨more,rfl⟩ := List.head?_eq_some_iff.1 hc
    rw [Bool.eq_false_iff]
    intro hgo
    apply hlongest.not_item [c] (by simp)
    rw [List.append_assoc,List.cons_append]
    exact .numeral (.fractional hwhole (hfraction.append hgo))
  · intro hout other hitem hother
    cases other with
    | nil => exact Nat.zero_le _
    | cons b other =>
      have hnumeral := hitem.isNumeral_of_isPrefix (.fractional hwhole hfraction) hother (by simp)
      have hpoint := head_point (fraction ++ rest)
      rw [List.append_assoc,List.cons_append] at hother
      generalize b :: other = numeral at hnumeral hother
      rw [List.length_append,List.length_cons]
      cases hnumeral with
      | whole hdigits =>
        have hlength := length_le_of_run hother hdigits.2 hpoint
        omega
      | @fractional whole' fraction' hwhole' hfraction' =>
        obtain ⟨rfl,htail⟩ := digits_of_isPrefix hwhole' (by decide) hwhole hpoint hother
        have hlength := length_le_of_run (List.cons_prefix_cons.1 htail).2 hfraction'.2 hout
        rw [List.length_append,List.length_cons]
        omega

/-- A string ends at the first quote, so nothing else can start where it starts. -/
theorem longest_string (body : Bytes) :
    Longest (quote :: body ++ [quote]) rest := by
  intro other hitem hother
  cases other with
  | nil => exact Nat.zero_le _
  | cons b other =>
    obtain ⟨rfl,htail⟩ := List.cons_prefix_cons.1 hother
    obtain ⟨body',rfl,hbody'⟩ := hitem.of_quote
    have hin := bne_of_not_mem hbody'
    have hquote : ∀ c ∈ ([quote] ++ rest).head?, (c != quote) = false := by
      intro c hc
      cases hc
      decide
    have htail : body' ++ [quote] <+: body ++ ([quote] ++ rest) := by simpa using htail
    have hlength := length_le_of_run ((List.prefix_append body' [quote]).trans htail) hin hquote
    simp only [List.length_append,List.length_cons]
    omega

/-- What ends a symbol: no equals sign follows that it would take, and no second slash. -/
theorem longest_symbol (s : Symbol) :
    Longest s.text rest ↔ (∀ t, Segment.withEqual? s = some t → rest.head? ≠ some 0x3d) ∧
      (s = .slash → rest.head? ≠ some 0x2f) := by
  constructor
  · intro hlongest
    refine ⟨?_,?_⟩
    · intro t ht hhead
      obtain ⟨more,rfl⟩ := List.head?_eq_some_iff.1 hhead
      apply hlongest.not_item [0x3d] (by simp)
      rw [Segment.text_of_withEqual? ht]
      exact .symbol t
    · rintro rfl hhead
      obtain ⟨more,rfl⟩ := List.head?_eq_some_iff.1 hhead
      exact hlongest.not_item [0x2f] (by simp) (.comment List.not_mem_nil)
  · rintro ⟨hequal,hslash⟩ other hitem hother
    apply Nat.le_of_not_lt
    intro hlong
    obtain ⟨c,tail,more,rfl,rfl⟩ := exists_gap hother hlong
    obtain ⟨b,signs,hs,hsign⟩ := s.text_cons
    have hfirst : Item (b :: (signs ++ c :: tail)) := by
      rw [hs] at hitem
      exact hitem
    rcases hfirst.of_sign hsign with ⟨t,ht⟩ | ⟨rfl,body,hbody,-⟩
    · have htext : s.text ++ c :: tail = t.text := by
        rw [hs]
        exact ht.symm
      obtain ⟨hgo,rfl⟩ := Segment.withEqual?_of_text htext
      exact hequal t hgo rfl
    · cases signs with
      | nil =>
        obtain ⟨rfl,-⟩ := List.cons.inj hbody
        have hs : some Symbol.slash = some s := Segment.loneSymbol?_of_text hs
        exact hslash (Option.some.inj hs).symm rfl
      | cons sign signs => cases s <;> cases hs

end

end Scriptlet
