import Scriptlet.Proofs.Offsets

/-! # Scanning splits a source by its grammar

There is exactly one way to split a source into segments of the lexical grammar, and it is the one
that scanning finds. The tokens and the faults of a scan are those of the segments, in their order,
each with the line on which its segment ends.
-/
namespace Scriptlet

open Segment (quote)

/-! ## Scanning finds segments of the grammar -/

namespace Segment

variable {b : UInt8} {rest : Bytes}

theorem mem_blanks (h : isBlank b = true) : b ∈ [0x20,0x0d,0x09,newline] := by
  simpa [isBlank,or_assoc] using h

theorem head?_dropWhile (p : UInt8 → Bool) (l : Bytes) : ∀ c ∈ (l.dropWhile p).head?, p c = false := by
  intro c hc
  have hhead := List.head?_dropWhile_not p l
  rw [Option.mem_def.1 hc] at hhead
  simpa using hhead

theorem fits_string (rest : Bytes) : (string rest).1.Fits (string rest).2 := by
  by_cases hquote : quote ∈ rest
  · obtain ⟨body,after,rfl,hbody⟩ := List.eq_append_cons_of_mem hquote
    rw [string_closed hbody]
    exact ⟨.string hbody,longest_string _⟩
  · rw [string_open hquote]
    exact ⟨rfl,rest,rfl,hquote⟩

theorem fits_integer {digits : Bytes} (hdigits : IsDigits digits) (hrest : EndsDigits rest) :
    (integer digits).Fits rest := by
  have hlongest := (longest_whole hdigits).2 hrest
  unfold integer
  split
  · next hle =>
    have hlt : digitsValue digits < Nat.pow 2 63 := Nat.lt_of_le_of_lt hle (by decide)
    exact ⟨.integer hdigits hlt,hlongest⟩
  · next hgt =>
    refine ⟨.whole hdigits,?_,hlongest⟩
    intro kind hlexeme
    exact hgt (Nat.le_sub_one_of_lt (hlexeme.of_isDigits hdigits))

theorem fits_float {whole fraction : Bytes} (hwhole : IsDigits whole) (hfraction : IsDigits fraction)
    (hrest : ∀ c ∈ rest.head?, isDigit c = false) : (float whole fraction).Fits rest := by
  have hlongest := (longest_fractional hwhole hfraction).2 hrest
  simp only [float]
  split
  · next hinf =>
    refine ⟨.fractional hwhole hfraction,?_,hlongest⟩
    intro kind hlexeme
    have hfinite := hlexeme.of_fractional hwhole hfraction
    rw [decimalFloat,hinf] at hfinite
    cases hfinite
  · next hfinite =>
    exact ⟨.float hwhole hfraction (Bool.eq_false_iff.2 hfinite),hlongest⟩

theorem fits_number (hb : isDigit b = true) :
    (number (b :: rest)).1.Fits (number (b :: rest)).2 := by
  have hwhole : IsDigits ((b :: rest).takeWhile isDigit) := by
    refine ⟨by simp [hb],?_⟩
    intro c hc
    exact mem_takeWhile hc
  have hout := head?_dropWhile isDigit (b :: rest)
  unfold number
  simp only
  split
  · next after hdrop =>
    rw [hdrop] at hout ⊢
    split
    · next hnone =>
      refine fits_integer hwhole ⟨hout,?_⟩
      rintro after' hafter c hc
      cases hafter
      rw [Bool.eq_false_iff]
      intro hdigit
      obtain ⟨more,rfl⟩ := List.head?_eq_some_iff.1 hc
      simp [hdigit] at hnone
    · next hsome =>
      refine fits_float hwhole ⟨by simpa using hsome,?_⟩ (head?_dropWhile isDigit after)
      intro c hc
      exact mem_takeWhile hc
  · next hpoint =>
    refine fits_integer hwhole ⟨hout,?_⟩
    intro after hafter
    exact absurd hafter (hpoint after)

theorem fits_word (hb : isLetter b = true) : (word (b :: rest)).1.Fits (word (b :: rest)).2 := by
  have hbyte : isWordByte b = true := by simp [isWordByte,hb]
  have hword : IsWord ((b :: rest).takeWhile isWordByte) := by
    refine ⟨b,rest.takeWhile isWordByte,by simp [hbyte],hb,?_⟩
    intro c hc
    exact mem_takeWhile hc
  have hlongest := (longest_word hword).2 (head?_dropWhile isWordByte (b :: rest))
  refine ⟨?_,hlongest⟩
  cases hkeyword : Keyword.ofText? ((b :: rest).takeWhile isWordByte) with
  | none =>
    refine .identifier hword ?_
    rintro k hk
    have := List.find?_eq_none.1 hkeyword k (by cases k <;> decide)
    simp [hk] at this
  | some k =>
    have htext : k.text = (b :: rest).takeWhile isWordByte :=
      eq_of_beq (List.find?_some (p := fun k : Keyword => k.text == _) hkeyword)
    rw [← htext]
    exact .keyword k

theorem fits_symbol (hb : isSign b = true) (hcomment : ¬ (b = 0x2f ∧ rest.head? = some 0x2f)) :
    (symbol b rest).1.Fits (symbol b rest).2 := by
  cases hs : loneSymbol? b with
  | none =>
    simp only [symbol,hs]
    refine ⟨b,rfl,?_,?_⟩
    · simp [isSign,isBlank] at hb
      simp [hb]
    · intro text hitem
      rcases hitem.of_sign hb with ⟨s,htext⟩ | ⟨rfl,-⟩
      · have hsome := isSome_loneSymbol? htext
        rw [hs] at hsome
        cases hsome
      · cases hs
  | some s =>
    by_cases hequal : ∃ t, withEqual? s = some t ∧ rest.head? = some 0x3d
    · obtain ⟨t,ht,hhead⟩ := hequal
      obtain ⟨after,rfl⟩ := List.head?_eq_some_iff.1 hhead
      rw [symbol_of_equal hs ht]
      refine ⟨.symbol t,(longest_symbol t).2 ?_⟩
      cases s <;> cases ht <;> simp [withEqual?]
    · have hother : ∀ t, withEqual? s = some t → rest.head? ≠ some 0x3d :=
        fun t ht hhead => hequal ⟨t,ht,hhead⟩
      rw [symbol_of_other hs hother]
      refine ⟨.symbol s,(longest_symbol s).2 ⟨hother,?_⟩⟩
      rintro rfl hhead
      cases text_of_loneSymbol? hs
      exact hcomment ⟨rfl,hhead⟩

theorem fits_punctuation (hb : isSign b = true) :
    (punctuation b rest).1.Fits (punctuation b rest).2 := by
  by_cases hcomment : b = 0x2f ∧ rest.head? = some 0x2f
  · obtain ⟨rfl,hhead⟩ := hcomment
    obtain ⟨after,rfl⟩ := List.head?_eq_some_iff.1 hhead
    refine ⟨?_,?_⟩
    · intro hmem
      have hne := mem_takeWhile hmem
      simp at hne
    · intro c hc
      simpa using head?_dropWhile (· != newline) after c hc
  · rw [punctuation_eq_symbol hcomment]
    exact fits_symbol hb hcomment

theorem fits_next (b : UInt8) (rest : Bytes) : (next b rest).1.Fits (next b rest).2 := by
  unfold next
  split
  · next hblank => exact mem_blanks hblank
  split
  · exact fits_string rest
  split
  · next hdigit => exact fits_number hdigit
  split
  · next hletter => exact fits_word hletter
  · next hblank hquote hdigit hletter =>
    apply fits_punctuation
    simpa [isSign,hblank,hdigit,hletter] using hquote

end Segment

theorem splits_segments (source : Bytes) : Splits source (segments source) := by
  fun_induction segments source with
  | case1 => exact .nil
  | case2 b rest ih =>
    have hsplit := Splits.cons (Segment.fits_next b rest) ih
    rwa [Segment.text_next] at hsplit

/-! ## Scanning finds every segment of the grammar -/

namespace Segment

/-- Scanning takes `s` from the front of a source and leaves `rest`. -/
def Taken (s : Segment) (rest : Bytes) : Prop :=
  ∃ b tail, s.text ++ rest = b :: tail ∧ next b tail = (s,rest)

variable {rest : Bytes}

theorem taken_comment {body : Bytes} (hbody : newline ∉ body) (hrest : ∀ b ∈ rest.head?, b = newline) :
    (comment body).Taken rest := by
  have hin := bne_of_not_mem hbody
  have hout : ∀ c ∈ rest.head?, (c != newline) = false := by
    intro c hc
    simp [hrest c hc]
  refine ⟨0x2f,0x2f :: (body ++ rest),rfl,?_⟩
  have hnext : next 0x2f (0x2f :: (body ++ rest)) =
      (.comment ((body ++ rest).takeWhile (· != newline)),(body ++ rest).dropWhile (· != newline)) := rfl
  rw [hnext,takeWhile_exact hin hout,dropWhile_exact hin hout]

theorem next_of_letter {b : UInt8} (hb : isLetter b = true) (tail : Bytes) :
    next b tail = word (b :: tail) := by
  have hblank : isBlank b = false := by
    unfold isLetter at hb
    unfold isBlank newline
    grind
  have hquote : (b == quote) = false := by
    unfold isLetter at hb
    unfold quote
    grind
  simp [next,hblank,hquote,isDigit_of_isLetter hb,hb]

theorem next_of_digit {b : UInt8} (hb : isDigit b = true) (tail : Bytes) :
    next b tail = number (b :: tail) := by
  have hblank : isBlank b = false := by
    unfold isDigit at hb
    unfold isBlank newline
    grind
  have hquote : (b == quote) = false := by
    unfold isDigit at hb
    unfold quote
    grind
  simp [next,hblank,hquote,hb]

theorem next_of_sign {b : UInt8} (hb : isSign b = true) (tail : Bytes) :
    next b tail = punctuation b tail := by
  simp [isSign] at hb
  simp [next,hb]

theorem taken_word {text : Bytes} {kind : Kind} (hword : IsWord text) (hlongest : Longest text rest)
    (hkind : (Keyword.ofText? text).elim .identifier .keyword = kind) : (token kind text).Taken rest := by
  have hout := (longest_word hword).1 hlongest
  obtain ⟨b,tail,rfl,hletter,htail⟩ := hword
  have hin : ∀ c ∈ b :: tail, isWordByte c = true := by
    intro c hc
    rcases List.mem_cons.1 hc with rfl | hc
    · simp [isWordByte,hletter]
    · exact htail c hc
  refine ⟨b,tail ++ rest,rfl,?_⟩
  have htake := takeWhile_exact hin hout
  have hdrop := dropWhile_exact hin hout
  rw [List.cons_append] at htake hdrop
  rw [next_of_letter hletter,word,htake,hdrop,← hkind]
  cases Keyword.ofText? (b :: tail) <;> rfl

theorem taken_symbol (s : Symbol) (hlongest : Longest s.text rest) :
    (token (.symbol s) s.text).Taken rest := by
  obtain ⟨hother,hslash⟩ := (longest_symbol s).1 hlongest
  have hone : ∀ {b : UInt8}, s.text = [b] → (token (.symbol s) s.text).Taken rest := by
    intro b hs
    have hlone := loneSymbol?_of_text hs
    have hsign : isSign b = true := by
      obtain ⟨b',signs,hs',hsign⟩ := s.text_cons
      cases hs'.symm.trans hs
      exact hsign
    have hcomment : ¬ (b = 0x2f ∧ rest.head? = some 0x2f) := by
      rintro ⟨rfl,hhead⟩
      have hlone : some Symbol.slash = some s := hlone
      exact hslash (Option.some.inj hlone).symm hhead
    refine ⟨b,rest,by simp [text,hs],?_⟩
    rw [next_of_sign hsign,punctuation_eq_symbol hcomment,symbol_of_other hlone hother]
  cases s with
  | bangEqual | equalEqual | greaterEqual | lessEqual => exact ⟨_,_,rfl,rfl⟩
  | _ => exact hone rfl

theorem taken_string {body : Bytes} (hbody : quote ∉ body) :
    (token (.string body) (quote :: body ++ [quote])).Taken rest := by
  have hnext : ∀ tail, next quote tail = string tail := fun _ => rfl
  refine ⟨quote,body ++ quote :: rest,by simp [text],?_⟩
  rw [hnext,string_closed hbody]

theorem taken_integer {digits : Bytes} (hdigits : IsDigits digits) (hlongest : Longest digits rest) :
    (integer digits).Taken rest := by
  obtain ⟨hout,hpoint⟩ := (longest_whole hdigits).1 hlongest
  obtain ⟨b,tail,rfl,hb⟩ := hdigits.cons
  have htake := takeWhile_exact hdigits.2 hout
  have hdrop := dropWhile_exact hdigits.2 hout
  refine ⟨b,tail ++ rest,by rw [text_integer]; rfl,?_⟩
  rw [next_of_digit hb,number,← List.cons_append,htake,hdrop]
  split
  · next after =>
    have hnone : after.takeWhile isDigit = [] := by
      cases after with
      | nil => rfl
      | cons c after => simp [hpoint _ rfl c rfl]
    simp [hnone]
  · rfl

theorem taken_float {whole fraction : Bytes} (hwhole : IsDigits whole) (hfraction : IsDigits fraction)
    (hlongest : Longest (whole ++ 0x2e :: fraction) rest) : (float whole fraction).Taken rest := by
  have hout := (longest_fractional hwhole hfraction).1 hlongest
  obtain ⟨b,tail,rfl,hb⟩ := hwhole.cons
  have hpoint := head_point (fraction ++ rest)
  have htake := takeWhile_exact hwhole.2 hpoint
  have hdrop := dropWhile_exact hwhole.2 hpoint
  refine ⟨b,tail ++ 0x2e :: (fraction ++ rest),by simp [text_float],?_⟩
  rw [next_of_digit hb,number,← List.cons_append,htake,hdrop]
  simp [takeWhile_exact hfraction.2 hout,dropWhile_exact hfraction.2 hout,hfraction.1]

theorem taken_lexeme {kind : Kind} {text : Bytes} (h : Lexeme kind text) (hlongest : Longest text rest) :
    (token kind text).Taken rest := by
  cases h with
  | symbol s => exact taken_symbol s hlongest
  | keyword k =>
    refine taken_word k.isWord_text hlongest ?_
    cases k <;> rfl
  | identifier hword hnone =>
    refine taken_word hword hlongest ?_
    have hkeyword : Keyword.ofText? text = none := by
      refine List.find?_eq_none.2 ?_
      intro k _ hk
      exact hnone k (eq_of_beq hk).symm
    rw [hkeyword]
    rfl
  | string hbody => exact taken_string hbody
  | integer hdigits hlt =>
    have htaken := taken_integer hdigits hlongest
    have hle : digitsValue text ≤ maxInteger := Nat.le_sub_one_of_lt hlt
    rwa [integer,if_pos hle] at htaken
  | @float whole fraction hwhole hfraction hfinite =>
    have htaken := taken_float hwhole hfraction hlongest
    have hfloat : float whole fraction =
        .token (.float (decimalFloat whole fraction)) (whole ++ 0x2e :: fraction) := by
      unfold decimalFloat at hfinite
      simp [float,decimalFloat,hfinite]
    rwa [hfloat] at htaken

theorem taken_outOfRange {text : Bytes} (h : IsNumeral text) (hnone : ∀ kind, ¬ Lexeme kind text)
    (hlongest : Longest text rest) : (faulty .numberOutOfRange text).Taken rest := by
  cases h with
  | whole hdigits =>
    have htaken := taken_integer hdigits hlongest
    have hgt : ¬ digitsValue text ≤ maxInteger := by
      intro hle
      exact hnone _ (.integer hdigits (Nat.lt_of_le_of_lt hle (by decide)))
    rwa [integer,if_neg hgt] at htaken
  | @fractional whole fraction hwhole hfraction =>
    have htaken := taken_float hwhole hfraction hlongest
    have hinf : (decimalFloat whole fraction).isInf = true := by
      rw [← Bool.not_eq_false]
      intro hfinite
      exact hnone _ (.float hwhole hfraction hfinite)
    have hfloat : float whole fraction = .faulty .numberOutOfRange (whole ++ 0x2e :: fraction) := by
      unfold decimalFloat at hinf
      simp [float,hinf]
    rwa [hfloat] at htaken

theorem taken_unexpected {b : UInt8} (hmem : b ∉ [0x20,0x0d,0x09,newline,quote])
    (hnone : ∀ text, ¬ Item (b :: text)) : (faulty .unexpectedCharacter [b]).Taken rest := by
  have hdigit : isDigit b = false := by
    rw [Bool.eq_false_iff]
    intro hdigit
    exact hnone [] (.numeral (.whole ⟨by simp,by simpa using hdigit⟩))
  have hletter : isLetter b = false := by
    rw [Bool.eq_false_iff]
    intro hletter
    exact hnone [] (.word ⟨b,[],rfl,hletter,by simp⟩)
  have hsign : isSign b = true := by
    simp only [List.mem_cons,List.not_mem_nil,or_false,not_or] at hmem
    simp [isSign,isBlank,hdigit,hletter,hmem]
  have hcomment : ¬ (b = 0x2f ∧ rest.head? = some 0x2f) := by
    rintro ⟨rfl,-⟩
    exact hnone [] (.symbol .slash)
  have hlone : loneSymbol? b = none := by
    cases hs : loneSymbol? b with
    | none => rfl
    | some s =>
      have hitem := Item.symbol s
      rw [text_of_loneSymbol? hs] at hitem
      exact absurd hitem (hnone [])
  refine ⟨b,rest,rfl,?_⟩
  rw [next_of_sign hsign,punctuation_eq_symbol hcomment,symbol,hlone]

theorem taken_unterminated {body : Bytes} (hbody : quote ∉ body) :
    (faulty .unterminatedString (quote :: body)).Taken [] := by
  have hnext : next quote body = string body := rfl
  refine ⟨quote,body,by simp [text],?_⟩
  rw [hnext,string_open hbody]

theorem Fits.taken {s : Segment} (h : s.Fits rest) : s.Taken rest := by
  cases s with
  | blank b =>
    have hblank : isBlank b = true := by simpa [isBlank,or_assoc,Fits] using h
    exact ⟨b,rest,rfl,by simp [next,hblank]⟩
  | comment body => exact taken_comment h.1 h.2
  | token kind text => exact taken_lexeme h.1 h.2
  | faulty error stretch =>
    cases error with
    | unexpectedCharacter =>
      obtain ⟨b,rfl,hmem,hnone⟩ := h
      exact taken_unexpected hmem hnone
    | numberOutOfRange => exact taken_outOfRange h.1 h.2.1 h.2.2
    | unterminatedString =>
      obtain ⟨rfl,body,rfl,hbody⟩ := h
      exact taken_unterminated hbody

end Segment

/-- Scanning finds the one way to split a source into segments of the grammar. -/
theorem splits_iff {source : Bytes} {parts : List Segment} :
    Splits source parts ↔ parts = segments source := by
  constructor
  · intro h
    induction h with
    | nil => simp [segments]
    | cons hfits _ ih =>
      obtain ⟨b,tail,hsource,hnext⟩ := hfits.taken
      rw [hsource,segments,hnext,← ih]
  · rintro rfl
    exact splits_segments source

/-! ## Lines -/

/-- The segments of a source that starts on `line`, each with the line on which it ends. -/
def endLines (line : Nat) (parts : List Segment) : List (Segment × Nat) :=
  parts.mapIdx fun i s => (s,line + newlines ((parts.take (i + 1)).flatMap Segment.text))

/-- What a token segment says, with its line. -/
def Segment.lexeme? : Segment × Nat → Option (Kind × Bytes × Nat)
  | (.token kind lexeme,line) => some (kind,lexeme,line)
  | _ => none

def Segment.fault? : Segment × Nat → Option LexicalFault
  | (.faulty error _,line) => some ⟨error,line⟩
  | _ => none

theorem endLines_cons (line : Nat) (s : Segment) (rest : List Segment) :
    endLines line (s :: rest) =
      (s,line + newlines s.text) :: endLines (line + newlines s.text) rest := by
  simp [endLines,List.mapIdx_cons,newlines,Nat.add_assoc]

theorem lexemes_locate (line index : Nat) (parts : List Segment) :
    (locate line index parts).tokens.map (fun t => (t.kind,t.lexeme,t.line)) =
      (endLines line parts).filterMap Segment.lexeme? := by
  induction parts generalizing line index with
  | nil => rfl
  | cons s rest ih =>
    rw [endLines_cons]
    cases s with
    | token kind lexeme => simp [locate,ih,Segment.lexeme?]
    | _ => exact ih _ _

theorem faults_locate (line index : Nat) (parts : List Segment) :
    (locate line index parts).faults = (endLines line parts).filterMap Segment.fault? := by
  induction parts generalizing line index with
  | nil => rfl
  | cons s rest ih =>
    rw [endLines_cons]
    cases s with
    | faulty error stretch => simp [locate,ih,Segment.fault?]
    | _ => exact ih _ _

/-- Scanning is faithful to the lexical grammar. There is one way to split a source into segments of
the grammar, and nothing of the source is left out of it. The tokens are the token segments and the
faults the faulty ones, in order, each on the line that the source up to the end of its segment leads
to. A scanner that walks the source by offsets finds the same: it ends, and reads nothing outside of
the source. -/
theorem scanFrom_faithful (index : Nat) (source : Bytes) :
    (∃ parts : List Segment, (∀ other, Splits source other ↔ other = parts) ∧
      parts.flatMap Segment.text = source ∧
      (scanFrom index source).tokens.map (fun t => (t.kind,t.lexeme,t.line)) =
        (endLines 1 parts).filterMap Segment.lexeme? ∧
      (scanFrom index source).faults = (endLines 1 parts).filterMap Segment.fault? ∧
      (scanFrom index source).endLine = 1 + newlines source) ∧
    ∀ more : Nat, ScanHead.scan index source (source.length + 1 + more) = some (scanFrom index source) := by
  refine ⟨⟨segments source,fun _ => splits_iff,flatMap_text_segments source,?_,?_,?_⟩,?_⟩
  · exact lexemes_locate 1 index (segments source)
  · exact faults_locate 1 index (segments source)
  · have hend := endLine_locate 1 index (segments source)
    rwa [flatMap_text_segments] at hend
  · intro more
    exact ScanHead.scan_eq index (Nat.lt_add_right more (Nat.lt_succ_self source.length))

end Scriptlet
