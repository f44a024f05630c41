import Scriptlet.Session

/-! # Scanning two sources as one

A source is cut into segments without losing a byte, and a line end always cuts: no segment but a
string runs across it. So a source that leaves no string open, followed by a line end and another
source, has the tokens and the faults of both, the second ones further down.
-/
namespace Scriptlet

namespace Segment

/-! ## Segments cover the source -/

theorem text_string (rest : Bytes) : (string rest).1.text ++ (string rest).2 = quote :: rest := by
  have hsplit := List.takeWhile_append_dropWhile (p := (· != quote)) (l := rest)
  unfold string
  split
  · simp [text]
  · next b after hdrop =>
    obtain rfl : b = quote := by
      have hhead := List.head?_dropWhile_not (· != quote) rest
      simpa [hdrop] using hhead
    rw [hdrop] at hsplit
    simp [text,hsplit]

theorem text_integer (digits : Bytes) : (integer digits).text = digits := by
  unfold integer
  split <;> rfl

theorem text_float (whole fraction : Bytes) :
    (float whole fraction).text = whole ++ 0x2e :: fraction := by
  unfold float
  simp only
  split <;> rfl

theorem text_number (input : Bytes) : (number input).1.text ++ (number input).2 = input := by
  have hsplit := List.takeWhile_append_dropWhile (p := isDigit) (l := input)
  unfold number
  simp only
  split
  · next after hdrop =>
    rw [hdrop] at hsplit
    split
    · rw [text_integer,hdrop,hsplit]
    · have hfraction := List.takeWhile_append_dropWhile (p := isDigit) (l := after)
      simp [text_float,hfraction,hsplit]
  · rw [text_integer,hsplit]

theorem text_symbol (b : UInt8) (rest : Bytes) :
    (symbol b rest).1.text ++ (symbol b rest).2 = b :: rest := by
  unfold symbol
  split
  · rfl
  · split <;> rfl

theorem text_punctuation (b : UInt8) (rest : Bytes) :
    (punctuation b rest).1.text ++ (punctuation b rest).2 = b :: rest := by
  unfold punctuation
  split
  · next after =>
    simp [text,List.takeWhile_append_dropWhile]
  · exact text_symbol b rest

/-- No byte is lost between a segment and what follows it. -/
theorem text_next (b : UInt8) (rest : Bytes) : (next b rest).1.text ++ (next b rest).2 = b :: rest := by
  unfold next
  split
  · rfl
  split
  · next hquote => rw [text_string,eq_of_beq hquote]
  split
  · exact text_number (b :: rest)
  split
  · exact List.takeWhile_append_dropWhile
  · exact text_punctuation b rest

end Segment

theorem flatMap_text_segments (source : Bytes) : (segments source).flatMap Segment.text = source := by
  fun_induction segments source with
  | case1 => rfl
  | case2 b rest ih => rw [List.flatMap_cons,ih,Segment.text_next]

/-! ## Line ends cut -/

section

variable {p : UInt8 → Bool} (hp : p newline = false) (l more : Bytes)

include hp

theorem takeWhile_newline : (l ++ newline :: more).takeWhile p = l.takeWhile p := by
  induction l with
  | nil => simp [hp]
  | cons b l ih => cases hb : p b <;> simp [hb,ih]

theorem dropWhile_newline :
    (l ++ newline :: more).dropWhile p = l.dropWhile p ++ newline :: more := by
  induction l with
  | nil => simp [hp]
  | cons b l ih => cases hb : p b <;> simp [hb,ih]

end

namespace Segment

/-- What stands after a line end does not change the segments before it. -/
def Cut (x y : Segment × Bytes) (more : Bytes) : Prop := y = (x.1,x.2 ++ newline :: more)

/-- A string that has no end. -/
def isOpen : Segment → Bool
  | .faulty .unterminatedString _ => true
  | _ => false

variable (more : Bytes)

theorem cut_string (rest : Bytes) (h : (string rest).1.isOpen = false) :
    Cut (string rest) (string (rest ++ newline :: more)) more := by
  unfold string at h ⊢
  cases hdrop : rest.dropWhile (· != quote) with
  | nil => simp [hdrop,isOpen] at h
  | cons b after =>
    have hend : (rest ++ newline :: more).dropWhile (· != quote) = b :: after ++ newline :: more := by
      rw [List.dropWhile_append,hdrop]
      rfl
    have hlength : (rest.takeWhile (· != quote)).length ≠ rest.length := by
      have hsplit := congrArg List.length
        (List.takeWhile_append_dropWhile (p := (· != quote)) (l := rest))
      rw [hdrop,List.length_append,List.length_cons] at hsplit
      omega
    have hbody : (rest ++ newline :: more).takeWhile (· != quote) = rest.takeWhile (· != quote) := by
      rw [List.takeWhile_append,if_neg hlength]
    simp [Cut,hend,hbody]

theorem cut_number (input : Bytes) : Cut (number input) (number (input ++ newline :: more)) more := by
  have hdigit : isDigit newline = false := by decide
  simp only [number,takeWhile_newline hdigit,dropWhile_newline hdigit]
  cases input.dropWhile isDigit with
  | nil => rfl
  | cons b after =>
    by_cases hpoint : b = 0x2e
    · subst hpoint
      simp only [List.cons_append,takeWhile_newline hdigit,dropWhile_newline hdigit]
      split <;> rfl
    · simp [Cut,hpoint]

theorem cut_word (input : Bytes) : Cut (word input) (word (input ++ newline :: more)) more := by
  have hword : isWordByte newline = false := by decide
  simp [Cut,word,takeWhile_newline hword,dropWhile_newline hword]

theorem cut_symbol (b : UInt8) (rest : Bytes) :
    Cut (symbol b rest) (symbol b (rest ++ newline :: more)) more := by
  unfold symbol
  cases loneSymbol? b with
  | none => rfl
  | some s =>
    dsimp only
    cases rest with
    | nil => cases withEqual? s <;> rfl
    | cons c after =>
      by_cases hc : c = 0x3d
      · subst hc
        cases withEqual? s <;> rfl
      · cases withEqual? s <;> simp [Cut,hc]

theorem punctuation_eq_symbol {b : UInt8} {rest : Bytes}
    (h : ¬ (b = 0x2f ∧ rest.head? = some 0x2f)) : punctuation b rest = symbol b rest := by
  unfold punctuation
  split
  · simp at h
  · rfl

theorem cut_punctuation (b : UInt8) (rest : Bytes) :
    Cut (punctuation b rest) (punctuation b (rest ++ newline :: more)) more := by
  have hline : (newline != newline) = false := by decide
  by_cases hslash : b = 0x2f ∧ rest.head? = some 0x2f
  · obtain ⟨rfl,hhead⟩ := hslash
    obtain ⟨after,rfl⟩ := List.head?_eq_some_iff.1 hhead
    simp only [punctuation,List.cons_append,takeWhile_newline (p := (· != newline)) hline,
      dropWhile_newline (p := (· != newline)) hline]
    rfl
  · have hslash' : ¬ (b = 0x2f ∧ (rest ++ newline :: more).head? = some 0x2f) := by
      cases rest with
      | nil => simp [newline]
      | cons c after => simpa using hslash
    rw [punctuation_eq_symbol hslash,punctuation_eq_symbol hslash']
    exact cut_symbol more b rest

theorem cut_next (b : UInt8) (rest : Bytes) (h : (next b rest).1.isOpen = false) :
    Cut (next b rest) (next b (rest ++ newline :: more)) more := by
  unfold next at h ⊢
  by_cases hblank : isBlank b = true
  · simp [hblank,Cut]
  by_cases hquote : (b == quote) = true
  · simp only [hblank,hquote,if_true] at h ⊢
    exact cut_string more rest h
  by_cases hdigit : isDigit b = true
  · simp only [hblank,hquote,hdigit,if_true]
    exact cut_number more (b :: rest)
  by_cases hletter : isLetter b = true
  · simp only [hblank,hquote,hdigit,hletter,if_true]
    exact cut_word more (b :: rest)
  · simp only [hblank,hquote,hdigit,hletter]
    exact cut_punctuation more b rest

end Segment

/-- A line end cuts a source in two, unless it stands in a string. -/
theorem segments_append (source more : Bytes) (h : ∀ s ∈ segments source, s.isOpen = false) :
    segments (source ++ newline :: more) = segments source ++ .blank newline :: segments more := by
  fun_induction segments source with
  | case1 => rw [List.nil_append,segments]; rfl
  | case2 b rest ih =>
    obtain ⟨hfirst,hrest⟩ := List.forall_mem_cons.1 h
    rw [List.cons_append,segments,Segment.cut_next more b rest hfirst,List.cons_append,← ih hrest]

/-! ## Lines and places -/

theorem locate_append (line index : Nat) (xs ys : List Segment) :
    locate line index (xs ++ ys) =
      let first := locate line index xs
      let second := locate first.endLine (index + first.tokens.length) ys
      ⟨first.tokens ++ second.tokens,first.faults ++ second.faults,second.endLine⟩ := by
  induction xs generalizing line index with
  | nil => rfl
  | cons s rest ih =>
    cases s with
    | token kind lexeme =>
      simp only [List.cons_append,locate,ih,List.length_cons]
      rw [Nat.add_right_comm,Nat.add_assoc]
    | _ => simp [locate,ih]

/-- Segments that start further down. -/
theorem locate_down (line lines index : Nat) (xs : List Segment) :
    locate (line + lines) index xs =
      ⟨(locate line index xs).tokens.map fun t => { t with line := t.line + lines },
        (locate line index xs).faults.map fun f => { f with line := f.line + lines },
        (locate line index xs).endLine + lines⟩ := by
  induction xs generalizing line index with
  | nil => rfl
  | cons s rest ih =>
    have hline (text : Bytes) : line + lines + newlines text = line + newlines text + lines := by omega
    cases s <;> simp [locate,hline,ih]

/-- Tokens that take later places. -/
theorem locate_shift (line index places : Nat) (xs : List Segment) :
    locate line (index + places) xs =
      { locate line index xs with
        tokens := (locate line index xs).tokens.map fun t => { t with index := t.index + places } } := by
  induction xs generalizing line index with
  | nil => rfl
  | cons s rest ih =>
    cases s <;> simp [locate,ih,Nat.add_right_comm index places]

theorem endLine_locate (line index : Nat) (xs : List Segment) :
    (locate line index xs).endLine = line + newlines (xs.flatMap Segment.text) := by
  induction xs generalizing line index with
  | nil => simp [locate,newlines]
  | cons s rest ih =>
    have hcount : newlines ((s :: rest).flatMap Segment.text) =
        newlines s.text + newlines (rest.flatMap Segment.text) := by
      simp [newlines]
    rw [hcount,← Nat.add_assoc]
    cases s <;> exact ih _ _

theorem not_isOpen_of_faults {line index : Nat} {xs : List Segment}
    (h : ∀ f ∈ (locate line index xs).faults, f.error ≠ .unterminatedString) :
    ∀ s ∈ xs, s.isOpen = false := by
  induction xs generalizing line index with
  | nil => simp
  | cons s rest ih =>
    cases s with
    | faulty error stretch =>
      obtain ⟨herror,hrest⟩ := List.forall_mem_cons.1 h
      refine List.forall_mem_cons.2 ⟨?_,ih hrest⟩
      cases error with
      | unterminatedString => exact absurd rfl herror
      | _ => rfl
    | _ => exact List.forall_mem_cons.2 ⟨rfl,ih h⟩

/-- Two sources with a line end between them: the tokens of the first, then those of the second,
which are further down by the lines of the first. -/
theorem scanFrom_append {index : Nat} {source : Bytes} (more : Bytes)
    (h : ∀ f ∈ (scanFrom index source).faults, f.error ≠ .unterminatedString) :
    let place := index + (scanFrom index source).tokens.length
    let lines := newlines source + 1
    scanFrom index (source ++ newline :: more) =
      ⟨(scanFrom index source).tokens ++
          (scanFrom place more).tokens.map fun t => { t with line := t.line + lines },
        (scanFrom index source).faults ++
          (scanFrom place more).faults.map fun f => { f with line := f.line + lines },
        (scanFrom place more).endLine + lines⟩ := by
  intro place lines
  have hsegments := segments_append source more (not_isOpen_of_faults h)
  have hend := endLine_locate 1 index (segments source)
  rw [flatMap_text_segments] at hend
  have hsecond : locate (locate 1 index (segments source)).endLine place
      (.blank newline :: segments more) = locate (1 + lines) place (segments more) := by
    rw [hend]
    rfl
  rw [scanFrom,hsegments,locate_append]
  show Scan.mk (_ ++ (locate _ place _).tokens) (_ ++ (locate _ place _).faults)
    (locate _ place _).endLine = _
  rw [hsecond,locate_down]
  rfl

end Scriptlet
