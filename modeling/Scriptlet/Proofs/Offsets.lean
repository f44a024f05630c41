import Scriptlet.Proofs.Lexemes

/-! # Scanning at an offset

A scanner that never cuts its source. It stands at an offset, reads single bytes and stretches of the
source, and looks up to two bytes ahead; at the end it sees a zero byte, which a source can hold too.
To read outside of the source is a failure, and so is a loop that takes more rounds than its budget.
Each step is said for a head in front of some rest of the source. Then neither failure happens, and
what is found is what cutting the source into segments finds.
-/
namespace Scriptlet

open Segment (quote)

/-- Where the scanner stands: the offset at which the segment starts that it is in, the offset of the
next byte, and the line. What was found so far is kept newest first. -/
structure ScanHead where
  start : Nat := 0
  current : Nat := 0
  line : Nat := 1
  tokens : List Token := []
  faults : List LexicalFault := []

abbrev Scanning := StateT ScanHead Option

namespace ScanHead

/-! ## The scanner -/

section

variable (index : Nat) (source : Bytes) (n : Nat)

def byteAt (offset : Nat) : Scanning UInt8 := fun h => source[offset]?.map fun b => (b,h)

def stretch (first last : Nat) : Scanning Bytes := fun h =>
  if first ≤ last ∧ last ≤ source.length then some ((source.drop first).take (last - first),h) else none

def atEnd : Scanning Bool := return source.length ≤ (← get).current

/-- Reads the next byte and passes it. -/
def advance : Scanning UInt8 := do
  let b ← byteAt source (← get).current
  modify fun h => { h with current := h.current + 1 }
  return b

def pass : Scanning Unit := discard (advance source)

/-- Passes the next byte if it is the wanted one. -/
def accept (wanted : UInt8) : Scanning Bool := do
  if ← atEnd source then return false
  else if (← byteAt source (← get).current) = wanted then
    modify fun h => { h with current := h.current + 1 }
    return true
  else return false

/-- The next byte, or the zero byte at the end. -/
def peek : Scanning UInt8 := do
  if ← atEnd source then return 0 else byteAt source (← get).current

/-- The byte behind the next one, or the zero byte where there is none. -/
def peekNext : Scanning UInt8 := do
  let offset := (← get).current + 1
  if source.length ≤ offset then return 0 else byteAt source offset

def nextLine : Scanning Unit := modify fun h => { h with line := h.line + 1 }

/-- What a segment stands for is kept with what was found before. -/
def note (s : Segment) (h : ScanHead) : ScanHead :=
  match s with
  | .token kind lexeme =>
    { h with tokens := ⟨kind,lexeme,h.line,index + h.tokens.length⟩ :: h.tokens }
  | .faulty error _ => { h with faults := ⟨error,h.line⟩ :: h.faults }
  | .blank _ | .comment _ => h

def record (s : Segment) : Scanning Unit := modify (note index s)

/-- The text of the segment so far. -/
def lexeme : Scanning Bytes := do
  let h ← get
  stretch source h.start h.current

def emit (kind : Kind) : Scanning Unit := do record index (.token kind (← lexeme source))

def report (error : LexicalError) : Scanning Unit := record index (.faulty error [])

def loop (condition : Scanning Bool) (body : Scanning Unit) : Nat → Scanning Unit
  | 0 => failure
  | n + 1 => do
    if ← condition then
      body
      loop condition body n

/-- Passes the bytes in front of a closing one, or up to the end. -/
def passUpTo (closing : UInt8) (body : Scanning Unit) : Scanning Unit :=
  loop (return (← peek source) != closing && !(← atEnd source)) body n

/-- Passes the bytes of a class. The zero byte is of no class, so this stops at the end. -/
def passAll (p : UInt8 → Bool) : Scanning Unit :=
  loop (return p (← peek source)) (pass source) n

/-- A comment, from behind its second slash. -/
def comment : Scanning Unit := passUpTo source n newline (pass source)

/-- Passes a byte of a string, which may end a line. -/
def stringByte : Scanning Unit := do
  if (← peek source) = newline then nextLine
  pass source

/-- A string, from behind its first quote. -/
def string : Scanning Unit := do
  passUpTo source n quote (stringByte source)
  if ← atEnd source then report index .unterminatedString
  else
    pass source
    let h ← get
    emit index source (.string (← stretch source (h.start + 1) (h.current - 1)))

/-- The rest of a number, from in front of its point. -/
def fraction : Scanning Unit := do
  pass source
  passAll source n isDigit
  let text ← lexeme source
  record index (.float (text.takeWhile isDigit) (text.dropWhile isDigit).tail)

/-- A number, from behind its first digit. -/
def number : Scanning Unit := do
  passAll source n isDigit
  if (← peek source) == 0x2e && isDigit (← peekNext source) then fraction index source n
  else record index (.integer (← lexeme source))

/-- A word, from behind its first letter. -/
def word : Scanning Unit := do
  passAll source n isWordByte
  match Keyword.ofText? (← lexeme source) with
  | some k => emit index source (.keyword k)
  | none => emit index source .identifier

def symbol (b : UInt8) : Scanning Unit := do
  match Segment.loneSymbol? b with
  | none => report index .unexpectedCharacter
  | some s =>
    match Segment.withEqual? s with
    | none => emit index source (.symbol s)
    | some t =>
      if ← accept source 0x3d then emit index source (.symbol t) else emit index source (.symbol s)

def punctuation (b : UInt8) : Scanning Unit :=
  if b = 0x2f then do
    if ← accept source 0x2f then comment source n else emit index source (.symbol .slash)
  else symbol index source b

def segment : Scanning Unit := do
  let b ← advance source
  if b = newline then nextLine
  else if Segment.isBlank b then return ()
  else if b = quote then string index source n
  else if isDigit b then number index source n
  else if isLetter b then word index source n
  else punctuation index source n b

def segments : Nat → Scanning Unit
  | 0 => failure
  | rounds + 1 => do
    if ← atEnd source then return ()
    else
      modify fun h => { h with start := h.current }
      segment index source n
      segments rounds

/-- Scans a source whose first token takes the place `index`. -/
def scan : Option Scan := do
  let (_,h) ← segments index source n n {}
  return ⟨h.tokens.reverse,h.faults.reverse,h.line⟩

end

/-! ## Single steps -/

theorem bind_of {α β : Type} {x : Scanning α} {a : α} {h h' : ScanHead}
    (hx : x h = some (a,h')) (f : α → Scanning β) : (x >>= f) h = f a h' := by
  simp [bind,StateT.bind,hx]

theorem bind_get {α : Type} (f : ScanHead → Scanning α) (h : ScanHead) : (get >>= f) h = f h h := rfl

theorem discard_of {α : Type} {x : Scanning α} {a : α} {h h' : ScanHead}
    (hx : x h = some (a,h')) : discard x h = some ((),h') := by
  simp [discard,Functor.discard,Functor.mapConst,StateT.map,hx]

/-- The head behind some more text. -/
def past (text : Bytes) (h : ScanHead) : ScanHead :=
  { h with current := h.current + text.length, line := h.line + newlines text }

/-- The head stands in front of `rest`, the last part of the source. -/
def Before (source rest : Bytes) (h : ScanHead) : Prop :=
  ∃ front, source = front ++ rest ∧ h.current = front.length

@[simp] theorem past_past (text more : Bytes) (h : ScanHead) :
    (h.past text).past more = h.past (text ++ more) := by
  simp [past,newlines,Nat.add_assoc]

section

variable {index n : Nat} {source text rest : Bytes} {b : UInt8} {h : ScanHead}

theorem Before.past (hat : h.Before source (text ++ rest)) : (h.past text).Before source rest := by
  obtain ⟨front,rfl,hcurrent⟩ := hat
  refine ⟨front ++ text,by simp,?_⟩
  rw [List.length_append,← hcurrent]
  rfl

theorem Before.next (hat : h.Before source (b :: rest)) : (h.past [b]).Before source rest := by
  have hfirst : h.Before source ([b] ++ rest) := hat
  exact hfirst.past

theorem Before.length_le (hat : h.Before source rest) (k : Nat) :
    source.length ≤ h.current + k ↔ rest.length ≤ k := by
  obtain ⟨front,rfl,hcurrent⟩ := hat
  rw [hcurrent,List.length_append,Nat.add_le_add_iff_left]

theorem Before.byteAt_eq (hat : h.Before source rest) (k : Nat) (hb : rest[k]? = some b) :
    byteAt source (h.current + k) h = some (b,h) := by
  obtain ⟨front,rfl,hcurrent⟩ := hat
  have hbyte : (front ++ rest)[h.current + k]? = some b := by
    rw [hcurrent,List.getElem?_append_right (Nat.le_add_right _ _),Nat.add_sub_cancel_left,hb]
  simp [byteAt,hbyte]

theorem Before.nextByte_eq (hat : h.Before source (b :: rest)) : byteAt source h.current h = some (b,h) :=
  hat.byteAt_eq 0 rfl

theorem Before.stretch_eq (hat : h.Before source (text ++ rest)) (h' : ScanHead) :
    stretch source h.current (h.current + text.length) h' = some (text,h') := by
  obtain ⟨front,rfl,hcurrent⟩ := hat
  simp [stretch,hcurrent]

theorem Before.atEnd_eq (hat : h.Before source rest) : atEnd source h = some (rest.isEmpty,h) := by
  have hend : decide (source.length ≤ h.current) = rest.isEmpty := by
    have hiff := hat.length_le 0
    cases rest <;> simpa using hiff
  exact congrArg (fun e => some (e,h)) hend

theorem Before.peek_eq (hat : h.Before source rest) : peek source h = some (rest.headD 0,h) := by
  rw [peek,bind_of hat.atEnd_eq]
  cases rest with
  | nil => rfl
  | cons b rest => exact hat.nextByte_eq

theorem Before.peekNext_eq (hat : h.Before source rest) :
    peekNext source h = some (rest.tail.headD 0,h) := by
  have hend := hat.length_le 1
  rw [peekNext,bind_get]
  cases rest with
  | nil =>
    rw [if_pos (hend.2 (Nat.zero_le 1))]
    rfl
  | cons b rest =>
    cases rest with
    | nil =>
      rw [if_pos (hend.2 (Nat.le_refl 1))]
      rfl
    | cons c rest =>
      rw [if_neg (by simp [hend])]
      exact hat.byteAt_eq 1 rfl

theorem Before.advance_eq (hat : h.Before source (b :: rest)) :
    advance source h = some (b,{ h with current := h.current + 1 }) := by
  rw [advance,bind_get,bind_of hat.nextByte_eq]
  rfl

theorem past_of_ne (hb : b ≠ newline) : { h with current := h.current + 1 } = h.past [b] := by
  simp [past,newlines,hb]

/-- A byte that ends no line. -/
theorem Before.pass_eq (hat : h.Before source (b :: rest)) (hb : b ≠ newline) :
    pass source h = some ((),h.past [b]) := by
  rw [← past_of_ne hb]
  exact discard_of hat.advance_eq

theorem Before.accept_eq (hat : h.Before source (b :: rest)) (hb : b ≠ newline) :
    accept source b h = some (true,h.past [b]) := by
  rw [accept,bind_of hat.atEnd_eq,← past_of_ne hb]
  simp only [List.isEmpty_cons,Bool.false_eq_true,if_false]
  rw [bind_get,bind_of hat.nextByte_eq,if_pos rfl]
  rfl

theorem Before.accept_of_ne (hat : h.Before source rest) (hb : rest.head? ≠ some b) :
    accept source b h = some (false,h) := by
  rw [accept,bind_of hat.atEnd_eq]
  cases rest with
  | nil => rfl
  | cons c rest =>
    simp only [List.isEmpty_cons,Bool.false_eq_true,if_false]
    rw [bind_get,bind_of hat.nextByte_eq,if_neg (by simpa using hb)]
    rfl

/-- The text of a segment whose end is reached. -/
theorem Before.lexeme_eq (hat : h.Before source (text ++ rest)) (hstart : h.start = h.current) :
    lexeme source (h.past text) = some (text,h.past text) := by
  rw [lexeme,bind_get]
  change stretch source h.start (h.current + text.length) _ = _
  rw [hstart,hat.stretch_eq]

/-- The head behind a segment, with what the segment stands for. -/
def take (index : Nat) (s : Segment) (h : ScanHead) : ScanHead := (h.past s.text).note index s

theorem record_eq {s : Segment} (hs : s.text = text) :
    record index s (h.past text) = some ((),h.take index s) := by
  subst hs
  rfl

theorem Before.emit_eq (hat : h.Before source (text ++ rest)) (hstart : h.start = h.current)
    (kind : Kind) : emit index source kind (h.past text) = some ((),h.take index (.token kind text)) := by
  rw [emit,bind_of (hat.lexeme_eq hstart)]
  exact record_eq rfl

theorem report_eq (error : LexicalError) :
    report index error (h.past text) = some ((),h.take index (.faulty error text)) := rfl

/-! ## Loops -/

/-- A loop over the bytes of a class ends behind the last of them. -/
theorem Before.loop_eq {condition : Scanning Bool} {body : Scanning Unit} {p : UInt8 → Bool}
    (hcondition : ∀ {rest h}, h.Before source rest → condition h = some (rest.head?.any p,h))
    (hbody : ∀ {b rest h}, h.Before source (b :: rest) → p b = true → body h = some ((),h.past [b]))
    (hat : h.Before source rest) (hn : rest.length < n) :
    loop condition body n h = some ((),h.past (rest.takeWhile p)) := by
  induction n generalizing rest h with
  | zero => exact absurd hn (Nat.not_lt_zero _)
  | succ n ih =>
    rw [loop,bind_of (hcondition hat)]
    cases rest with
    | nil => rfl
    | cons b rest =>
      cases hb : p b with
      | false =>
        simp only [List.head?_cons,Option.any_some,hb,List.takeWhile_cons]
        rfl
      | true =>
        simp only [List.head?_cons,Option.any_some,hb,if_true]
        rw [bind_of (hbody hat hb),ih hat.next (Nat.lt_of_succ_lt_succ hn)]
        simp [hb]

theorem Before.passAll_eq {p : UInt8 → Bool} (hzero : p 0 = false) (hline : p newline = false)
    (hat : h.Before source rest) (hn : rest.length < n) :
    passAll source n p h = some ((),h.past (rest.takeWhile p)) := by
  refine Before.loop_eq ?_ ?_ hat hn
  · intro rest h hat
    rw [bind_of hat.peek_eq]
    cases rest with
    | nil => exact congrArg (fun e => some (e,h)) hzero
    | cons b rest => rfl
  · intro b rest h hat hb
    refine hat.pass_eq ?_
    rintro rfl
    rw [hline] at hb
    cases hb

theorem Before.passUpTo_eq {closing : UInt8} {body : Scanning Unit}
    (hbody : ∀ {b rest h}, h.Before source (b :: rest) → b ≠ closing → body h = some ((),h.past [b]))
    (hat : h.Before source rest) (hn : rest.length < n) :
    passUpTo source n closing body h = some ((),h.past (rest.takeWhile (· != closing))) := by
  refine Before.loop_eq ?_ ?_ hat hn
  · intro rest h hat
    rw [bind_of hat.peek_eq,bind_of hat.atEnd_eq]
    cases rest with
    | nil => exact congrArg (fun e => some (e,h)) (Bool.and_false _)
    | cons b rest => exact congrArg (fun e => some (e,h)) (Bool.and_true _)
  · intro b rest h hat hb
    exact hbody hat (by simpa using hb)

/-- A byte of a string, which may end a line. -/
theorem Before.stringByte_eq (hat : h.Before source (b :: rest)) :
    stringByte source h = some ((),h.past [b]) := by
  rw [stringByte,bind_of hat.peek_eq,List.headD_cons]
  by_cases hb : b = newline
  · subst hb
    rw [if_pos rfl]
    have hline : ({ h with line := h.line + 1 } : ScanHead).Before source (newline :: rest) := hat
    exact discard_of hline.advance_eq
  · rw [if_neg hb]
    exact hat.pass_eq hb

/-! ## Segments

Each starts where the head stands at first, and a byte of it is passed.
-/

theorem Before.comment_eq (hat : h.Before source (0x2f :: 0x2f :: rest)) (hn : rest.length < n) :
    comment source n (h.past [0x2f,0x2f]) =
      some ((),h.take index (.comment (rest.takeWhile (· != newline)))) := by
  have hopen : h.Before source ([0x2f,0x2f] ++ rest) := hat
  rw [comment,hopen.past.passUpTo_eq Before.pass_eq hn,past_past]
  rfl

/-- What stands between the quotes of a string. -/
theorem Before.body_eq {body after : Bytes} (hat : h.Before source (quote :: (body ++ quote :: after)))
    (hstart : h.start = h.current) :
    let h' := h.past (quote :: body ++ [quote])
    stretch source (h'.start + 1) (h'.current - 1) h' = some (body,h') := by
  intro h'
  have hbody := hat.next.stretch_eq h'
  have hlast : h'.current - 1 = h.current + 1 + body.length := by
    simp [h',ScanHead.past]
    omega
  rw [hlast]
  change stretch source (h.start + 1) _ h' = _
  rw [hstart]
  exact hbody

theorem Before.string_eq (hat : h.Before source (quote :: rest)) (hstart : h.start = h.current)
    (hn : rest.length < n) :
    string index source n (h.past [quote]) = some ((),h.take index (Segment.string rest).1) := by
  rw [string,bind_of (hat.next.passUpTo_eq (fun hat _ => hat.stringByte_eq) hn),past_past]
  by_cases hquote : quote ∈ rest
  · obtain ⟨body,after,rfl,hbody⟩ := List.eq_append_cons_of_mem hquote
    have hclosing : (h.past ([quote] ++ body)).Before source (quote :: after) := hat.past
    have hwhole : h.Before source (quote :: body ++ [quote] ++ after) := by simpa using hat
    rw [takeWhile_exact (bne_of_not_mem hbody) (by simp),bind_of hclosing.atEnd_eq,
      Segment.string_closed hbody]
    simp only [List.isEmpty_cons,Bool.false_eq_true,if_false]
    rw [bind_of (hclosing.pass_eq (by decide)),past_past,bind_get]
    exact (bind_of (hat.body_eq hstart) _).trans (hwhole.emit_eq hstart (.string body))
  · have hend : (h.past ([quote] ++ rest)).Before source [] := by
      refine Before.past ?_
      rwa [List.append_nil]
    have hall : (rest ++ []).takeWhile (· != quote) = rest :=
      takeWhile_exact (bne_of_not_mem hquote) (by simp)
    rw [List.append_nil] at hall
    rw [hall,bind_of hend.atEnd_eq,Segment.string_open hquote]
    exact report_eq .unterminatedString

theorem Before.fraction_eq {whole : Bytes} (hat : h.Before source (whole ++ 0x2e :: rest))
    (hwhole : ∀ c ∈ whole, isDigit c = true) (hstart : h.start = h.current) (hn : rest.length < n) :
    fraction index source n (h.past whole) =
      some ((),h.take index (Segment.float whole (rest.takeWhile isDigit))) := by
  have hpoint := head_point (rest.takeWhile isDigit)
  have hsplit := List.takeWhile_append_dropWhile (p := isDigit) (l := rest)
  have hbehind : (h.past (whole ++ [0x2e])).Before source rest := by
    refine Before.past ?_
    rwa [List.append_assoc]
  have hall : h.Before source (whole ++ 0x2e :: rest.takeWhile isDigit ++ rest.dropWhile isDigit) := by
    rwa [List.append_assoc,List.cons_append,hsplit]
  rw [fraction,bind_of (hat.past.pass_eq (by decide)),past_past,
    bind_of (hbehind.passAll_eq (by decide) (by decide) hn),past_past,List.append_assoc,
    List.singleton_append,bind_of (hall.lexeme_eq hstart),takeWhile_exact hwhole hpoint,
    dropWhile_exact hwhole hpoint]
  exact record_eq (Segment.text_float whole _)

theorem Before.number_eq (hat : h.Before source (b :: rest)) (hb : isDigit b = true)
    (hstart : h.start = h.current) (hn : rest.length < n) :
    number index source n (h.past [b]) = some ((),h.take index (Segment.number (b :: rest)).1) := by
  have hrun : (b :: rest).takeWhile isDigit = [b] ++ rest.takeWhile isDigit := by simp [hb]
  have hwhole : ∀ c ∈ (b :: rest).takeWhile isDigit, isDigit c = true := fun _ => mem_takeWhile
  have hlength : ((b :: rest).dropWhile isDigit).length ≤ rest.length := by
    rw [List.dropWhile_cons_of_pos hb]
    exact Segment.length_dropWhile_le isDigit rest
  rw [number,bind_of (hat.next.passAll_eq (by decide) (by decide) hn),past_past,← hrun,
    Segment.number_eq_ite]
  rw [← List.takeWhile_append_dropWhile (p := isDigit) (l := b :: rest)] at hat
  generalize (b :: rest).takeWhile isDigit = whole at hat hwhole ⊢
  generalize (b :: rest).dropWhile isDigit = tail at hat hlength ⊢
  rw [bind_of hat.past.peek_eq,bind_of hat.past.peekNext_eq]
  split
  · next hpoint =>
    obtain ⟨hfirst,-⟩ := Bool.and_eq_true_iff.1 hpoint
    cases tail with
    | nil => cases hfirst
    | cons c after =>
      obtain rfl : c = 0x2e := eq_of_beq hfirst
      exact hat.fraction_eq hwhole hstart (Nat.lt_of_lt_of_le hlength (Nat.le_of_lt hn))
  · rw [bind_of (hat.lexeme_eq hstart)]
    exact record_eq (Segment.text_integer whole)

theorem Before.word_eq (hat : h.Before source (b :: rest)) (hb : isLetter b = true)
    (hstart : h.start = h.current) (hn : rest.length < n) :
    word index source n (h.past [b]) = some ((),h.take index (Segment.word (b :: rest)).1) := by
  have hbyte : isWordByte b = true := by simp [isWordByte,hb]
  have hrun : (b :: rest).takeWhile isWordByte = [b] ++ rest.takeWhile isWordByte := by simp [hbyte]
  rw [word,bind_of (hat.next.passAll_eq (by decide) (by decide) hn),past_past,← hrun,Segment.word]
  rw [← List.takeWhile_append_dropWhile (p := isWordByte) (l := b :: rest)] at hat
  rw [bind_of (hat.lexeme_eq hstart)]
  cases Keyword.ofText? ((b :: rest).takeWhile isWordByte) with
  | none => exact hat.emit_eq hstart .identifier
  | some k => exact hat.emit_eq hstart (.keyword k)

theorem Before.symbol_eq (hat : h.Before source (b :: rest)) (hstart : h.start = h.current) :
    symbol index source b (h.past [b]) = some ((),h.take index (Segment.symbol b rest).1) := by
  have hone : h.Before source ([b] ++ rest) := hat
  unfold symbol
  cases hs : Segment.loneSymbol? b with
  | none =>
    simp only [Segment.symbol,hs]
    exact report_eq .unexpectedCharacter
  | some s =>
    have htext := Segment.text_of_loneSymbol? hs
    by_cases hequal : ∃ t, Segment.withEqual? s = some t ∧ rest.head? = some 0x3d
    · obtain ⟨t,ht,hhead⟩ := hequal
      obtain ⟨after,rfl⟩ := List.head?_eq_some_iff.1 hhead
      have htwo : h.Before source ([b,0x3d] ++ after) := hat
      simp only [ht]
      rw [bind_of (hat.next.accept_eq (by decide)),past_past,Segment.symbol_of_equal hs ht,
        ← Segment.text_of_withEqual? ht,htext]
      exact htwo.emit_eq hstart (.symbol t)
    · have hother : ∀ t, Segment.withEqual? s = some t → rest.head? ≠ some 0x3d :=
        fun t ht hhead => hequal ⟨t,ht,hhead⟩
      rw [Segment.symbol_of_other hs hother,htext]
      cases ht : Segment.withEqual? s with
      | none =>
        simp only [ht]
        exact hone.emit_eq hstart (.symbol s)
      | some t =>
        simp only [ht]
        rw [bind_of (hat.next.accept_of_ne (hother t ht))]
        exact hone.emit_eq hstart (.symbol s)

/-- A comment, or what starts with a byte of no class. -/
theorem Before.punctuation_eq (hat : h.Before source (b :: rest)) (hstart : h.start = h.current)
    (hn : rest.length < n) :
    punctuation index source n b (h.past [b]) =
      some ((),h.take index (Segment.punctuation b rest).1) := by
  by_cases hslash : b = 0x2f
  · subst hslash
    rw [punctuation,if_pos rfl]
    by_cases hcomment : rest.head? = some 0x2f
    · obtain ⟨after,rfl⟩ := List.head?_eq_some_iff.1 hcomment
      rw [bind_of (hat.next.accept_eq (by decide)),past_past]
      exact hat.comment_eq (Nat.lt_of_succ_lt hn)
    · rw [bind_of (hat.next.accept_of_ne hcomment),Segment.punctuation_eq_symbol (by simp [hcomment])]
      exact hat.emit_eq hstart (.symbol .slash)
  · rw [punctuation,if_neg hslash,Segment.punctuation_eq_symbol (by simp [hslash])]
    exact hat.symbol_eq hstart

theorem Before.segment_eq (hat : h.Before source (b :: rest)) (hstart : h.start = h.current)
    (hn : rest.length < n) :
    segment index source n h = some ((),h.take index (Segment.next b rest).1) := by
  rw [segment,bind_of hat.advance_eq]
  by_cases hline : b = newline
  · subst hline
    rfl
  rw [if_neg hline,past_of_ne hline]
  unfold Segment.next
  by_cases hblank : Segment.isBlank b = true
  · simp only [hblank,if_true]
    rfl
  by_cases hquote : b = quote
  · subst hquote
    simp only [hblank,if_true,beq_self_eq_true]
    exact hat.string_eq hstart hn
  by_cases hdigit : isDigit b = true
  · simp only [hblank,hquote,hdigit,beq_iff_eq,if_true,if_false]
    exact hat.number_eq hdigit hstart hn
  by_cases hletter : isLetter b = true
  · simp only [hblank,hquote,hdigit,hletter,beq_iff_eq,if_true,if_false]
    exact hat.word_eq hletter hstart hn
  simp only [hblank,hquote,hdigit,hletter,beq_iff_eq,if_false]
  exact hat.punctuation_eq hstart hn

theorem Before.take (index : Nat) {s : Segment} (hat : h.Before source (s.text ++ rest)) :
    (h.take index s).Before source rest := by
  cases s <;> exact hat.past

end

/-! ## Whole sources -/

/-- The head at the end of the source, where it is behind some segments. -/
def behind (index start last : Nat) (parts : List Segment) (h : ScanHead) : ScanHead :=
  let found := locate h.line (index + h.tokens.length) parts
  ⟨start,last,found.endLine,found.tokens.reverse ++ h.tokens,found.faults.reverse ++ h.faults⟩

theorem behind_cons (index start last : Nat) (s : Segment) (parts : List Segment) (h : ScanHead) :
    h.behind index start last (s :: parts) = (h.take index s).behind index start last parts := by
  cases s <;> simp [behind,locate,take,note,past,Nat.add_assoc]

theorem segments_eq (index : Nat) {n rounds : Nat} {source rest : Bytes} {h : ScanHead}
    (hat : h.Before source rest) (hn : rest.length < n) (hrounds : rest.length < rounds) :
    ∃ start, segments index source n rounds h =
      some ((),h.behind index start source.length (Scriptlet.segments rest)) := by
  induction rounds generalizing rest h with
  | zero => exact absurd hrounds (Nat.not_lt_zero _)
  | succ rounds ih =>
    cases rest with
    | nil =>
      refine ⟨h.start,?_⟩
      rw [segments,bind_of hat.atEnd_eq]
      obtain ⟨front,rfl,hcurrent⟩ := hat
      rw [List.append_nil,← hcurrent,Scriptlet.segments]
      rfl
    | cons b rest =>
      let h' : ScanHead := { h with start := h.current }
      have hat' : h'.Before source (b :: rest) := hat
      have hround : segments index source n (rounds + 1) h =
          (segment index source n >>= fun _ => segments index source n rounds) h' := by
        rw [segments,bind_of hat.atEnd_eq]
        rfl
      have hsegment : segment index source n h' = some ((),h'.take index (Segment.next b rest).1) :=
        hat'.segment_eq rfl (Nat.lt_of_succ_lt hn)
      have hlength : (Segment.next b rest).2.length < rest.length + 1 := Segment.length_next_lt b rest
      rw [← Segment.text_next b rest] at hat'
      rw [List.length_cons] at hn hrounds
      obtain ⟨start,hrest⟩ := ih (hat'.take index) (by omega) (by omega)
      rw [← behind_cons] at hrest
      refine ⟨start,?_⟩
      rw [hround,bind_of hsegment,Scriptlet.segments]
      -- The two heads differ only in the start, which is set anew for each segment.
      exact hrest

/-- Nothing is read outside of the source, and no loop takes more rounds than there are bytes and
one more. What is found is what cutting the source finds. -/
theorem scan_eq (index : Nat) {source : Bytes} {n : Nat} (hn : source.length < n) :
    scan index source n = some (scanFrom index source) := by
  have hat : ({} : ScanHead).Before source source := ⟨[],rfl,rfl⟩
  obtain ⟨start,hsegments⟩ := segments_eq index hat hn hn
  simp [scan,hsegments,behind,scanFrom]

end ScanHead

end Scriptlet
