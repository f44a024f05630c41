import Scriptlet.Proofs.Authentic
import Scriptlet.Proofs.Forms

/-! # Scanning what is joined

Two ways of joining texts that scanning undoes. Sources with a line end between them scan like each on
its own, since a scan looks past a line end only inside of a string. The lexemes of tokens, with a
blank between neighbours, scan to the tokens again, since no token goes on with a blank.
-/
namespace Scriptlet

/-! ## Sources joined by a line end -/

/-- Scanning works line by line. If the first source leaves no string open, then the two sources with
a line end between them have the tokens and the faults of each, those of the second further down by
the lines of the first and with later places, and they end where the second one ends. -/
theorem scanFrom_joined (index : Nat) (source more : Bytes)
    (h : ∀ f ∈ (scanFrom index source).faults, f.error ≠ .unterminatedString) :
    let first := scanFrom index source
    let second := scanFrom index more
    let lines := newlines source + 1
    scanFrom index (source ++ newline :: more) =
      ⟨first.tokens ++ second.tokens.map fun t =>
          { t with line := t.line + lines, index := t.index + first.tokens.length },
        first.faults ++ second.faults.map fun f => { f with line := f.line + lines },
        second.endLine + lines⟩ := by
  intro first second lines
  have hplaces : scanFrom (index + first.tokens.length) more =
      { second with
        tokens := second.tokens.map fun t => { t with index := t.index + first.tokens.length } } :=
    locate_shift 1 index first.tokens.length (segments more)
  rw [scanFrom_append more h,hplaces]
  simp [first,second,lines,Function.comp_def]

/-- A source that ends in a comment with a quote, behind a string over two lines, a point that belongs
to no number and a byte that no token starts with. -/
theorem scanFrom_joined_comment :
    let source := utf8 "\"a\nb\" 1. @ //\""
    let more := utf8 "=\n#"
    (∀ f ∈ (scanFrom 0 source).faults, f.error ≠ .unterminatedString) ∧
      scanFrom 0 (source ++ newline :: more) =
        ⟨[⟨.string (utf8 "a\nb"),utf8 "\"a\nb\"",2,0⟩,⟨.integer 1,utf8 "1",2,1⟩,
            ⟨.symbol .dot,utf8 ".",2,2⟩,⟨.symbol .equal,utf8 "=",3,3⟩],
          [⟨.unexpectedCharacter,2⟩,⟨.unexpectedCharacter,4⟩],4⟩ := by
  intro source more
  have hclosed : ∀ f ∈ (scanFrom 0 source).faults, f.error ≠ .unterminatedString := by decide +kernel
  refine ⟨hclosed,(scanFrom_joined 0 source more hclosed).trans ?_⟩
  decide +kernel

/-! ## Lexemes joined by blanks -/

section

variable {text rest : Bytes}

theorem Lexeme.longest {kind : Kind} (h : Lexeme kind text)
    (hrest : ∀ b ∈ rest.head?, b = 0x20) : Longest text rest := by
  have hword : ∀ b ∈ rest.head?, isWordByte b = false := by
    intro b hb
    rw [hrest b hb]
    decide
  have hdigit : ∀ b ∈ rest.head?, isDigit b = false := by
    intro b hb
    rw [hrest b hb]
    decide
  have hsign : ∀ b, b ≠ 0x20 → rest.head? ≠ some b := by
    intro b hne hb
    exact hne (hrest b hb)
  cases h with
  | symbol s =>
    exact (longest_symbol s).2 ⟨fun _ _ => hsign 0x3d (by decide),fun _ => hsign 0x2f (by decide)⟩
  | keyword k => exact (longest_word k.isWord_text).2 hword
  | identifier h _ => exact (longest_word h).2 hword
  | string _ => exact longest_string _
  | integer hdigits _ =>
    refine (longest_whole hdigits).2 ⟨hdigit,?_⟩
    rintro after rfl
    exact absurd (hrest 0x2e rfl) (by decide)
  | float hwhole hfraction _ => exact (longest_fractional hwhole hfraction).2 hdigit

end

/-- The segments of tokens written in a row, with a blank in front of each. -/
def spacedSegments (tokens : List Token) : List Segment :=
  tokens.flatMap fun t => [.blank 0x20,.token t.kind t.lexeme]

theorem head?_spaced (texts : List Bytes) : ∀ b ∈ (spaced texts).head?, b = 0x20 := by
  intro b hb
  cases texts with
  | nil => cases hb
  | cons text texts =>
    cases hb
    rfl

/-- A token in front of others, all with blanks between them. -/
theorem splits_written {t : Token} {tokens : List Token}
    (h : ∀ t' ∈ t :: tokens, Lexeme t'.kind t'.lexeme) :
    Splits (t.lexeme ++ spaced (tokens.map (·.lexeme)))
      (.token t.kind t.lexeme :: spacedSegments tokens) := by
  induction tokens generalizing t with
  | nil =>
    have ht : Lexeme t.kind t.lexeme := h t List.mem_cons_self
    exact .cons (s := .token t.kind t.lexeme) ⟨ht,ht.longest (by simp [spaced])⟩ .nil
  | cons next tokens ih =>
    obtain ⟨ht,htokens⟩ := List.forall_mem_cons.1 h
    have hrest := Splits.cons (s := .blank 0x20) List.mem_cons_self (ih htokens)
    exact .cons (s := .token t.kind t.lexeme) ⟨ht,ht.longest (head?_spaced _)⟩ hrest

theorem locate_spacedSegments (line index : Nat) (tokens : List Token) :
    (locate line index (spacedSegments tokens)).faults = [] ∧
      (locate line index (spacedSegments tokens)).tokens.map (fun t => (t.kind,t.lexeme)) =
        tokens.map fun t => (t.kind,t.lexeme) := by
  induction tokens generalizing line index with
  | nil => exact ⟨rfl,rfl⟩
  | cons t tokens ih =>
    obtain ⟨hfaults,htokens⟩ := ih (line + newlines [0x20] + newlines t.lexeme) (index + 1)
    exact ⟨hfaults,congrArg ((t.kind,t.lexeme) :: ·) htokens⟩

/-- Tokens can be written out and read back, whatever source they come from: their lexemes with a
blank between neighbours scan without a fault, to tokens of the same kinds and lexemes. A kind holds
the value of its literal. -/
theorem scanFrom_written (index place : Nat) (source : Bytes) :
    let tokens := (scanFrom index source).tokens
    let again := scanFrom place (joinWith [0x20] (tokens.map (·.lexeme)))
    again.faults = [] ∧
      again.tokens.map (fun t => (t.kind,t.lexeme)) = tokens.map fun t => (t.kind,t.lexeme) := by
  intro tokens again
  have hlexemes : ∀ t ∈ tokens, Lexeme t.kind t.lexeme := fun _ ht => lexeme_of_mem_scanFrom ht
  clear_value tokens
  cases tokens with
  | nil =>
    have hagain : again = locate 1 place [] := congrArg (locate 1 place) (splits_iff.1 .nil).symm
    rw [hagain]
    exact ⟨rfl,rfl⟩
  | cons t tokens =>
    have hsegments : segments (joinWith [0x20] ((t :: tokens).map (·.lexeme))) =
        .token t.kind t.lexeme :: spacedSegments tokens := by
      rw [List.map_cons,joinWith_cons]
      exact (splits_iff.1 (splits_written hlexemes)).symm
    have hagain : again = locate 1 place (.token t.kind t.lexeme :: spacedSegments tokens) :=
      congrArg (locate 1 place) hsegments
    obtain ⟨hfaults,htokens⟩ := locate_spacedSegments (1 + newlines t.lexeme) (place + 1) tokens
    rw [hagain]
    exact ⟨hfaults,congrArg ((t.kind,t.lexeme) :: ·) htokens⟩

end Scriptlet
