import Scriptlet.Token

/-! # Cutting a source into segments

A source is cut from the left into segments without losing a byte: blanks, comments, tokens, and
stretches that form no token. Each segment is the longest its kind allows at that point. A segment
is never empty, so the cutting ends.
-/
namespace Scriptlet

/-- Why a stretch of source forms no token. -/
inductive LexicalError where
  | unexpectedCharacter
  | unterminatedString
  | numberOutOfRange
  deriving DecidableEq, Repr

def LexicalError.message : LexicalError → Bytes
  | .unexpectedCharacter => utf8 "Unexpected character."
  | .unterminatedString => utf8 "Unterminated string."
  | .numberOutOfRange => utf8 "Number literal out of range."

inductive Segment where
  | blank (byte : UInt8)
  | comment (body : Bytes)
  | token (kind : Kind) (lexeme : Bytes)
  | faulty (error : LexicalError) (stretch : Bytes)
  deriving DecidableEq, Repr

namespace Segment

/-- The bytes that a segment covers. -/
def text : Segment → Bytes
  | .blank b => [b]
  | .comment body => 0x2f :: 0x2f :: body
  | .token _ lexeme => lexeme
  | .faulty _ stretch => stretch

def isBlank (b : UInt8) : Bool := b == 0x20 || b == 0x0d || b == 0x09 || b == newline

def quote : UInt8 := 0x22

/-- The symbol that a byte forms on its own. -/
def loneSymbol? (b : UInt8) : Option Symbol :=
  [Symbol.leftParen, .rightParen, .leftBrace, .rightBrace, .comma, .dot, .minus, .plus,
    .semicolon, .slash, .star, .bang, .equal, .greater, .less].find? (·.text == [b])

/-- The symbol that a lone symbol becomes when an equals sign follows it. -/
def withEqual? : Symbol → Option Symbol
  | .bang => some .bangEqual
  | .equal => some .equalEqual
  | .greater => some .greaterEqual
  | .less => some .lessEqual
  | _ => none

/-- A string runs to the next quote, across line ends. -/
def string (rest : Bytes) : Segment × Bytes :=
  match rest.dropWhile (· != quote) with
  | [] => (.faulty .unterminatedString (quote :: rest), [])
  | _ :: after =>
    let body := rest.takeWhile (· != quote)
    (.token (.string body) (quote :: body ++ [quote]), after)

/-- The largest integer that a literal can denote. -/
def maxInteger : Nat := Nat.pow 2 63 - 1

def integer (digits : Bytes) : Segment :=
  if digitsValue digits ≤ maxInteger then
    .token (.integer (Int64.ofNat (digitsValue digits))) digits
  else .faulty .numberOutOfRange digits

/-- The float nearest to a decimal with a point, which has to be finite. -/
def float (whole fraction : Bytes) : Segment :=
  let lexeme := whole ++ 0x2e :: fraction
  let value := Float.ofScientific (digitsValue (whole ++ fraction)) true fraction.length
  if value.isInf then .faulty .numberOutOfRange lexeme else .token (.float value) lexeme

/-- A point belongs to a number only with a digit after it. -/
def number (input : Bytes) : Segment × Bytes :=
  let whole := input.takeWhile isDigit
  let rest := input.dropWhile isDigit
  match rest with
  | 0x2e :: after =>
    if (after.takeWhile isDigit).isEmpty then (integer whole, rest)
    else (float whole (after.takeWhile isDigit), after.dropWhile isDigit)
  | _ => (integer whole, rest)

def word (input : Bytes) : Segment × Bytes :=
  let lexeme := input.takeWhile isWordByte
  let kind := match Keyword.ofText? lexeme with
    | some k => .keyword k
    | none => .identifier
  (.token kind lexeme, input.dropWhile isWordByte)

def symbol (b : UInt8) (rest : Bytes) : Segment × Bytes :=
  match loneSymbol? b with
  | none => (.faulty .unexpectedCharacter [b], rest)
  | some s =>
    match withEqual? s, rest with
    | some t, 0x3d :: after => (.token (.symbol t) [b, 0x3d], after)
    | _, _ => (.token (.symbol s) [b], rest)

/-- Two slashes open a comment, which ends before the next line end. -/
def punctuation (b : UInt8) (rest : Bytes) : Segment × Bytes :=
  match b, rest with
  | 0x2f, 0x2f :: after =>
    (.comment (after.takeWhile (· != newline)), after.dropWhile (· != newline))
  | _, _ => symbol b rest

/-- The segment at the front of a source that starts with `b`, and what follows the segment. -/
def next (b : UInt8) (rest : Bytes) : Segment × Bytes :=
  if isBlank b then (.blank b, rest)
  else if b == quote then string rest
  else if isDigit b then number (b :: rest)
  else if isLetter b then word (b :: rest)
  else punctuation b rest

theorem length_dropWhile_le (p : UInt8 → Bool) (l : Bytes) :
    (l.dropWhile p).length ≤ l.length :=
  (List.dropWhile_sublist p).length_le

theorem length_string_le (rest : Bytes) : (string rest).2.length ≤ rest.length := by
  have h := length_dropWhile_le (· != quote) rest
  unfold string
  split
  · exact Nat.zero_le _
  · next heq => rw [heq] at h; exact Nat.le_of_succ_le h

theorem length_number_lt {b : UInt8} (hb : isDigit b = true) (rest : Bytes) :
    (number (b :: rest)).2.length < (b :: rest).length := by
  have h := length_dropWhile_le isDigit rest
  have hd : (b :: rest).dropWhile isDigit = rest.dropWhile isDigit := by simp [hb]
  unfold number
  simp only [hd]
  split
  · next after heq =>
    split
    · exact Nat.lt_succ_of_le h
    · rw [heq] at h
      exact Nat.lt_succ_of_le
        (Nat.le_trans (length_dropWhile_le isDigit after) (Nat.le_of_succ_le h))
  · exact Nat.lt_succ_of_le h

theorem length_word_lt {b : UInt8} (hb : isLetter b = true) (rest : Bytes) :
    (word (b :: rest)).2.length < (b :: rest).length := by
  have h := length_dropWhile_le isWordByte rest
  have hw : isWordByte b = true := by simp [isWordByte, hb]
  simpa [word, hw] using Nat.lt_succ_of_le h

theorem length_symbol_le (b : UInt8) (rest : Bytes) : (symbol b rest).2.length ≤ rest.length := by
  unfold symbol
  split
  · exact Nat.le_refl _
  · split <;> simp

theorem length_punctuation_le (b : UInt8) (rest : Bytes) :
    (punctuation b rest).2.length ≤ rest.length := by
  unfold punctuation
  split
  · exact Nat.le_succ_of_le (length_dropWhile_le _ _)
  · exact length_symbol_le b rest

/-- Every segment covers at least one byte. -/
theorem length_next_lt (b : UInt8) (rest : Bytes) :
    (next b rest).2.length < (b :: rest).length := by
  unfold next
  split
  · exact Nat.lt_succ_self _
  · split
    · exact Nat.lt_succ_of_le (length_string_le rest)
    · split
      · next hd => exact length_number_lt hd rest
      · split
        · next hl => exact length_word_lt hl rest
        · exact Nat.lt_succ_of_le (length_punctuation_le b rest)

end Segment

/-- All segments of a source, in order. -/
def segments (source : Bytes) : List Segment :=
  match source with
  | [] => []
  | b :: rest => (Segment.next b rest).1 :: segments (Segment.next b rest).2
termination_by source.length
decreasing_by exact Segment.length_next_lt b rest

end Scriptlet
