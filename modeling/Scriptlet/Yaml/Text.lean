import Scriptlet.Yaml.Fault

/-! # The characters of a document

A document is read as characters, of which line feeds, carriage returns and pairs of the two all
count as one line feed. Three more characters end lines. A cursor is a place in the text together
with the characters from there on.
-/
namespace Scriptlet

namespace Yaml

def isBlank (c : Char) : Bool := c == ' ' || c == '\t'

def isBreak (c : Char) : Bool := c == '\n' || c == '\u0085' || c == '\u2028' || c == '\u2029'

/-- What a line end contributes to a text: the next-line control counts as a line feed, and the two
separators are kept. -/
def breakText (c : Char) : Char := if c == '\u0085' then '\n' else c

/-- Characters of names: ASCII letters and digits, dashes and underscores. -/
def isNameChar (c : Char) : Bool := c.isAlphanum || c == '_' || c == '-'

/-- Whether a blank, a line end or the end of the text comes next. -/
def atGap : List Char → Bool
  | [] => true
  | c :: _ => isBlank c || isBreak c

/-- Whether three equal characters with a gap behind them come next. -/
def startsMark (mark : Char) : List Char → Bool
  | a :: b :: c :: rest => a == mark && b == mark && c == mark && atGap rest
  | _ => false

/-- Whether a mark comes next that starts or ends a document when it starts a line. -/
def startsDocumentMark (text : List Char) : Bool := startsMark '-' text || startsMark '.' text

/-- The value of a hexadecimal digit. -/
def hexValue? (c : Char) : Option Nat :=
  if c.isDigit then some (c.toNat - 0x30)
  else if 'a' ≤ c && c ≤ 'f' then some (c.toNat - 0x57)
  else if 'A' ≤ c && c ≤ 'F' then some (c.toNat - 0x37)
  else none

/-- The bytes of a text. -/
def encode (text : List Char) : Bytes := text.flatMap String.utf8EncodeChar

/-- Where a character stands: its line, its column, and how many characters come before it. -/
structure Place where
  line : Nat := 0
  column : Nat := 0
  offset : Nat := 0
  deriving DecidableEq, Repr

namespace Place

/-- The place `n` characters further on the same line. -/
def forward (p : Place) (n : Nat) : Place :=
  { p with column := p.column + n, offset := p.offset + n }

def nextLine (p : Place) : Place := ⟨p.line + 1, 0, p.offset + 1⟩

/-- The place behind a character. -/
def after (p : Place) (c : Char) : Place := if isBreak c then p.nextLine else p.forward 1

end Place

structure Cursor where
  place : Place
  rest : List Char
  deriving DecidableEq, Repr

namespace Cursor

/-- Moves over `n` characters, none of which ends a line. -/
def forward (c : Cursor) (n : Nat) : Cursor := ⟨c.place.forward n, c.rest.drop n⟩

/-- Moves over characters of a kind that does not end lines. -/
def skipWhile (c : Cursor) (p : Char → Bool) : Cursor := c.forward (c.rest.takeWhile p).length

def skipBlanks (c : Cursor) : Cursor := c.skipWhile isBlank

/-- Moves to the end of the line. -/
def toBreak (c : Cursor) : Cursor := c.skipWhile fun ch => !isBreak ch

/-- Moves over a line end, if there is one. -/
def skipBreak (c : Cursor) : Cursor :=
  match c.rest with
  | ch :: rest => if isBreak ch then ⟨c.place.nextLine, rest⟩ else c
  | [] => c

/-- Moves over `n` characters of any kind. -/
def advance : Nat → Cursor → Cursor
  | 0, c => c
  | _ + 1, ⟨p, []⟩ => ⟨p, []⟩
  | n + 1, ⟨p, ch :: rest⟩ => advance n ⟨p.after ch, rest⟩

end Cursor

/-- Characters that can stand in a document. -/
def isAllowed (c : Char) : Bool :=
  let n := c.toNat
  n == 0x09 || n == 0x0a || n == 0x0d || (0x20 ≤ n && n ≤ 0x7e) || n == 0x85 ||
    (0xa0 ≤ n && n ≤ 0xfffd) || 0x10000 ≤ n

/-- Takes carriage returns, alone or before a line feed, for line feeds. -/
def withLineFeeds : List Char → List Char
  | [] => []
  | '\r' :: '\n' :: rest => '\n' :: withLineFeeds rest
  | '\r' :: rest => '\n' :: withLineFeeds rest
  | c :: rest => c :: withLineFeeds rest

def byteOrderMark : Char := '\ufeff'

/-- The start of a text. A byte order mark does not belong to the text; a second one does, but is
passed over. -/
def startOf (text : List Char) : Cursor :=
  let start : Cursor := ⟨{}, if text.head? == some byteOrderMark then text.drop 1 else text⟩
  if start.rest.head? == some byteOrderMark then start.forward 1 else start

/-- Reads bytes as characters of a document. -/
def cursorOf (text : Bytes) : Except Fault Cursor :=
  match String.fromUTF8? text.toByteArray with
  | none => .error ⟨.badEncoding, 0⟩
  | some s =>
    if s.toList.all isAllowed then .ok (startOf (withLineFeeds s.toList))
    else .error ⟨.controlCharacter, 0⟩

end Yaml

end Scriptlet
