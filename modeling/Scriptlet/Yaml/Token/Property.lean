import Scriptlet.Yaml.Text
import Scriptlet.Yaml.Token

/-! # Properties and directives

What can stand before a node, an anchor or a tag, and the lines with a percent sign that can stand
before a document.
-/
namespace Scriptlet

namespace Yaml

/-- The name of an anchor, behind its first character. What may follow it is limited. -/
def label (c : Cursor) : Except Fault (Bytes × Cursor) :=
  let name := (c.rest.drop 1).takeWhile isNameChar
  let after := c.forward (name.length + 1)
  let ended := atGap after.rest ||
    after.rest.head?.any ['?', ':', ',', ']', '\x7d', '%', '@', '\x60'].contains
  if name.isEmpty || !ended then .error (.lexical .badLabel c.place.line c.place.line)
  else .ok (encode name, after)

/-- Characters of a tag other than letters, digits and escapes. -/
def tagMarks : List Char :=
  [';', '/', '?', ':', '@', '&', '=', '+', '$', ',', '.', '!', '~', '*', '\'', '(', ')', '[', ']']

/-- How many bytes a character takes that starts with the given one; zero for no character. -/
def octetCount (octet : Nat) : Nat :=
  if octet < 0x80 then 1
  else if 0xc0 ≤ octet && octet < 0xe0 then 2
  else if 0xe0 ≤ octet && octet < 0xf0 then 3
  else if 0xf0 ≤ octet && octet < 0xf8 then 4
  else 0

/-- How many bytes of a character are missing behind an escaped byte, when `owed` were missing
before it. -/
def owedAfter (owed octet : Nat) : Except Problem Nat :=
  if owed = 0 then
    match octetCount octet with
    | 0 => .error .badLeadingOctet
    | n + 1 => .ok n
  else if 0x80 ≤ octet && octet < 0xc0 then .ok (owed - 1)
  else .error .badTrailingOctet

/-- The text of a tag, in which bytes may be written with a percent sign. The bytes of a character
that is started so are all written so. -/
def tagText : Nat → List Char → Except Problem (Bytes × List Char)
  | owed, [] => if owed = 0 then .ok ([], []) else .error .octetMissing
  | owed, '%' :: a :: b :: rest =>
    match hexValue? a, hexValue? b with
    | some a, some b =>
      match owedAfter owed (16 * a + b) with
      | .error problem => .error problem
      | .ok owed => do
        let (text, rest) ← tagText owed rest
        .ok (UInt8.ofNat (16 * a + b) :: text, rest)
    | _, _ => .error .octetMissing
  | owed, c :: rest =>
    if owed ≠ 0 || c == '%' then .error .octetMissing
    else if isNameChar c || tagMarks.contains c then do
      let (text, rest) ← tagText 0 rest
      .ok (String.utf8EncodeChar c ++ text, rest)
    else .ok ([], c :: rest)

/-- A cursor moved to what is left of its line. -/
def Cursor.upTo (c : Cursor) (rest : List Char) : Cursor := c.forward (c.rest.length - rest.length)

/-- The first part of a tag: an exclamation mark, and letters up to another one, if there is one. -/
def handle (text : List Char) : List Char × List Char :=
  let name := (text.drop 1).takeWhile isNameChar
  let rest := text.drop (name.length + 1)
  match rest with
  | '!' :: rest => ('!' :: name ++ ['!'], rest)
  | _ => ('!' :: name, rest)

/-- A tag as its handle and the rest. A tag in angle brackets has no handle, and a lone mark stands
for itself. -/
def tagParts (text : List Char) : Except Problem ((Bytes × Bytes) × List Char) :=
  match text with
  | '!' :: '<' :: rest => do
    let (name, rest) ← tagText 0 rest
    if name.isEmpty then .error .tagMissing
    else match rest with
      | '>' :: rest => .ok (([], name), rest)
      | _ => .error .verbatimTagOpen
  | _ =>
    let (front, rest) := handle text
    if 1 < front.length && front.getLast? == some '!' then do
      let (name, rest) ← tagText 0 rest
      if name.isEmpty then .error .tagMissing else .ok ((encode front, name), rest)
    else do
      let (name, rest) ← tagText 0 rest
      let name := encode (front.drop 1) ++ name
      .ok ((if name.isEmpty then ([], utf8 "!") else (utf8 "!", name)), rest)

def tag (c : Cursor) : Except Fault (TokenKind × Cursor) :=
  let fail {α : Type} (problem : Problem) : Except Fault α :=
    .error (.lexical problem c.place.line c.place.line)
  match tagParts c.rest with
  | .error problem => fail problem
  | .ok ((front, name), rest) =>
    if atGap rest then .ok (.tag front name, c.upTo rest) else fail .blankOrBreakMissing

/-- A number of at most two digits. -/
def versionNumber (text : List Char) : Except Problem (Nat × List Char) :=
  let digits := text.takeWhile Char.isDigit
  if digits.isEmpty then .error .versionMissing
  else if 2 < digits.length then .error .versionTooLong
  else .ok (digitsValue (encode digits), text.drop digits.length)

def versionText (text : List Char) : Except Problem (TokenKind × List Char) := do
  let (major, rest) ← versionNumber (text.dropWhile isBlank)
  match rest with
  | '.' :: rest => do
    let (minor, rest) ← versionNumber rest
    .ok (.version major minor, rest)
  | _ => .error .versionWithoutDot

def shorthandText (text : List Char) : Except Problem (TokenKind × List Char) := do
  let text := text.dropWhile isBlank
  if text.head? != some '!' then .error .exclamationMissing
  else
    let (front, rest) := handle text
    if front.getLast? != some '!' then .error .exclamationMissing
    else if !rest.head?.any isBlank then .error .blankMissing
    else
      let (expansion, rest) ← tagText 0 (rest.dropWhile isBlank)
      if expansion.isEmpty then .error .tagMissing
      else if atGap rest then .ok (.shorthand (encode front) expansion, rest)
      else .error .blankOrBreakMissing

def directiveText (text : List Char) : Except Problem (TokenKind × List Char) := do
  let name := text.takeWhile isNameChar
  let rest := text.drop name.length
  if name.isEmpty then .error .directiveWithoutName
  else if !atGap rest then .error .directiveBadName
  else
    let (kind, rest) ←
      if name = "YAML".toList then versionText rest
      else if name = "TAG".toList then shorthandText rest
      else .error .unknownDirective
    let rest := rest.dropWhile isBlank
    if rest.isEmpty || rest.head?.any fun c => c == '#' || isBreak c then .ok (kind, rest)
    else .error .lineNotEnded

/-- A directive takes its whole line. -/
def directive (c : Cursor) : Except Fault (TokenKind × Cursor) :=
  match directiveText (c.rest.drop 1) with
  | .error problem => .error (.lexical problem c.place.line c.place.line)
  | .ok (kind, _) => .ok (kind, c.toBreak.skipBreak)

end Yaml

end Scriptlet
