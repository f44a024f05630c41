/-! # Text as bytes

Every text of the language, from the source to what a program prints, is a list of bytes. Nothing
asks it to be well-formed in any encoding: a source may hold any bytes, and string values carry
them unchanged. Fixed wording is written as a string and taken in its UTF-8 form.
-/
namespace Scriptlet

abbrev Bytes := List UInt8

/-- The UTF-8 form of a string. -/
def utf8 (s : String) : Bytes := s.toList.flatMap String.utf8EncodeChar

/-- A natural number in decimal digits, without leading zeros. -/
def decimal (n : Nat) : Bytes := (Nat.toDigits 10 n).map Char.toUInt8

/-- An integer in decimal digits, with a minus sign when it is negative. -/
def signedDecimal (n : Int) : Bytes :=
  if n < 0 then 0x2d :: decimal n.natAbs else decimal n.natAbs

def isDigit (b : UInt8) : Bool := 0x30 ≤ b && b ≤ 0x39

def isLetter (b : UInt8) : Bool :=
  (0x61 ≤ b && b ≤ 0x7a) || (0x41 ≤ b && b ≤ 0x5a) || b == 0x5f

def isWordByte (b : UInt8) : Bool := isLetter b || isDigit b

/-- The number that a run of decimal digits denotes, read from the left. -/
def digitsValue (digits : Bytes) : Nat :=
  digits.foldl (fun n b => 10 * n + (b.toNat - 0x30)) 0

def newline : UInt8 := 0x0a

/-- How many line ends a text holds. -/
def newlines (text : Bytes) : Nat := text.count newline

/-- Each line followed by a line end. -/
def unlines (lines : List Bytes) : Bytes := lines.flatMap (· ++ [newline])

/-- Texts joined with a separator between neighbours. -/
def joinWith (separator : Bytes) (parts : List Bytes) : Bytes := separator.intercalate parts

/-- Whether a text is one of the given words. -/
def isOneOf (words : List String) (text : Bytes) : Bool := (words.map utf8).contains text

/-- The parts of a text between the occurrences of a byte; at least one part. -/
def splitOn (separator : UInt8) : Bytes → List Bytes
  | [] => [[]]
  | b :: rest =>
    if b == separator then [] :: splitOn separator rest
    else match splitOn separator rest with
      | [] => [[b]]
      | part :: parts => (b :: part) :: parts

/-- The character at the front of a text, if its bytes are well-formed. -/
def leadingChar? (text : Bytes) : Option Char := (text.take 4).toByteArray.utf8DecodeChar? 0

/-- Every blank character: the ASCII ones, the next-line control, and the spaces and separators of
Unicode. -/
def blankTexts : List Bytes :=
  ["\t", "\n", "\x0b", "\x0c", "\r", " ", "\u0085", "\u00a0", "\u1680",
   "\u2000", "\u2001", "\u2002", "\u2003", "\u2004", "\u2005", "\u2006", "\u2007", "\u2008",
   "\u2009", "\u200a", "\u2028", "\u2029", "\u202f", "\u205f", "\u3000"].map utf8

/-- Drops up to `limit` of the given pieces from the front. -/
def dropPieces (pieces : List Bytes) : Nat → Bytes → Bytes
  | 0, text => text
  | limit + 1, text =>
    match pieces.find? (·.isPrefixOf text) with
    | some piece => dropPieces pieces limit (text.drop piece.length)
    | none => text

/-- A text without the blanks at its two ends. -/
def trimBlanks (text : Bytes) : Bytes :=
  let front := dropPieces blankTexts text.length text
  (dropPieces (blankTexts.map List.reverse) front.length front.reverse).reverse

end Scriptlet
