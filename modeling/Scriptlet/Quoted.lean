import Scriptlet.Printable

/-! # Quoted texts

A text in double quotes on one line: quotes and backslashes get a backslash, characters that can
not be printed and bytes that are no character are written as escapes.
-/
namespace Scriptlet

namespace Quoted

/-- The last `width` hexadecimal digits of a number. -/
def hexDigits (width n : Nat) : Bytes :=
  (List.range width).reverse.map fun i =>
    let d := n / Nat.pow 16 i % 16
    UInt8.ofNat (if d < 10 then 0x30 + d else 0x57 + d)

/-- The letters that stand for common control characters behind a backslash. -/
def controlLetters : List (Char × String) :=
  [('\x07', "\\a"), ('\x08', "\\b"), ('\x0c', "\\f"), ('\n', "\\n"), ('\r', "\\r"),
   ('\t', "\\t"), ('\x0b', "\\v")]

def escapeChar (c : Char) : Bytes :=
  if c = '"' ∨ c = '\\' then 0x5c :: String.utf8EncodeChar c
  else if isPrintable c then String.utf8EncodeChar c
  else match controlLetters.lookup c with
    | some letter => utf8 letter
    | none =>
      if c.toNat < 0x80 then utf8 "\\x" ++ hexDigits 2 c.toNat
      else if c.toNat < 0x10000 then utf8 "\\u" ++ hexDigits 4 c.toNat
      else utf8 "\\U" ++ hexDigits 8 c.toNat

/-- Escapes a text of which the first `skip` bytes are dealt with already. -/
def escapeFrom : Nat → Bytes → Bytes
  | _, [] => []
  | skip + 1, _ :: rest => escapeFrom skip rest
  | 0, b :: rest =>
    match leadingChar? (b :: rest) with
    | some c => escapeChar c ++ escapeFrom (c.utf8Size - 1) rest
    | none => utf8 "\\x" ++ hexDigits 2 b.toNat ++ escapeFrom 0 rest

end Quoted

def quoted (text : Bytes) : Bytes := 0x22 :: (Quoted.escapeFrom 0 text ++ [0x22])

end Scriptlet
