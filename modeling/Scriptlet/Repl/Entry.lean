import Scriptlet.Bytes

/-! # Entries of an interactive session

Lines are collected until their braces balance, and then handed over as one source. Braces are
counted wherever they stand.
-/
namespace Scriptlet

/-- The lines collected so far, each with its line end, and how many braces are still open. -/
structure Entry where
  lines : Bytes := []
  depth : Nat := 0
  deriving DecidableEq, Repr

namespace Entry

def openBrace : UInt8 := 0x7b

def closeBrace : UInt8 := 0x7d

def pending (e : Entry) : Bool := 0 < e.depth

/-- Adds a line. The source is given when no brace is left open, and the entry is then empty. -/
def add (e : Entry) (line : Bytes) : Entry × Option Bytes :=
  let opened := e.depth + line.count openBrace
  let closed := line.count closeBrace
  let lines := e.lines ++ line ++ [newline]
  if closed < opened then (⟨lines, opened - closed⟩, none) else ({}, some lines)

end Entry

end Scriptlet
