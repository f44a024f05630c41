import Scriptlet.Yaml.Text

/-! # Scalars

The three ways of writing a text in a document: without quotes, in quotes, and as a block of lines.
Without quotes and in quotes, a line end is folded: alone it counts as a space, and of several the
first is dropped.
-/
namespace Scriptlet

namespace Yaml

/-- Blanks and line ends between two words, the latest first. Blanks count only if no line end
follows them. -/
structure Gap where
  blanks : List Char := []
  broken : Bool := false
  first : Option Char := none
  later : List Char := []
  deriving DecidableEq, Repr

namespace Gap

def isOpen (g : Gap) : Bool := g.broken || !g.blanks.isEmpty

def addBlank (g : Gap) (c : Char) : Gap :=
  if g.broken then g else { g with blanks := c :: g.blanks }

def addBreak (g : Gap) (c : Char) : Gap :=
  if g.broken then { g with later := breakText c :: g.later }
  else { blanks := [], broken := true, first := some (breakText c), later := [] }

/-- A gap that starts behind a line end which does not count. -/
def escaped : Gap := { broken := true }

/-- What the gap contributes to the text, last character first. -/
def reversedText (g : Gap) : List Char :=
  if g.broken then
    if g.first == some '\n' then (if g.later.isEmpty then [' '] else g.later)
    else g.later ++ g.first.toList
  else g.blanks

end Gap

/-- A scalar that was read, and what follows it. A scalar without quotes may have been followed by
line ends, which are passed over. -/
structure ScalarRead where
  text : List Char
  cursor : Cursor
  brokenOff : Bool := false
  deriving DecidableEq, Repr

/-- Characters that end a scalar without quotes between brackets. -/
def isFlowIndicator (c : Char) : Bool := [',', '?', '[', ']', '\x7b', '\x7d'].contains c

/-- Whether a scalar without quotes goes no further than `p`, where `text` comes next. -/
def plainEnds (indent : Nat) (inFlow : Bool) (g : Gap) (p : Place) : List Char → Bool
  | [] => true
  | c :: rest =>
    (g.isOpen && ((!inFlow && p.column < indent) || c == '#')) ||
      (p.column == 0 && startsDocumentMark (c :: rest)) ||
      (c == ':' && atGap rest) || (inFlow && isFlowIndicator c)

/-- Reads a scalar without quotes that starts on line `start`; the lines after the first have to be
indented by `indent`. The text so far comes last character first. -/
def plainFrom (indent : Nat) (inFlow : Bool) (start : Nat) :
    List Char → Place → Gap → List Char → Except Fault ScalarRead
  | [], p, g, done => .ok ⟨done.reverse, ⟨p, []⟩, g.broken⟩
  | c :: rest, p, g, done =>
    if isBlank c then
      if g.broken && p.column < indent && c == '\t' then
        .error (.lexical .tabInPlain start p.line)
      else plainFrom indent inFlow start rest (p.forward 1) (g.addBlank c) done
    else if isBreak c then plainFrom indent inFlow start rest p.nextLine (g.addBreak c) done
    else if plainEnds indent inFlow g p (c :: rest) then
      .ok ⟨done.reverse, ⟨p, c :: rest⟩, g.broken⟩
    else plainFrom indent inFlow start rest (p.forward 1) {} (c :: (g.reversedText ++ done))

def plain (indent : Nat) (inFlow : Bool) (c : Cursor) : Except Fault ScalarRead :=
  plainFrom indent inFlow c.place.line c.rest c.place {} []

/-- Reads on behind a single quote. A quote in the text is written twice. -/
def singleQuotedFrom (start : Nat) :
    List Char → Place → Gap → List Char → Except Fault ScalarRead
  | [], p, _, _ => .error (.lexical .quoteOpen start p.line)
  | c :: rest, p, g, done =>
    if isBlank c then singleQuotedFrom start rest (p.forward 1) (g.addBlank c) done
    else if isBreak c then singleQuotedFrom start rest p.nextLine (g.addBreak c) done
    else if p.column == 0 && startsDocumentMark (c :: rest) then
      .error (.lexical .markInQuotes start p.line)
    else
      let done := g.reversedText ++ done
      if c == '\'' then
        match rest with
        | '\'' :: rest => singleQuotedFrom start rest (p.forward 2) {} ('\'' :: done)
        | _ => .ok ⟨done.reverse, ⟨p.forward 1, rest⟩, false⟩
      else singleQuotedFrom start rest (p.forward 1) {} (c :: done)

/-- What a character behind a backslash stands for. -/
def escapes : List (Char × Char) :=
  [('0', '\x00'), ('a', '\x07'), ('b', '\x08'), ('t', '\t'), ('\t', '\t'), ('n', '\n'),
   ('v', '\x0b'), ('f', '\x0c'), ('r', '\r'), ('e', '\x1b'), (' ', ' '), ('"', '"'),
   ('\'', '\''), ('\\', '\\'), ('N', '\u0085'), ('_', '\u00a0'), ('L', '\u2028'),
   ('P', '\u2029')]

/-- How many hexadecimal digits follow a letter behind a backslash. -/
def codeLength? (c : Char) : Option Nat :=
  if c == 'x' then some 2 else if c == 'u' then some 4 else if c == 'U' then some 8 else none

/-- The character with the code point that `n` hexadecimal digits give. -/
def codePoint (n : Nat) (text : List Char) : Except Problem Char :=
  match (text.take n).mapM hexValue? with
  | none => .error .badHexadecimal
  | some digits =>
    let code := digits.foldl (16 * · + ·) 0
    if digits.length < n then .error .badHexadecimal
    else if code.isValidChar then .ok (Char.ofNat code)
    else .error .badCodePoint

/-- What a backslash stands for together with what follows it, and how many characters that
are. -/
def escape : List Char → Except Problem (Char × Nat)
  | [] => .error .unknownEscape
  | c :: rest =>
    match escapes.lookup c, codeLength? c with
    | some meant, _ => .ok (meant, 1)
    | none, some n => do
      let meant ← codePoint n rest
      .ok (meant, n + 1)
    | none, none => .error .unknownEscape

/-- Reads on behind a double quote, with `skip` characters dealt with already. -/
def doubleQuotedFrom (start : Nat) :
    Nat → List Char → Place → Gap → List Char → Except Fault ScalarRead
  | _, [], p, _, _ => .error (.lexical .quoteOpen start p.line)
  | skip + 1, _ :: rest, p, g, done => doubleQuotedFrom start skip rest p g done
  | 0, c :: rest, p, g, done =>
    if isBlank c then doubleQuotedFrom start 0 rest (p.forward 1) (g.addBlank c) done
    else if isBreak c then doubleQuotedFrom start 0 rest p.nextLine (g.addBreak c) done
    else if p.column == 0 && startsDocumentMark (c :: rest) then
      .error (.lexical .markInQuotes start p.line)
    else
      let done := g.reversedText ++ done
      if c == '"' then .ok ⟨done.reverse, ⟨p.forward 1, rest⟩, false⟩
      else if c == '\\' then
        if rest.head?.any isBreak then
          doubleQuotedFrom start 1 rest (p.forward 1).nextLine .escaped done
        else match escape rest with
          | .error problem => .error (.lexical problem start p.line)
          | .ok (meant, n) => doubleQuotedFrom start n rest (p.forward (n + 1)) {} (meant :: done)
      else doubleQuotedFrom start 0 rest (p.forward 1) {} (c :: done)

/-- Reads a scalar in quotes; the cursor is at the first quote. -/
def quotedScalar (single : Bool) (c : Cursor) : Except Fault ScalarRead :=
  let c' := c.forward 1
  if single then singleQuotedFrom c.place.line c'.rest c'.place {} []
  else doubleQuotedFrom c.place.line 0 c'.rest c'.place {} []

/-- What happens to the line ends at the end of a block. -/
inductive Chomping where
  | clip
  | strip
  | keep
  deriving DecidableEq, Repr

/-- The head of a block: how its end is treated, and how far its lines are indented beyond the
surrounding ones, if that is given. -/
structure BlockHead where
  chomping : Chomping := .clip
  increment : Nat := 0
  deriving DecidableEq, Repr

def chomping? (c : Char) : Option Chomping :=
  if c == '+' then some .keep else if c == '-' then some .strip else none

/-- Reads the marks behind the first character of a block, in either order. -/
def blockHead (text : List Char) : Except Problem (BlockHead × Nat) :=
  let digit (head : BlockHead) (n : Nat) (text : List Char) : Except Problem (BlockHead × Nat) :=
    match text with
    | c :: _ =>
      if c == '0' then .error .zeroIndentation
      else if c.isDigit then .ok ({ head with increment := c.toNat - 0x30 }, n + 1)
      else .ok (head, n)
    | [] => .ok (head, n)
  match text with
  | [] => .ok ({}, 0)
  | c :: rest =>
    match chomping? c with
    | some chomping => digit { chomping } 1 rest
    | none => do
      let (head, n) ← digit {} 0 text
      if n = 0 then .ok (head, 0)
      else match rest.head?.bind chomping? with
        | some chomping => .ok ({ head with chomping }, 2)
        | none => .ok (head, 1)

/-- Line ends between the lines of a block, the latest first, the deepest indentation seen, and what
follows. -/
structure BlockGap where
  breaks : List Char
  deepest : Nat
  cursor : Cursor
  deriving DecidableEq, Repr

/-- Passes over indentation and empty lines. An indentation of zero stands for an unknown one. -/
def blockGap (start indent : Nat) :
    List Char → Place → List Char → Nat → Except Fault BlockGap
  | [], p, breaks, deepest => .ok ⟨breaks, max deepest p.column, ⟨p, []⟩⟩
  | c :: rest, p, breaks, deepest =>
    let within := indent == 0 || p.column < indent
    if within && c == ' ' then blockGap start indent rest (p.forward 1) breaks deepest
    else if within && c == '\t' then .error (.lexical .tabInBlock start p.line)
    else if isBreak c then
      blockGap start indent rest p.nextLine (breakText c :: breaks) (max deepest p.column)
    else .ok ⟨breaks, max deepest p.column, ⟨p, c :: rest⟩⟩

/-- The lines of a block so far: the text, the line end behind it, and the empty lines behind that,
each with the last character first. -/
structure BlockRead where
  text : List Char := []
  lineEnd : List Char := []
  breaks : List Char := []
  startsBlank : Bool := false
  cursor : Cursor
  deriving DecidableEq, Repr

/-- Adds a line to a block. In a folded block the line end before it counts as a space, unless the
line or the one before it starts with a blank. -/
def BlockRead.addLine (literal : Bool) (r : BlockRead) : BlockRead :=
  let blank := r.cursor.rest.head?.any isBlank
  let joined :=
    if !literal && !r.startsBlank && !blank && r.lineEnd == ['\n'] then
      if r.breaks.isEmpty then [' '] else []
    else r.lineEnd
  let after := r.cursor.toBreak
  { text := (r.cursor.rest.takeWhile (!isBreak ·)).reverse ++ (r.breaks ++ (joined ++ r.text))
    lineEnd := (after.rest.head?.map breakText).toList
    breaks := []
    startsBlank := blank
    cursor := after.skipBreak }

/-- Reads the lines of a block that are indented by `indent`. The budget bounds their number. -/
def blockLines (literal : Bool) (start indent : Nat) : Nat → BlockRead → Except Fault BlockRead
  | 0, r => .ok r
  | budget + 1, r =>
    if r.cursor.place.column == indent && !r.cursor.rest.isEmpty then do
      let r := r.addLine literal
      let gap ← blockGap start indent r.cursor.rest r.cursor.place [] 0
      blockLines literal start indent budget { r with breaks := gap.breaks, cursor := gap.cursor }
    else .ok r

/-- Reads a block; the cursor is at its first character, and the lines around it are indented by
less than `outer`. -/
def blockScalar (literal : Bool) (outer : Nat) (c : Cursor) : Except Fault ScalarRead := do
  let start := c.place.line
  let fail {α : Type} (problem : Problem) : Except Fault α :=
    .error (.lexical problem start start)
  let (head, n) ← match blockHead (c.rest.drop 1) with
    | .ok r => Except.ok r
    | .error problem => fail problem
  let c := (c.forward (n + 1)).skipBlanks
  let c := if c.rest.head? == some '#' then c.toBreak else c
  if !(c.rest.isEmpty || c.rest.head?.any isBreak) then fail .lineNotEnded
  else
    let c := c.skipBreak
    let given := if head.increment = 0 then 0 else outer - 1 + head.increment
    let gap ← blockGap start given c.rest c.place [] 0
    let indent := if given = 0 then max 1 (max outer gap.deepest) else given
    let r ← blockLines literal start indent c.rest.length
      { breaks := gap.breaks, cursor := gap.cursor }
    let tail := match head.chomping with
      | .clip => r.lineEnd
      | .strip => []
      | .keep => r.breaks ++ r.lineEnd
    .ok ⟨(tail ++ r.text).reverse, r.cursor, true⟩

end Yaml

end Scriptlet
