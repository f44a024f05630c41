import Scriptlet.Yaml.Token.Property
import Scriptlet.Yaml.Token.Scalar

/-! # From characters to tokens

Indentation opens and closes collections, so the tokens for these come from the columns in which
keys and entries start. That something was a key shows only at the colon behind it: where a key may
start the scanner remembers the place, and at the colon it goes back and puts a key token there.
-/
namespace Scriptlet

namespace Yaml

/-- A token that turns into a key if a colon follows on its line: its position among the tokens and
its place. In some places nothing but a key can stand. -/
structure KeyStart where
  position : Nat
  place : Place
  required : Bool
  deriving DecidableEq, Repr

namespace KeyStart

/-- A colon has to follow on the same line, and not too far away. -/
def isStale (k : KeyStart) (p : Place) : Bool :=
  k.place.line < p.line || k.place.offset + 1024 < p.offset

end KeyStart

/-- The tokens so far come last token first. Columns of open collections come innermost first; so do
the possible keys around the brackets that are open, with `key` the one inside all of them. -/
structure Scanner where
  cursor : Cursor
  tokens : List Token := []
  columns : List Nat := []
  key : Option KeyStart := none
  outerKeys : List (Option KeyStart) := []
  keyAllowed : Bool := true
  deriving DecidableEq, Repr

namespace Scanner

def inFlow (s : Scanner) : Bool := !s.outerKeys.isEmpty

def line (s : Scanner) : Nat := s.cursor.place.line

/-- The least column inside the innermost collection. -/
def innerColumn (s : Scanner) : Nat :=
  match s.columns with
  | [] => 0
  | column :: _ => column + 1

def fail {α : Type} (s : Scanner) (problem : Problem) : Except Fault α :=
  .error (.lexical problem s.line s.line)

def push (s : Scanner) (kind : TokenKind) (line : Nat) : Scanner :=
  { s with tokens := ⟨kind, line⟩ :: s.tokens }

/-- Puts a token in front of the one at a position. -/
def insertAt (s : Scanner) (position : Nat) (kind : TokenKind) (line : Nat) : Scanner :=
  let later := s.tokens.length - position
  { s with tokens := s.tokens.take later ++ ⟨kind, line⟩ :: s.tokens.drop later }

/-- Adds a token of `n` characters. -/
def take (s : Scanner) (n : Nat) (kind : TokenKind) : Scanner :=
  { s.push kind s.line with cursor := s.cursor.forward n }

/-- Opens a collection at a place, unless one is open in its column already. -/
def openAt (s : Scanner) (position : Nat) (kind : TokenKind) (place : Place) : Scanner :=
  if s.inFlow || place.column < s.innerColumn then s
  else { s.insertAt position kind place.line with columns := place.column :: s.columns }

/-- Closes the collections that `closes` tells by their columns. -/
def closeWhile (s : Scanner) (closes : Nat → Bool) (line : Nat) : Scanner :=
  if s.inFlow then s
  else
    { s with
      tokens := List.replicate (s.columns.takeWhile closes).length ⟨.blockEnd, line⟩ ++ s.tokens
      columns := s.columns.dropWhile closes }

/-- Gives up the possible key inside the innermost brackets. -/
def dropKey (s : Scanner) : Except Fault Scanner :=
  match s.key with
  | none => .ok s
  | some k =>
    if k.required then .error (.lexical .missingColon k.place.line s.line)
    else .ok { s with key := none }

/-- Remembers that the next token may be a key. -/
def markKey (s : Scanner) : Except Fault Scanner :=
  if s.keyAllowed then do
    let required := !s.inFlow && s.columns.head? == some s.cursor.place.column
    let key : KeyStart := ⟨s.tokens.length, s.cursor.place, required⟩
    let s ← s.dropKey
    .ok { s with key := some key }
  else .ok s

/-- How many characters a comment takes, together with the comments on the lines right below it or
below empty lines. `comments` is what they take up to the line end last met, if no other character
came after it. -/
def commentLength : Option Nat → Nat → List Char → Nat
  | none, n, [] => n
  | some comments, _, [] => comments
  | none, n, c :: rest =>
    if c == '\n' then commentLength (some n) (n + 1) rest
    else if isBreak c then n
    else commentLength none (n + 1) rest
  | some comments, n, c :: rest =>
    if isBlank c || c == '\n' then commentLength (some comments) (n + 1) rest
    else if c == '#' then commentLength none (n + 1) rest
    else comments

/-- Moves to the next token. Outside of brackets no tab may stand where a key could start, and a new
line allows a key. The budget bounds the number of lines. -/
def skipGap (inFlow : Bool) : Nat → Bool → Cursor → Bool × Cursor
  | 0, allowed, c => (allowed, c)
  | budget + 1, allowed, c =>
    let c := c.skipWhile fun ch => ch == ' ' || ((inFlow || !allowed) && ch == '\t')
    let c := if c.rest.head? == some '#' then c.advance (commentLength none 0 c.rest) else c
    if c.rest.head?.any isBreak then skipGap inFlow budget (allowed || !inFlow) c.skipBreak
    else (allowed, c)

/-- Passes over a comment on the line of the last token. -/
def skipLineComment (s : Scanner) : Scanner :=
  let c := s.cursor.skipBlanks
  if c.rest.head? == some '#' && s.tokens.head?.all (·.kind != .blockEntry) then
    { s with cursor := c.toBreak }
  else s

def streamEnd (s : Scanner) : Except Fault Scanner := do
  let s := if s.cursor.place.column = 0 then s
    else { s with cursor.place := { s.cursor.place with line := s.line + 1, column := 0 } }
  let s ← (s.closeWhile (fun _ => true) s.line).dropKey
  .ok ({ s with keyAllowed := false }.push .streamEnd s.line)

def directiveLine (s : Scanner) : Except Fault Scanner := do
  let s ← (s.closeWhile (fun _ => true) s.line).dropKey
  let (kind, cursor) ← directive s.cursor
  .ok { s.push kind s.line with cursor, keyAllowed := false }

def documentMark (s : Scanner) (kind : TokenKind) : Except Fault Scanner := do
  let s ← (s.closeWhile (fun _ => true) s.line).dropKey
  .ok { s.take 3 kind with keyAllowed := false }

def openBracket (s : Scanner) (kind : TokenKind) : Except Fault Scanner := do
  let s ← s.markKey
  .ok { s.take 1 kind with key := none, outerKeys := s.key :: s.outerKeys, keyAllowed := true }

def closeBracket (s : Scanner) (kind : TokenKind) : Except Fault Scanner := do
  let s ← s.dropKey
  let s := { s.take 1 kind with keyAllowed := false }
  match s.outerKeys with
  | [] => .ok s
  | key :: outerKeys => .ok { s with key, outerKeys }

def flowEntry (s : Scanner) : Except Fault Scanner := do
  let s ← s.dropKey
  .ok { s.take 1 .flowEntry with keyAllowed := true }

def blockEntry (s : Scanner) : Except Fault Scanner :=
  if !s.inFlow && !s.keyAllowed then s.fail .entryNotAllowed
  else do
    let s ← (s.openAt s.tokens.length .blockSequenceStart s.cursor.place).dropKey
    .ok { s.take 1 .blockEntry with keyAllowed := true }

def explicitKey (s : Scanner) : Except Fault Scanner :=
  if !s.inFlow && !s.keyAllowed then s.fail .keyNotAllowed
  else do
    let s ← (s.openAt s.tokens.length .blockMappingStart s.cursor.place).dropKey
    .ok { s.take 1 .key with keyAllowed := !s.inFlow }

/-- The possible key that a colon at the cursor belongs to. -/
def currentKey (s : Scanner) : Except Fault (Option KeyStart) :=
  match s.key with
  | none => .ok none
  | some k => if k.isStale s.cursor.place then do let _ ← s.dropKey; .ok none else .ok (some k)

def colon (s : Scanner) : Except Fault Scanner := do
  match ← s.currentKey with
  | some k =>
    let s := s.insertAt k.position .key k.place.line
    let s := { s.openAt k.position .blockMappingStart k.place with key := none }
    .ok { s.take 1 .value with keyAllowed := false }
  | none =>
    if !s.inFlow && !s.keyAllowed then s.fail .valueNotAllowed
    else
      let s := s.openAt s.tokens.length .blockMappingStart s.cursor.place
      .ok { s.take 1 .value with keyAllowed := !s.inFlow }

def labelled (s : Scanner) (kind : Bytes → TokenKind) : Except Fault Scanner := do
  let s ← s.markKey
  let (name, cursor) ← label s.cursor
  .ok { s.push (kind name) s.line with cursor, keyAllowed := false }

def tagged (s : Scanner) : Except Fault Scanner := do
  let s ← s.markKey
  let (kind, cursor) ← tag s.cursor
  .ok { s.push kind s.line with cursor, keyAllowed := false }

def addBlock (s : Scanner) (literal : Bool) : Except Fault Scanner := do
  let s ← s.dropKey
  let r ← blockScalar literal s.innerColumn s.cursor
  .ok { s.push (.scalar (encode r.text) false) s.line with cursor := r.cursor, keyAllowed := true }

def addQuoted (s : Scanner) (single : Bool) : Except Fault Scanner := do
  let s ← s.markKey
  let r ← quotedScalar single s.cursor
  .ok { s.push (.scalar (encode r.text) false) s.line with cursor := r.cursor, keyAllowed := false }

/-- A scalar without quotes. A comment behind it belongs to its line only if it did not reach into
the next one. -/
def addPlain (s : Scanner) : Except Fault Scanner := do
  let s ← s.markKey
  let r ← plain s.innerColumn s.inFlow s.cursor
  let s := { s.push (.scalar (encode r.text) true) s.line with
    cursor := r.cursor, keyAllowed := r.brokenOff }
  .ok (if r.brokenOff then s else s.skipLineComment)

/-- Characters that can not start a scalar without quotes; the last three can if something follows
them. -/
def reserved : List Char :=
  [',', '[', ']', '\x7b', '\x7d', '#', '&', '*', '!', '|', '>', '\'', '"', '%', '@', '\x60',
   '-', '?', ':']

def startsPlain (inFlow : Bool) (c : Char) (rest : List Char) : Bool :=
  !(isBlank c || isBreak c || reserved.contains c) ||
    (c == '-' && !rest.head?.any isBlank) || (!inFlow && (c == '?' || c == ':') && !atGap rest)

/-- Adds the token that starts with the given character. -/
def addToken (s : Scanner) (c : Char) (rest : List Char) : Except Fault Scanner :=
  let indicator := s.inFlow || atGap rest
  let atLineStart := s.cursor.place.column == 0
  if atLineStart && c == '%' then s.directiveLine
  else if atLineStart && startsMark '-' (c :: rest) then s.documentMark .documentStart
  else if atLineStart && startsMark '.' (c :: rest) then s.documentMark .documentEnd
  else if c == '[' then skipLineComment <$> s.openBracket .flowSequenceStart
  else if c == '\x7b' then skipLineComment <$> s.openBracket .flowMappingStart
  else if c == ']' then skipLineComment <$> s.closeBracket .flowSequenceEnd
  else if c == '\x7d' then skipLineComment <$> s.closeBracket .flowMappingEnd
  else if c == ',' then skipLineComment <$> s.flowEntry
  else if c == '-' && atGap rest then skipLineComment <$> s.blockEntry
  else if c == '?' && indicator then skipLineComment <$> s.explicitKey
  else if c == ':' && indicator then skipLineComment <$> s.colon
  else if c == '*' then skipLineComment <$> s.labelled .reference
  else if c == '&' then skipLineComment <$> s.labelled .anchor
  else if c == '!' then skipLineComment <$> s.tagged
  else if c == '|' && !s.inFlow then s.addBlock true
  else if c == '>' && !s.inFlow then s.addBlock false
  else if c == '\'' then skipLineComment <$> s.addQuoted true
  else if c == '"' then skipLineComment <$> s.addQuoted false
  else if startsPlain s.inFlow c rest then s.addPlain
  else s.fail .noToken

/-- Adds the next token, and with it the ends of collections that it shows to be complete. The
budget bounds the number of lines before it. -/
def next (budget : Nat) (s : Scanner) : Except Fault Scanner :=
  let line := s.line
  let (keyAllowed, cursor) := skipGap s.inFlow budget s.keyAllowed s.cursor
  let s := { s with keyAllowed, cursor }.closeWhile (cursor.place.column < ·) line
  match cursor.rest with
  | [] => s.streamEnd
  | c :: rest => s.addToken c rest

def isFinished (s : Scanner) : Bool := s.tokens.head?.any (·.kind == .streamEnd)

/-- How many tokens can be used although the text behind them makes no sense. A token can be used
when two more are known and it is settled whether it is a key. -/
def usable (s : Scanner) : Nat :=
  (s.key :: s.outerKeys).foldl (fun n key =>
    match key with
    | some k => if k.required || !k.isStale s.cursor.place then min n k.position else n
    | none => n) (s.tokens.length - 2)

/-- The first tokens, and then a fault. -/
def cutAt (s : Scanner) (n : Nat) (f : Fault) : List Token :=
  s.tokens.reverse.take n ++ [⟨.fault f, s.line⟩]

/-- A key that had to stand outside of all brackets, but whose line has ended. -/
def overdueKey? (s : Scanner) : Option KeyStart :=
  ((s.key :: s.outerKeys).getLast?.bind id).filter fun k => k.required && k.isStale s.cursor.place

/-- The tokens up to where a key is missing, if one is, or else what `others` gives. A missing key is
noticed when `known` tokens from its place on are known. -/
def upToOverdueKey (s : Scanner) (known : Nat) (others : List Token) : List Token :=
  match s.overdueKey? with
  | some k =>
    if k.position + known ≤ s.tokens.length then
      s.cutAt k.position (.lexical .missingColon k.place.line s.line)
    else others
  | none => others

/-- All tokens. Each takes a character at least, so a budget beyond the number of characters is never
used up. -/
def run : Nat → Scanner → List Token
  | 0, s => s.tokens.reverse
  | budget + 1, s =>
    if s.isFinished then s.upToOverdueKey 0 s.tokens.reverse
    else match s.next (budget + 1) with
      | .ok s => run budget s
      | .error f => s.upToOverdueKey 3 (s.cutAt s.usable f)

end Scanner

/-- The tokens of a text. -/
def tokensOf (c : Cursor) : List Token := Scanner.run (c.rest.length + 2) { cursor := c }

end Yaml

end Scriptlet
