import Scriptlet.Palette
import Scriptlet.Repl.Entry
import Scriptlet.Session

/-! # The interactive session

A reader delivers lines, interrupts and the end of the input. Lines become entries, and complete
entries are run one after the other in one session.
-/
namespace Scriptlet

inductive ReaderEvent where
  | line (text : Bytes)
  | interrupt
  | endOfInput
  deriving DecidableEq, Repr

namespace ReaderEvent

/-- The events in a stream of typed bytes, where `typed` is the unfinished line, last byte first.
Control-C drops the unfinished line and interrupts. Control-D ends the input at the start of a line
and does nothing elsewhere; tabs never get into a line. Text in front of the end of the stream is a
line too. -/
def ofTyped (typed : Bytes) : Bytes → List ReaderEvent
  | [] => if typed.isEmpty then [.endOfInput] else [.line typed.reverse, .endOfInput]
  | b :: rest =>
    if b = 0x0a ∨ b = 0x0d then .line typed.reverse :: ofTyped [] rest
    else if b = 0x03 then .interrupt :: ofTyped [] rest
    else if b = 0x04 then
      if typed.isEmpty then [.endOfInput] else ofTyped typed rest
    else if b = 0x09 then ofTyped typed rest
    else ofTyped (b :: typed) rest

def ofInput (input : Bytes) : List ReaderEvent := ofTyped [] input

end ReaderEvent

/-- What an event asks for. -/
inductive Response where
  | wait
  | run (source : Bytes)
  | hint
  | farewell
  | quit
  deriving DecidableEq, Repr

/-- The word that ends the session. -/
def exitWord : Bytes := utf8 "exit"

/-- The answer to an event, and the entry that is then being collected. -/
def Entry.respond (e : Entry) : ReaderEvent → Entry × Response
  | .interrupt => if e.pending then ({}, .wait) else (e, .hint)
  | .endOfInput => (e, .farewell)
  | .line text =>
    if !e.pending ∧ trimBlanks text = exitWord then (e, .quit)
    else match e.add text with
      | (e, some source) => (e, if trimBlanks source = [] then .wait else .run source)
      | (e, none) => (e, .wait)

structure Repl where
  session : Session
  entry : Entry := {}

/-- What one event brings about: lines shown, problems, events of the session, and whether it was
the last. -/
structure ReplStep where
  shown : List Bytes := []
  diagnostics : List Diagnostic := []
  events : List Event := []
  finished : Bool := false
  deriving DecidableEq, Repr

namespace Repl

def banner (p : Palette) : Bytes :=
  p.paint .bold (utf8 "pikl") ++ utf8 " " ++ p.paint .grey (utf8 "(type 'exit' or Ctrl+D to quit)")

def hintLine (p : Palette) : Bytes := p.paint .grey (utf8 "(use 'exit' or Ctrl+D to quit)")

/-- The text in front of the line being typed. -/
def prompt (p : Palette) (text : Bytes) (r : Repl) : Bytes :=
  if r.entry.pending then p.paint .grey (utf8 "...   ") else p.paint .green text

def step (budget : Nat) (processVars : NameMap Bytes) (p : Palette) (r : Repl) (event : ReaderEvent) :
    ReplStep × Repl :=
  let (entry, response) := r.entry.respond event
  let r := { r with entry }
  match response with
  | .wait => ({}, r)
  | .hint => ({ shown := [hintLine p] }, r)
  | .farewell => ({ shown := [[]], finished := true }, r)
  | .quit => ({ finished := true }, r)
  | .run source =>
    let (report, session) := r.session.run budget processVars source
    ({ shown := report.printed, diagnostics := report.diagnostics, events := report.events },
      { r with session })

/-- The steps for a list of events, up to the one that ends the session. -/
def steps (budget : Nat) (processVars : NameMap Bytes) (p : Palette) : Repl → List ReaderEvent →
    List ReplStep
  | _, [] => []
  | r, event :: rest =>
    let (s, r) := r.step budget processVars p event
    s :: if s.finished then [] else steps budget processVars p r rest

end Repl

end Scriptlet
