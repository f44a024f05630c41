import Scriptlet.Evaluation
import Scriptlet.Tree.Parser
import Scriptlet.Tree.Printer

/-! # Sessions

A session runs one source after another on the same machine, so that later sources see the globals
of earlier ones. A source is run only if scanning, parsing and resolving it report nothing. The
table of distances grows over the session, also by sources that are then rejected; tokens are
numbered through the whole session, so entries of different sources never meet.
-/
namespace Scriptlet

/-- How the run of a source ends. The last two do not happen to a resolved program that ends within
the budget. -/
inductive Ending where
  | completed
  | rejected
  | failed
  | lost
  | exhausted
  deriving DecidableEq, Repr

/-- What a session makes known while it works. -/
inductive Event where
  | reported (diagnostic : Diagnostic)
  | scanned (tokens : Nat)
  | parsed (statements : Nat)
  | resolved (entries : Nat)
  | evaluated (ok : Bool)
  deriving DecidableEq, Repr

structure Session where
  machine : Machine
  table : Table := ∅
  nextIndex : Nat := 0

/-- The result of one run: how it ended, what it reported, the lines it printed and the events, each
in the order in which they came. -/
structure Report where
  ending : Ending
  diagnostics : List Diagnostic
  printed : List Bytes
  events : List Event
  deriving DecidableEq, Repr

/-- A scanned and parsed source. -/
structure Loaded where
  tokens : List Token
  statements : List Stmt
  diagnostics : List Diagnostic
  events : List Event

/-- Scans and parses a source whose first token takes the place `index`. The end of the source
counts as a token of its own. -/
def load (index : Nat) (source : Bytes) : Loaded :=
  let scan := scanFrom index source
  let parsed := parse scan.tokens
  let lexical := scan.faults.map Diagnostic.ofLexical
  let syntactic := parsed.faults.map (Diagnostic.ofParse scan.endLine)
  { tokens := scan.tokens
    statements := parsed.statements
    diagnostics := lexical ++ syntactic
    events := lexical.map .reported ++ .scanned (scan.tokens.length + 1) ::
      syntactic.map .reported ++ [.parsed parsed.statements.length] }

/-- How an evaluation ended, with the diagnostic of an error. -/
def Ending.ofResult {σ α : Type} : EStateM.Result Abort σ α → Ending × List Diagnostic
  | .ok _ _ => (.completed, [])
  | .error (.fault error token) _ => (.failed, [⟨.runtime, token.line, [], error.message⟩])
  | .error .lost _ => (.lost, [])
  | .error .exhausted _ => (.exhausted, [])

def machineAfter {σ α : Type} : EStateM.Result Abort σ α → σ
  | .ok _ m => m
  | .error _ m => m

/-- What is known about an evaluation that has ended. -/
def Report.ofResult {μ κ α : Type} (result : EStateM.Result Abort (Machine μ κ) α) : Report :=
  let (ending, diagnostics) := Ending.ofResult result
  { ending
    diagnostics
    printed := (machineAfter result).printed.reverse
    events := diagnostics.map .reported ++ [.evaluated (ending = .completed)] }

/-- Evaluates statements with a given table. -/
def evaluate (budget : Nat) (ctx : Context) (statements : List Stmt) (machine : Machine) :
    Report × Machine :=
  let result := Eval.program ctx budget statements { machine with printed := [] }
  (.ofResult result, machineAfter result)

namespace Session

def start (clock : Clock) : Session := { machine := .start clock }

/-- The session after a source with the given tokens was loaded. -/
def past (s : Session) (tokens : List Token) : Session :=
  { s with nextIndex := s.nextIndex + tokens.length }

/-- Runs a source. -/
def run (budget : Nat) (processVars : NameMap Bytes) (s : Session) (source : Bytes) :
    Report × Session :=
  let loaded := load s.nextIndex source
  let s := s.past loaded.tokens
  if loaded.diagnostics ≠ [] then
    (⟨.rejected, loaded.diagnostics, [], loaded.events⟩, s)
  else
    let resolved := resolve s.table loaded.statements
    let s := { s with table := resolved.table }
    let diagnostics := resolved.faults.map Diagnostic.ofStatic
    let events := loaded.events ++ diagnostics.map .reported ++ [.resolved resolved.table.size]
    if diagnostics ≠ [] then
      (⟨.rejected, diagnostics, [], events⟩, s)
    else
      let (report, machine) :=
        evaluate budget ⟨s.table, processVars⟩ loaded.statements s.machine
      ({ report with events := events ++ report.events }, { s with machine })

/-- Prints the tree of a source instead of running it. -/
def showTree (s : Session) (source : Bytes) : Report × Session :=
  let loaded := load s.nextIndex source
  let s := s.past loaded.tokens
  if loaded.diagnostics ≠ [] then
    (⟨.rejected, loaded.diagnostics, [], loaded.events⟩, s)
  else
    (⟨.completed, [], Stmt.texts loaded.statements, loaded.events⟩, s)

end Session

end Scriptlet
