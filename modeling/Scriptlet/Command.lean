import Scriptlet.Flags
import Scriptlet.Log
import Scriptlet.Repl
import Scriptlet.Settings

/-! # The command

From arguments to an exit code and texts: a script is read and run, or its tree is shown, or the
command reads entries interactively. What is written before a session starts, and the log, go to
the error output.
-/
namespace Scriptlet

/-- How the command ends. -/
inductive ExitCode where
  | ok
  | usage
  | staticError
  | input
  | runtimeError
  deriving DecidableEq, Repr

def ExitCode.number : ExitCode → Nat
  | .ok => 0
  | .usage => 64
  | .staticError => 65
  | .input => 66
  | .runtimeError => 70

/-- What the command wrote: as a script runner to `out` and `err`, interactively to `shown` and
`complaints`. -/
structure CommandResult where
  code : ExitCode
  out : Bytes := []
  err : Bytes := []
  shown : Bytes := []
  complaints : Bytes := []
  deriving DecidableEq, Repr

namespace Command

/-- A refusal with one line on the error output. -/
def refuse (code : ExitCode) (message : Bytes) : CommandResult :=
  { code, err := message ++ [newline] }

/-- What to do, once the arguments and settings are read. A task without a script is interactive. -/
structure Task where
  script : Option Bytes
  tree : Bool
  level : Level
  palette : Palette
  prompt : Bytes
  deriving DecidableEq, Repr

/-- Finds out what to do. Of several faults the one found first counts: arguments, settings, the
level of the log, and a tree without a script. -/
def prepare (host : Host) (arguments : List Bytes) : Except CommandResult Task :=
  match Invocation.parse arguments with
  | .error e =>
    let complaint := match e.message? with
      | some m => m ++ [newline]
      | none => []
    .error { code := .usage, err := complaint ++ usage }
  | .ok inv =>
    if 1 < inv.operands.length then .error { code := .usage, err := usage }
    else match Settings.load host inv.config with
      | .error e => .error (refuse .input e.message)
      | .ok settings =>
        let name := if inv.logLevel = [] then settings.logLevel else inv.logLevel
        match Level.ofName? name with
        | none => .error (refuse .usage (Level.refusal name))
        | some level =>
          if inv.ast ∧ inv.operands = [] then .error (refuse .usage (utf8 "-ast needs a script"))
          else .ok
            { script := inv.operands.head?
              tree := inv.ast
              level
              palette := ⟨host.terminal && settings.color && !inv.noColor⟩
              prompt := settings.prompt }

/-- The exit code of a script, and what the log says about one that did not complete. -/
def verdict : Ending → ExitCode × List LogEntry
  | .completed => (.ok, [])
  | .rejected => (.staticError, [⟨.debug, utf8 "script rejected before running", []⟩])
  | _ => (.runtimeError, [⟨.debug, utf8 "script aborted by runtime error", []⟩])

/-- Runs the source of a script, or reads its tree. -/
def report (budget : Nat) (processVars : NameMap Bytes) (clock : Clock) (task : Task)
    (source : Bytes) : Report :=
  let session := Session.start clock
  if task.tree then (session.showTree source).1 else (session.run budget processVars source).1

/-- What is written about a script that was run. -/
def scriptResult (host : Host) (task : Task) (absolute : Bytes) (r : Report) : CommandResult :=
  let logger : Logger := ⟨task.level, host.stamp, host.elapsed, absolute⟩
  let (code, entries) := verdict r.ending
  { code
    out := unlines r.printed
    err := logger.events r.events ++ task.palette.diagnostics r.diagnostics ++
      logger.write entries }

/-- What is written about a script that can not be read. -/
def unreadableScript (task : Task) (path absolute : Bytes) (e : FileError) : CommandResult :=
  refuse .input (task.palette.paint .red
    (utf8 "cannot read " ++ path ++ utf8 ": " ++ e.message absolute))

def runScript (budget : Nat) (host : Host) (clock : Clock) (task : Task) (path : Bytes) :
    CommandResult :=
  let absolute := Path.absolute host.directory path
  match host.fileText absolute with
  | .error e => unreadableScript task path absolute e
  | .ok source => scriptResult host task absolute (report budget host.processVars clock task source)

def replLogger (host : Host) (task : Task) : Logger :=
  ⟨task.level, host.stamp, host.elapsed, utf8 "<repl>"⟩

/-- Runs an interactive session on all that is typed. -/
def runRepl (budget : Nat) (host : Host) (clock : Clock) (task : Task) (input : Bytes) :
    CommandResult :=
  let start : Repl := { session := .start clock }
  let steps := start.steps budget host.processVars task.palette (ReaderEvent.ofInput input)
  { code := .ok
    err := steps.flatMap fun s => (replLogger host task).events s.events
    shown := unlines (Repl.banner task.palette :: steps.flatMap ReplStep.shown)
    complaints := steps.flatMap fun s => task.palette.diagnostics s.diagnostics }

def run (budget : Nat) (host : Host) (clock : Clock) (arguments : List Bytes) (input : Bytes) :
    CommandResult :=
  match prepare host arguments with
  | .error result => result
  | .ok task =>
    match task.script with
    | some path => runScript budget host clock task path
    | none => runRepl budget host clock task input

end Command

end Scriptlet
