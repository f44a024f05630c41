import Scriptlet.Command
import Scriptlet.Stamp
import Std.Time.DateTime.Timestamp

/-! # The program

The outer layer of the command: it reads the files that the command asks for, the variables and the
clock, passes them on, and writes what comes back.
-/
namespace Scriptlet.Program

/-- Far more steps than any run takes that a user waits for. -/
def budget : Nat := 1000000000000000

def nameOf (path : Bytes) : String := (String.fromUTF8? path.toByteArray).getD ""

def readPath (path : Bytes) : IO (Except FileError Bytes) := do
  try
    return .ok (← IO.FS.readBinFile (nameOf path)).data.toList
  catch
    | .noFileOrDirectory .. => return .error .notFound
    | .inappropriateType .. => return .error .isDirectory
    | .invalidArgument .. => return .error .invalidName
    | _ => return .error .notDirectory

/-- The variables of the process, as the system lists them. -/
def readVariables : IO (NameMap Bytes) := do
  match ← readPath (utf8 "/proc/self/environ") with
  | .error _ => return .empty
  | .ok text =>
    return .ofList ((splitOn 0 text).filterMap fun entry =>
      match entry.dropWhile (· != 0x3d) with
      | [] => none
      | _ :: value => some (entry.takeWhile (· != 0x3d), value))

def writeTo (stream : IO.FS.Stream) (text : Bytes) : IO Unit := do
  stream.write text.toByteArray
  stream.flush

def nanoseconds : IO Int :=
  return (← Std.Time.Timestamp.now).toNanosecondsSinceUnixEpoch.val

def millisecondsText (start finish : Nat) : Bytes := decimal (finish - start) ++ utf8 "ms"

def finish (result : CommandResult) : IO UInt32 := do
  writeTo (← IO.getStdout) (result.out ++ result.shown)
  writeTo (← IO.getStderr) (result.err ++ result.complaints)
  return result.code.number.toUInt32

def script (host : Host) (task : Command.Task) (clock : Clock) (path : Bytes) : IO UInt32 := do
  let absolute := Path.absolute host.directory path
  match ← readPath absolute with
  | .error e => finish (Command.unreadableScript task path absolute e)
  | .ok source =>
    let begin_ ← IO.monoMsNow
    let report := Command.report budget host.processVars clock task source
    if report.ending = .exhausted then return 1
    let elapsed := millisecondsText begin_ (← IO.monoMsNow)
    finish (Command.scriptResult { host with elapsed } task absolute report)

/-- Reads one event; a line comes without its line end. -/
def nextEvent (input : IO.FS.Stream) : IO ReaderEvent := do
  let line ← input.getLine
  if line.isEmpty then return .endOfInput
  let text := utf8 line
  return .line (if text.getLast? = some newline then text.dropLast else text)

partial def converse (host : Host) (task : Command.Task) (prompting : Bool) (r : Repl) :
    IO UInt32 := do
  let out ← IO.getStdout
  let err ← IO.getStderr
  if prompting then writeTo out (r.prompt task.palette task.prompt)
  let event ← nextEvent (← IO.getStdin)
  let (step, r) := r.step budget host.processVars task.palette event
  writeTo out (unlines step.shown)
  writeTo err ((Command.replLogger host task).events step.events)
  writeTo err (task.palette.diagnostics step.diagnostics)
  if step.finished then return ExitCode.ok.number.toUInt32
  converse host task prompting r

def run (arguments : List Bytes) : IO UInt32 := do
  let processVars ← readVariables
  let now ← nanoseconds
  let path := match Invocation.parse arguments with
    | .ok inv => Settings.file? processVars inv.config
    | .error _ => none
  let settingsText ← match path with
    | some (path, _) => readPath path
    | none => pure (.error .notFound)
  let host : Host :=
    { directory := utf8 (← IO.currentDir).toString
      processVars
      fileText := fun _ => settingsText
      terminal := ← (← IO.getStderr).isTty
      stamp := Stamp.ofSeconds (now / 1000000000).toNat
      elapsed := millisecondsText 0 0 }
  let clock : Clock := ⟨[Int64.ofInt now]⟩
  match Command.prepare host arguments with
  | .error result => finish result
  | .ok task =>
    match task.script with
    | some path => script host task clock path
    | none =>
      writeTo (← IO.getStdout) (unlines [Repl.banner task.palette])
      let prompting ← (← IO.getStdin).isTty
      converse host task prompting { session := .start clock }

end Scriptlet.Program

def main (arguments : List String) : IO UInt32 :=
  Scriptlet.Program.run (arguments.map Scriptlet.utf8)
