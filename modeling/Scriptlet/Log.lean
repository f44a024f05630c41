import Scriptlet.LowerCase
import Scriptlet.Quoted
import Scriptlet.Session

/-! # The log

Events of a session as log entries, and log entries as lines. A line holds the time, the level, the
message and then the fields in the order of their names. A value is quoted when it holds anything
but letters, digits and a few marks.
-/
namespace Scriptlet

/-- Levels of importance, the most important first. -/
inductive Level where
  | panic
  | fatal
  | error
  | warn
  | info
  | debug
  | trace
  deriving DecidableEq, Repr

namespace Level

def rank : Level → Nat
  | .panic => 0
  | .fatal => 1
  | .error => 2
  | .warn => 3
  | .info => 4
  | .debug => 5
  | .trace => 6

def name : Level → Bytes
  | .panic => utf8 "panic"
  | .fatal => utf8 "fatal"
  | .error => utf8 "error"
  | .warn => utf8 "warning"
  | .info => utf8 "info"
  | .debug => utf8 "debug"
  | .trace => utf8 "trace"

/-- A level by its name in any case; one level has a short name too. -/
def ofName? (text : Bytes) : Option Level :=
  let text := lowered text
  if text = utf8 "warn" then some .warn
  else [Level.panic, .fatal, .error, .warn, .info, .debug, .trace].find? (·.name == text)

/-- The complaint about a name that is no level. -/
def refusal (text : Bytes) : Bytes :=
  utf8 "invalid log level " ++ quoted text ++ utf8 ": not a valid logrus Level: " ++ quoted text

end Level

/-- The value of a field of a log entry. How long something took is written as given. -/
inductive FieldValue where
  | number (n : Nat)
  | flag (b : Bool)
  | text (t : Bytes)
  | elapsed (t : Bytes)
  deriving DecidableEq, Repr

structure LogEntry where
  level : Level
  message : Bytes
  fields : List (Bytes × FieldValue)
  deriving DecidableEq, Repr

namespace Log

def isPlainByte (b : UInt8) : Bool :=
  isDigit b || (isLetter b || (utf8 "-./@^+").contains b)

def plainOrQuoted (text : Bytes) : Bytes := if text.all isPlainByte then text else quoted text

def valueText : FieldValue → Bytes
  | .number n => decimal n
  | .flag true => utf8 "true"
  | .flag false => utf8 "false"
  | .text t => plainOrQuoted t
  | .elapsed t => t

/-- A line of the log at the time `stamp`. -/
def line (stamp : Bytes) (entry : LogEntry) : Bytes :=
  let fields := entry.fields.mergeSort fun a b => decide (a.1 ≤ b.1)
  joinWith [0x20] ([utf8 "time=" ++ quoted stamp, utf8 "level=" ++ entry.level.name,
    utf8 "msg=" ++ plainOrQuoted entry.message] ++
    fields.map fun (name, value) => name ++ utf8 "=" ++ valueText value)

/-- The log entry of an event. Running a source took the time `elapsed`. -/
def ofEvent (elapsed : Bytes) : Event → LogEntry
  | .reported d =>
    ⟨.info, d.message, [(utf8 "kind", .text d.stage.name), (utf8 "line", .number d.line)]⟩
  | .scanned n => ⟨.debug, utf8 "scanned source", [(utf8 "tokens", .number n)]⟩
  | .parsed n => ⟨.debug, utf8 "parsed source", [(utf8 "statements", .number n)]⟩
  | .resolved n => ⟨.debug, utf8 "resolved source", [(utf8 "resolved", .number n)]⟩
  | .evaluated ok =>
    ⟨.debug, utf8 "interpreted source", [(utf8 "duration", .elapsed elapsed), (utf8 "ok", .flag ok)]⟩

end Log

/-- Where and how log lines are written: down to a level, each with the name of the script. -/
structure Logger where
  level : Level
  stamp : Bytes
  elapsed : Bytes
  script : Bytes
  deriving DecidableEq, Repr

namespace Logger

/-- The text of the entries that are important enough. -/
def write (logger : Logger) (entries : List LogEntry) : Bytes :=
  let shown := entries.filter fun e => e.level.rank ≤ logger.level.rank
  unlines (shown.map fun e =>
    Log.line logger.stamp { e with fields := (utf8 "script", .text logger.script) :: e.fields })

def events (logger : Logger) (events : List Event) : Bytes :=
  logger.write (events.map (Log.ofEvent logger.elapsed))

end Logger

end Scriptlet
