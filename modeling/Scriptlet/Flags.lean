import Scriptlet.Quoted

/-! # The command line

Flags come first, with one or two dashes. A flag with a value takes it behind an equals sign or as
the next argument; a switch takes one only behind an equals sign. Two dashes alone, or the first
argument that is no flag, end the flags.
-/
namespace Scriptlet

inductive Flag where
  | ast
  | config
  | logLevel
  | noColor
  deriving DecidableEq, Repr

namespace Flag

/-- All flags in the order of their names. -/
def all : List Flag := [.ast, .config, .logLevel, .noColor]

def name : Flag → Bytes
  | .ast => utf8 "ast"
  | .config => utf8 "config"
  | .logLevel => utf8 "log-level"
  | .noColor => utf8 "no-color"

def isSwitch : Flag → Bool
  | .ast | .noColor => true
  | .config | .logLevel => false

def description : Flag → Bytes
  | .ast => utf8 "print the syntax tree instead of running the script"
  | .config => utf8 "path to a YAML config file (default $PIKL_CONFIG)"
  | .logLevel => utf8 "log level: debug, info, warn or error"
  | .noColor => utf8 "disable coloured output"

def ofName? (name : Bytes) : Option Flag := all.find? (·.name == name)

def usageLines (f : Flag) : List Bytes :=
  [utf8 "  -" ++ f.name ++ (if f.isSwitch then [] else utf8 " string"), utf8 "    \t" ++ f.description]

end Flag

def usage : Bytes :=
  unlines (utf8 "Usage: pikl [flags] [script]" :: Flag.all.flatMap Flag.usageLines)

/-- What a command line asks for. Texts that are not given are empty. -/
structure Invocation where
  config : Bytes := []
  logLevel : Bytes := []
  ast : Bool := false
  noColor : Bool := false
  operands : List Bytes := []
  deriving DecidableEq, Repr

/-- Why a command line is refused. -/
inductive UsageError where
  | help
  | badSyntax (argument : Bytes)
  | undefined (name : Bytes)
  | missingValue (flag : Flag)
  | badSwitch (flag : Flag) (value : Bytes)
  deriving DecidableEq, Repr

/-- The complaint, if there is anything to complain about. -/
def UsageError.message? : UsageError → Option Bytes
  | .help => none
  | .badSyntax argument => some (utf8 "bad flag syntax: " ++ argument)
  | .undefined name => some (utf8 "flag provided but not defined: -" ++ name)
  | .missingValue flag => some (utf8 "flag needs an argument: -" ++ flag.name)
  | .badSwitch flag value =>
    some (utf8 "invalid boolean value " ++ quoted value ++ utf8 " for -" ++ flag.name ++
      utf8 ": parse error")

namespace Invocation

def switch? (value : Bytes) : Option Bool :=
  if isOneOf ["1", "t", "T", "TRUE", "true", "True"] value then some true
  else if isOneOf ["0", "f", "F", "FALSE", "false", "False"] value then some false
  else none

/-- An argument in the flags' place. -/
inductive Argument where
  | operand
  | terminator
  | malformed
  | flag (name : Bytes) (value : Option Bytes)
  deriving DecidableEq, Repr

/-- A name and the value behind the first equals sign, which can not be the first byte. -/
def splitValue (text : Bytes) : Argument :=
  match text with
  | [] => .malformed
  | b :: rest =>
    if b == 0x2d || b == 0x3d then .malformed
    else match rest.dropWhile (· != 0x3d) with
      | [] => .flag text none
      | _ :: value => .flag (b :: rest.takeWhile (· != 0x3d)) (some value)

def classify (argument : Bytes) : Argument :=
  match argument with
  | 0x2d :: 0x2d :: [] => .terminator
  | 0x2d :: 0x2d :: rest => splitValue rest
  | 0x2d :: b :: rest => splitValue (b :: rest)
  | _ => .operand

def setSwitch (inv : Invocation) (flag : Flag) (on : Bool) : Invocation :=
  match flag with
  | .ast => { inv with ast := on }
  | .noColor => { inv with noColor := on }
  | _ => inv

def setText (inv : Invocation) (flag : Flag) (value : Bytes) : Invocation :=
  match flag with
  | .config => { inv with config := value }
  | .logLevel => { inv with logLevel := value }
  | _ => inv

def isHelp (name : Bytes) : Bool := name = utf8 "help" || name = utf8 "h"

/-- Reads arguments from the left. A flag given again replaces what it said before. -/
def parseFrom (inv : Invocation) : List Bytes → Except UsageError Invocation
  | [] => .ok inv
  | argument :: rest =>
    match classify argument with
    | .operand => .ok { inv with operands := argument :: rest }
    | .terminator => .ok { inv with operands := rest }
    | .malformed => .error (.badSyntax argument)
    | .flag name value =>
      match Flag.ofName? name with
      | none => .error (if isHelp name then .help else .undefined name)
      | some flag =>
        if flag.isSwitch then
          match value with
          | none => parseFrom (inv.setSwitch flag true) rest
          | some text =>
            match switch? text with
            | some on => parseFrom (inv.setSwitch flag on) rest
            | none => .error (.badSwitch flag text)
        else match value with
          | some text => parseFrom (inv.setText flag text) rest
          | none =>
            match rest with
            | text :: rest => parseFrom (inv.setText flag text) rest
            | [] => .error (.missingValue flag)

def parse (arguments : List Bytes) : Except UsageError Invocation := parseFrom {} arguments

end Invocation

end Scriptlet
