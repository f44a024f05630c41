import Scriptlet.Bytes

/-! # Paths

Paths are texts with slashes. Cleaning a path removes empty components, single dots, and double
dots together with the component in front of them, without looking at any file.
-/
namespace Scriptlet

namespace Path

def slash : UInt8 := 0x2f

def isAbsolute (path : Bytes) : Bool := path.head? = some slash

def dot : Bytes := [0x2e]

def dotDot : Bytes := [0x2e, 0x2e]

/-- Adds a component to cleaned ones, of which the last comes first. -/
def push (rooted : Bool) (done : List Bytes) (component : Bytes) : List Bytes :=
  if component = [] ∨ component = dot then done
  else if component = dotDot then
    match done with
    | [] => if rooted then [] else [dotDot]
    | last :: before => if last = dotDot then dotDot :: done else before
  else component :: done

def clean (path : Bytes) : Bytes :=
  let rooted := isAbsolute path
  let components := ((splitOn slash path).foldl (push rooted) []).reverse
  let text := joinWith [slash] components
  if rooted then slash :: text else if components = [] then dot else text

/-- Two paths joined and cleaned; an empty one is left out. -/
def join (a b : Bytes) : Bytes :=
  if a = [] then (if b = [] then [] else clean b)
  else if b = [] then clean a
  else clean (a ++ slash :: b)

/-- A path seen from a working directory. -/
def absolute (directory path : Bytes) : Bytes :=
  if isAbsolute path then clean path else join directory path

end Path

end Scriptlet
