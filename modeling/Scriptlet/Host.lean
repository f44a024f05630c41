import Scriptlet.NameMap
import Scriptlet.Path

/-! # The host

What the command can ask of the system it runs on: its working directory, its variables, and the
contents of files. A tree of files that is known beforehand answers like a file system would.
-/
namespace Scriptlet

inductive FileError where
  | notFound
  | notDirectory
  | isDirectory
  | nameTooLong
  | invalidName
  deriving DecidableEq, Repr

namespace FileError

/-- A directory can be opened and fails only when it is read. -/
def operation : FileError → Bytes
  | .isDirectory => utf8 "read"
  | _ => utf8 "open"

def reason : FileError → Bytes
  | .notFound => utf8 "no such file or directory"
  | .notDirectory => utf8 "not a directory"
  | .isDirectory => utf8 "is a directory"
  | .nameTooLong => utf8 "file name too long"
  | .invalidName => utf8 "invalid argument"

def message (e : FileError) (path : Bytes) : Bytes :=
  e.operation ++ utf8 " " ++ path ++ utf8 ": " ++ e.reason

end FileError

/-- Log lines are stamped with `stamp` and say that a run took `elapsed`; `terminal` tells whether
problems are shown on a terminal. -/
structure Host where
  directory : Bytes
  processVars : NameMap Bytes
  fileText : Bytes → Except FileError Bytes
  terminal : Bool := false
  stamp : Bytes
  elapsed : Bytes

/-- Files and directories by their places, which are lists of components from the top. Paths that are
not absolute start at the working directory. -/
structure FileTree where
  working : List Bytes
  files : List (List Bytes × Bytes)
  directories : List (List Bytes)

namespace FileTree

def components (path : Bytes) : List Bytes := (splitOn Path.slash path).filter (· ≠ [])

/-- A tree from its working directory and paths; one that ends in a slash is a directory. -/
def ofListing (directory : Bytes) (listing : List (Bytes × Bytes)) : FileTree :=
  let working := components directory
  let place (path : Bytes) :=
    if Path.isAbsolute path then components path else working ++ components path
  let isDirectory (path : Bytes) : Bool := path.getLast? = some Path.slash
  { working
    files := (listing.filter fun e => !isDirectory e.1).map fun (p, text) => (place p, text)
    directories := working :: (listing.filter fun e => isDirectory e.1).map fun e => place e.1 }

/-- The top is a directory, and so is whatever lies above a file or directory. -/
def isDirectory (t : FileTree) (place : List Bytes) : Bool :=
  place.isEmpty || t.directories.any (place.isPrefixOf ·) ||
    t.files.any fun f => place.isPrefixOf f.1 && place != f.1

/-- The longest name of a file, in bytes. -/
def longestName : Nat := 255

/-- The longest path, in bytes. -/
def longestPath : Nat := 4095

/-- Follows components from a place in the tree. -/
def walk (t : FileTree) (place : List Bytes) : List Bytes → Except FileError Bytes
  | [] =>
    match t.files.lookup place with
    | some text => .ok text
    | none => if t.isDirectory place then .error .isDirectory else .error .notFound
  | component :: rest =>
    if t.isDirectory place then
      if component = [] ∨ component = Path.dot then t.walk place rest
      else if component = Path.dotDot then t.walk place.dropLast rest
      else if longestName < component.length then .error .nameTooLong
      else t.walk (place ++ [component]) rest
    else if (t.files.lookup place).isSome then .error .notDirectory
    else .error .notFound

/-- Reads a file by its path. -/
def read (t : FileTree) (path : Bytes) : Except FileError Bytes :=
  if path.contains 0 then .error .invalidName
  else if path = [] then .error .notFound
  else if longestPath < path.length then .error .nameTooLong
  else t.walk (if Path.isAbsolute path then [] else t.working) (splitOn Path.slash path)

end FileTree

end Scriptlet
