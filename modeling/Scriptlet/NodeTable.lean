import Scriptlet.LowerCase

/-! # Tables of node types

The kinds of nodes of a syntax tree, written as rows of a name and its fields, and the Go source
text that declares one structure for each row and an interface for all of them.
-/
namespace Scriptlet

/-- A row: the name of a kind of node, and the declarations of its fields. -/
structure NodeRow where
  name : Bytes
  fields : List Bytes
  deriving DecidableEq, Repr

namespace NodeTable

/-- Reads a row such as `Get: object expr, name *token`. Without a colon or a name there is no row;
what follows a second colon is dropped. -/
def row? (text : Bytes) : Option NodeRow :=
  match splitOn 0x3a text with
  | name :: fields :: _ =>
    let name := trimBlanks name
    if name = [] then none
    else some ⟨name, (splitOn 0x2c (trimBlanks fields)).map trimBlanks⟩
  | _ => none

/-- A name that starts in lower case. The first byte is taken for a code point. -/
def uncapitalized : Bytes → Bytes
  | [] => []
  | b :: rest => String.utf8EncodeChar (lowerChar (Char.ofNat b.toNat)) ++ rest

/-- The declaration of one kind of node. -/
def declaration (base : Bytes) (row : NodeRow) : Bytes :=
  let name := uncapitalized row.name ++ base
  utf8 "type " ++ name ++ utf8 " struct \x7b\n" ++
    row.fields.flatMap (fun field => utf8 "\t" ++ field ++ utf8 "\n") ++ utf8 "\x7d\n\n" ++
    utf8 "func (*" ++ name ++ utf8 ") " ++ lowered base ++ utf8 "Node() \x7b\x7d\n\n"

/-- The declarations of all rows of a table. -/
def source (base : Bytes) (rows : List NodeRow) : Bytes :=
  utf8 "// Code generated by cmd/ast; DO NOT EDIT.\n\n" ++ utf8 "package internal\n\n" ++
    utf8 "type " ++ lowered base ++ utf8 " interface \x7b\n" ++
    utf8 "\t" ++ lowered base ++ utf8 "Node()\n" ++ utf8 "\x7d\n\n" ++
    rows.flatMap (declaration base)

/-- The declarations of a table given as text, if all of its rows can be read. -/
def source? (base : Bytes) (texts : List Bytes) : Option Bytes :=
  (texts.mapM row?).map (source base)

def expressions : List Bytes :=
  ["Assign: name *token, value expr",
   "Binary: left expr, operator *token, right expr",
   "Call: callee expr, paren *token, arguments []expr",
   "Get: object expr, name *token",
   "Grouping: expression expr",
   "Literal: value interface\x7b\x7d",
   "Logical: left expr, operator *token, right expr",
   "Set: object expr, name *token, value expr",
   "Super: keyword *token, method *token",
   "This: keyword *token",
   "Unary: operator *token, right expr",
   "Variable: name *token"].map utf8

def statements : List Bytes :=
  ["Block: stmts []stmt",
   "Class: name *token, superclass *variableExpr, methods []*functionStmt",
   "Expression: expression expr",
   "Function: name *token, params []*token, body []stmt",
   "If: condition expr, thenBranch stmt, elseBranch stmt",
   "Print: expression expr",
   "Return: keyword *token, value expr",
   "Var: name *token, initializer expr",
   "While: condition expr, body stmt"].map utf8

/-- The table of the nodes of this language with a given base name. -/
def builtin (base : Bytes) : List Bytes :=
  if base = utf8 "Expr" then expressions else if base = utf8 "Stmt" then statements else []

end NodeTable

end Scriptlet
