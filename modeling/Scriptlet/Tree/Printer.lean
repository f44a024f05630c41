import Scriptlet.Tree

/-! # Writing trees

The text of a tree puts each node in parentheses behind a word or sign for its kind.
-/
namespace Scriptlet

/-- Words in parentheses, one blank between neighbours. -/
def parenthesized (words : List Bytes) : Bytes :=
  0x28 :: (joinWith [0x20] words ++ [0x29])

/-- A literal as it stands in a source: strings in quotes, without any escaping. -/
def Scalar.quoted : Scalar → Bytes
  | .str s => 0x22 :: (s ++ [0x22])
  | value => value.text

mutual

def Expr.text : Expr → Bytes
  | .literal value => value.quoted
  | .variable_ name => name.lexeme
  | .self _ => utf8 "this"
  | .superMethod _ method => parenthesized [utf8 "super", method.lexeme]
  | .grouping inner => parenthesized [utf8 "group", inner.text]
  | .unary op _ operand => parenthesized [op.symbol.text, operand.text]
  | .binary op _ left right => parenthesized [op.symbol.text, left.text, right.text]
  | .logical op left right => parenthesized [op.keyword.text, left.text, right.text]
  | .assign name value => parenthesized [utf8 "=", name.lexeme, value.text]
  | .get object name => parenthesized [utf8 ".", object.text, name.lexeme]
  | .set object name value => parenthesized [utf8 "=", object.text, name.lexeme, value.text]
  | .call callee _ arguments => parenthesized (utf8 "call" :: callee.text :: Expr.texts arguments)

def Expr.texts : List Expr → List Bytes
  | [] => []
  | e :: rest => e.text :: Expr.texts rest

end

mutual

def Stmt.text : Stmt → Bytes
  | .expression value => parenthesized [utf8 ";", value.text]
  | .print value => parenthesized [utf8 "print", value.text]
  | .varDecl name none => parenthesized [utf8 "var", name.lexeme]
  | .varDecl name (some value) => parenthesized [utf8 "var", name.lexeme, utf8 "=", value.text]
  | .block body => parenthesized (utf8 "block" :: Stmt.texts body)
  | .ifElse condition thenBranch none =>
    parenthesized [utf8 "if", condition.text, thenBranch.text]
  | .ifElse condition thenBranch (some elseBranch) =>
    parenthesized [utf8 "if-else", condition.text, thenBranch.text, elseBranch.text]
  | .while_ condition body => parenthesized [utf8 "while", condition.text, body.text]
  | .return_ _ none => parenthesized [utf8 "return"]
  | .return_ _ (some value) => parenthesized [utf8 "return", value.text]
  | .funDecl decl => decl.text
  | .classDecl name none methods =>
    parenthesized (utf8 "class" :: name.lexeme :: FunctionDecl.texts methods)
  | .classDecl name (some parent) methods =>
    parenthesized
      (utf8 "class" :: name.lexeme :: utf8 "<" :: parent.lexeme :: FunctionDecl.texts methods)

def Stmt.texts : List Stmt → List Bytes
  | [] => []
  | s :: rest => s.text :: Stmt.texts rest

/-- The parameters stand in parentheses right behind the name. -/
def FunctionDecl.text : FunctionDecl → Bytes
  | ⟨name, params, body⟩ =>
    parenthesized
      (utf8 "fun" :: (name.lexeme ++ parenthesized (params.map Token.lexeme)) :: Stmt.texts body)

def FunctionDecl.texts : List FunctionDecl → List Bytes
  | [] => []
  | f :: rest => f.text :: FunctionDecl.texts rest

end

end Scriptlet
