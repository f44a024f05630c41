import Scriptlet.Token
import Scriptlet.Scalar

/-! # The syntax tree

Expressions and statements as the parser builds them. A node keeps the tokens that later stages
need: names and the words `this` and `super`, whose places identify the occurrence, and the
operator or closing parenthesis on whose line a failure is reported.
-/
namespace Scriptlet

/-- Operators on two numbers. -/
inductive NumericOp where
  | add | subtract | multiply | divide
  | greater | greaterEqual | less | lessEqual
  deriving DecidableEq, Repr

inductive BinaryOp where
  | numeric (op : NumericOp)
  | equal
  | unequal
  deriving DecidableEq, Repr

inductive LogicalOp where
  | and
  | or
  deriving DecidableEq, Repr

inductive UnaryOp where
  | not
  | negate
  deriving DecidableEq, Repr

def NumericOp.symbol : NumericOp → Symbol
  | .add => .plus
  | .subtract => .minus
  | .multiply => .star
  | .divide => .slash
  | .greater => .greater
  | .greaterEqual => .greaterEqual
  | .less => .less
  | .lessEqual => .lessEqual

def BinaryOp.symbol : BinaryOp → Symbol
  | .numeric op => op.symbol
  | .equal => .equalEqual
  | .unequal => .bangEqual

def LogicalOp.keyword : LogicalOp → Keyword
  | .and => .and
  | .or => .or

def UnaryOp.symbol : UnaryOp → Symbol
  | .not => .bang
  | .negate => .minus

inductive Expr where
  | literal (value : Scalar)
  | variable_ (name : Token)
  | self (keyword : Token)
  | superMethod (keyword method : Token)
  | grouping (inner : Expr)
  | unary (op : UnaryOp) (token : Token) (operand : Expr)
  | binary (op : BinaryOp) (token : Token) (left right : Expr)
  | logical (op : LogicalOp) (left right : Expr)
  | assign (name : Token) (value : Expr)
  | get (object : Expr) (name : Token)
  | set (object : Expr) (name : Token) (value : Expr)
  | call (callee : Expr) (paren : Token) (arguments : List Expr)
  deriving Repr

mutual

/-- A class keeps the name of its superclass, which is read as a variable. -/
inductive Stmt where
  | expression (value : Expr)
  | print (value : Expr)
  | varDecl (name : Token) (initial : Option Expr)
  | block (body : List Stmt)
  | ifElse (condition : Expr) (thenBranch : Stmt) (elseBranch : Option Stmt)
  | while_ (condition : Expr) (body : Stmt)
  | return_ (keyword : Token) (value : Option Expr)
  | funDecl (decl : FunctionDecl)
  | classDecl (name : Token) (superclass : Option Token) (methods : List FunctionDecl)

/-- A function or a method: its name, parameters and body. -/
structure FunctionDecl where
  name : Token
  params : List Token
  body : List Stmt

end

/-- A counting loop in terms of the other statements. The loop variable lives in a block around the
loop, and the step is run after each round of the body. -/
def Stmt.counting (start : Option Stmt) (condition step : Option Expr) (body : Stmt) : Stmt :=
  let round := match step with
    | some e => .block [body, .expression e]
    | none => body
  let loop := .while_ (condition.getD (.literal (.bool true))) round
  match start with
  | some s => .block [s, loop]
  | none => loop

/-- The name under which an instance is bound in its methods. -/
def thisName : Bytes := Keyword.this_.text

/-- The name under which a superclass is bound around the methods of a class. -/
def superName : Bytes := Keyword.super.text

/-- The method that sets up new instances. -/
def initializerName : Bytes := utf8 "init"

end Scriptlet
