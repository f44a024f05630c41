import Scriptlet.Bytes

/-! # Tokens

A token is a piece of source text together with what it stands for, the line on which it ends, and
its place among all tokens scanned so far. The place is what tells two occurrences of one name
apart, so that facts about an occurrence can be kept in a table under its place.
-/
namespace Scriptlet

/-- Punctuation and operators. -/
inductive Symbol where
  | leftParen | rightParen | leftBrace | rightBrace
  | comma | dot | minus | plus | semicolon | slash | star
  | bang | bangEqual | equal | equalEqual
  | greater | greaterEqual | less | lessEqual
  deriving DecidableEq, Repr

def Symbol.text : Symbol → Bytes
  | .leftParen => utf8 "("
  | .rightParen => utf8 ")"
  | .leftBrace => utf8 "\x7b"
  | .rightBrace => utf8 "\x7d"
  | .comma => utf8 ","
  | .dot => utf8 "."
  | .minus => utf8 "-"
  | .plus => utf8 "+"
  | .semicolon => utf8 ";"
  | .slash => utf8 "/"
  | .star => utf8 "*"
  | .bang => utf8 "!"
  | .bangEqual => utf8 "!="
  | .equal => utf8 "="
  | .equalEqual => utf8 "=="
  | .greater => utf8 ">"
  | .greaterEqual => utf8 ">="
  | .less => utf8 "<"
  | .lessEqual => utf8 "<="

/-- Words that can not be names. -/
inductive Keyword where
  | and | class_ | else_ | false_ | fun_ | for_ | if_ | nil
  | or | print | return_ | super | this_ | true_ | var | while_
  deriving DecidableEq, Repr

def Keyword.text : Keyword → Bytes
  | .and => utf8 "and"
  | .class_ => utf8 "class"
  | .else_ => utf8 "else"
  | .false_ => utf8 "false"
  | .fun_ => utf8 "fun"
  | .for_ => utf8 "for"
  | .if_ => utf8 "if"
  | .nil => utf8 "nil"
  | .or => utf8 "or"
  | .print => utf8 "print"
  | .return_ => utf8 "return"
  | .super => utf8 "super"
  | .this_ => utf8 "this"
  | .true_ => utf8 "true"
  | .var => utf8 "var"
  | .while_ => utf8 "while"

def Keyword.all : List Keyword :=
  [.and, .class_, .else_, .false_, .fun_, .for_, .if_, .nil,
   .or, .print, .return_, .super, .this_, .true_, .var, .while_]

def Keyword.ofText? (text : Bytes) : Option Keyword := Keyword.all.find? (·.text == text)

/-- What a token stands for. Literals carry their value. -/
inductive Kind where
  | symbol (s : Symbol)
  | keyword (k : Keyword)
  | identifier
  | string (value : Bytes)
  | integer (value : Int64)
  | float (value : Float)
  deriving DecidableEq, Repr

structure Token where
  kind : Kind
  lexeme : Bytes
  line : Nat
  index : Nat
  deriving DecidableEq, Repr

end Scriptlet
