import Scriptlet.Diagnostic
import Scriptlet.Tree

/-! # Reading trees

A recursive-descent parser. It gets at the tokens through a reader; `parse` has one that takes them
off the front of a list. A statement that can not be read is reported, skipped up to a point where a
new statement is likely to start, and left out of the result, so one pass reports the problems of
many statements. The recursion is on a budget that grows with the number of tokens; `parse` supplies
it.
-/
namespace Scriptlet

/-- A function stands on its own or in a class. -/
inductive FunctionRole where
  | function
  | method
  deriving DecidableEq, Repr

def FunctionRole.noun : FunctionRole → Bytes
  | .function => utf8 "function"
  | .method => utf8 "method"

/-- What the parser missed or refused. -/
inductive ParseError where
  | expression
  | assignmentTarget
  | tooManyParameters
  | tooManyArguments
  | className
  | superclassName
  | classBodyStart
  | classBodyEnd
  | functionName (role : FunctionRole)
  | parametersStart (role : FunctionRole)
  | parameterName
  | parametersEnd
  | functionBody (role : FunctionRole)
  | variableName
  | variableEnd
  | forStart
  | forConditionEnd
  | forEnd
  | ifStart
  | ifEnd
  | printEnd
  | returnEnd
  | whileStart
  | whileEnd
  | blockEnd
  | expressionEnd
  | propertyName
  | argumentsEnd
  | superDot
  | superMethod
  | groupingEnd
  deriving DecidableEq, Repr

def ParseError.message : ParseError → Bytes
  | .expression => utf8 "Expect expression."
  | .assignmentTarget => utf8 "Invalid assignment target."
  | .tooManyParameters => utf8 "Cannot have more than 8 parameters."
  | .tooManyArguments => utf8 "Cannot have more than 8 arguments."
  | .className => utf8 "Expect class name."
  | .superclassName => utf8 "Expect superclass name."
  | .classBodyStart => utf8 "Expect '\x7b' before class body."
  | .classBodyEnd => utf8 "Expect '\x7d' after class body."
  | .functionName role => utf8 "Expect " ++ role.noun ++ utf8 " name."
  | .parametersStart role => utf8 "Expect '(' after " ++ role.noun ++ utf8 " name."
  | .parameterName => utf8 "Expect parameter name."
  | .parametersEnd => utf8 "Expect ')' after parameters."
  | .functionBody role => utf8 "Expect '\x7b' before " ++ role.noun ++ utf8 " body."
  | .variableName => utf8 "Expect variable name."
  | .variableEnd => utf8 "Expect ';' after variable declaration."
  | .forStart => utf8 "Expect '(' after 'for'."
  | .forConditionEnd => utf8 "Expect ';' after loop condition."
  | .forEnd => utf8 "Expect ')' after for clauses."
  | .ifStart => utf8 "Expect '(' after 'if'."
  | .ifEnd => utf8 "Expect ')' after if condition."
  | .printEnd => utf8 "Expect ';' after value."
  | .returnEnd => utf8 "Expect ';' after return value."
  | .whileStart => utf8 "Expect '(' after 'while'."
  | .whileEnd => utf8 "Expect ')' after condition."
  | .blockEnd => utf8 "Expect '\x7d' after block."
  | .expressionEnd => utf8 "Expect ';' after expression."
  | .propertyName => utf8 "Expect property name after '.'."
  | .argumentsEnd => utf8 "Expect ')' after arguments."
  | .superDot => utf8 "Expect '.' after 'super'."
  | .superMethod => utf8 "Expect superclass method name."
  | .groupingEnd => utf8 "Expect ')' after expression."

/-- A problem at a token, or at the end when no token is left. -/
structure ParseFault where
  error : ParseError
  token : Option Token
  deriving DecidableEq, Repr

/-- The diagnostic of a problem in a source that ends on `endLine`. -/
def Diagnostic.ofParse (endLine : Nat) (fault : ParseFault) : Diagnostic :=
  match fault.token with
  | some token => .atToken .syntactic token fault.error.message
  | none => .atEnd .syntactic endLine fault.error.message

/-- Why reading a statement stopped: its problem is reported, or the budget is used up. -/
inductive Stop where
  | failed
  | exhausted
  deriving DecidableEq, Repr

/-- How the parser gets at the tokens: it looks at the next one, and passes it. A problem is reported
at the next token, or at one that was read before, and the reading is taken up again further on. -/
class Reader (σ : Type) where
  look : σ → Option Token × σ
  pass : σ → σ
  report : ParseError → σ → σ
  reportAt : ParseError → Token → σ → σ
  resume : σ → σ

/-- What reads something from a reader. -/
abbrev Reading (σ : Type) := EStateM Stop σ

def Token.isSymbol (t : Token) (s : Symbol) : Bool := t.kind = .symbol s

def Token.isKeyword (t : Token) (k : Keyword) : Bool := t.kind = .keyword k

def Token.isIdentifier (t : Token) : Bool := t.kind = .identifier

/-- Whether a token opens a statement that a reader can start from after a problem. -/
def Token.opensStatement (t : Token) : Bool :=
  match t.kind with
  | .keyword k => [Keyword.class_, .fun_, .var, .for_, .if_, .while_, .print, .return_].contains k
  | _ => false

/-- The tokens still to be read, and the problems found so far, newest first. -/
structure Cursor where
  rest : List Token
  faults : List ParseFault
  deriving DecidableEq, Repr

/-- Skips at least one token, up to the end of a statement or the start of one. -/
def Parse.synchronize : List Token → List Token
  | [] => []
  | t :: rest =>
    if t.isSymbol .semicolon then rest
    else match rest with
      | [] => []
      | next :: _ => if next.opensStatement then rest else Parse.synchronize rest

/-- A list of tokens is read from its front. -/
instance Cursor.reader : Reader Cursor where
  look c := (c.rest.head?, c)
  pass c := { c with rest := c.rest.tail }
  report error c := { c with faults := ⟨error, c.rest.head?⟩ :: c.faults }
  reportAt error token c := { c with faults := ⟨error, some token⟩ :: c.faults }
  resume c := { c with rest := Parse.synchronize c.rest }

abbrev Parse := Reading Cursor

namespace Parse

variable {σ α : Type} [Reader σ]

def peek? : Reading σ (Option Token) := modifyGet Reader.look

def advance : Reading σ Unit := modify Reader.pass

/-- Takes the next token if it is wanted, and gives what it is wanted as. -/
def take? (wanted : Token → Option α) : Reading σ (Option α) := do
  match ← peek? with
  | none => return none
  | some t =>
    match wanted t with
    | none => return none
    | some a =>
      advance
      return some a

def accept (p : Token → Bool) : Reading σ (Option Token) :=
  take? fun t => if p t then some t else none

def acceptSymbol (s : Symbol) : Reading σ Bool := do return (← accept (·.isSymbol s)).isSome

def atSymbol (s : Symbol) : Reading σ Bool := do return (← peek?).any (·.isSymbol s)

/-- Reports a problem at the next token. -/
def report (error : ParseError) : Reading σ Unit := modify (Reader.report error)

def reportAt (error : ParseError) (token : Token) : Reading σ Unit :=
  modify (Reader.reportAt error token)

def fail (error : ParseError) : Reading σ α := do
  report error
  throw .failed

def expect (p : Token → Bool) (error : ParseError) : Reading σ Token := do
  match ← accept p with
  | some t => return t
  | none => fail error

def expectSymbol (s : Symbol) (error : ParseError) : Reading σ Token := expect (·.isSymbol s) error

def expectName (error : ParseError) : Reading σ Token := expect (·.isIdentifier) error

/-- What follows a wanted token, if there is one. -/
def after? (wanted : Token → Bool) (p : Reading σ α) : Reading σ (Option α) := do
  match ← accept wanted with
  | some _ => some <$> p
  | none => return none

/-- What stands in front of a closing symbol; a given value when nothing does. -/
def unlessAt (closing : Symbol) (absent : α) (p : Reading σ α) : Reading σ α := do
  if ← atSymbol closing then return absent else p

/-- Reads a statement. One that fails is skipped. -/
def recovering (p : Reading σ Stmt) : Reading σ (Option Stmt) := fun c =>
  match p c with
  | .ok s c => .ok (some s) c
  | .error .failed c => .ok none (Reader.resume c)
  | .error .exhausted c => .error .exhausted c

/-- How a token joins the operands on its two sides. -/
abbrev Joiner := Token → Option (Expr → Expr → Expr)

def multiplicative : Joiner := fun t =>
  match t.kind with
  | .symbol .slash => some (.binary (.numeric .divide) t)
  | .symbol .star => some (.binary (.numeric .multiply) t)
  | _ => none

def additive : Joiner := fun t =>
  match t.kind with
  | .symbol .plus => some (.binary (.numeric .add) t)
  | .symbol .minus => some (.binary (.numeric .subtract) t)
  | _ => none

def relational : Joiner := fun t =>
  match t.kind with
  | .symbol .greater => some (.binary (.numeric .greater) t)
  | .symbol .greaterEqual => some (.binary (.numeric .greaterEqual) t)
  | .symbol .less => some (.binary (.numeric .less) t)
  | .symbol .lessEqual => some (.binary (.numeric .lessEqual) t)
  | _ => none

def equality : Joiner := fun t =>
  match t.kind with
  | .symbol .equalEqual => some (.binary .equal t)
  | .symbol .bangEqual => some (.binary .unequal t)
  | _ => none

def conjunction : Joiner := fun t =>
  if t.isKeyword .and then some (.logical .and) else none

def disjunction : Joiner := fun t =>
  if t.isKeyword .or then some (.logical .or) else none

/-- The operators between two operands, those that bind tightest first. -/
def levels : List Joiner :=
  [multiplicative, additive, relational, equality, conjunction, disjunction]

/-- Joins further operands to the right of `left`. -/
def chain (operand : Reading σ Expr) (join : Joiner) : Nat → Expr → Reading σ Expr
  | 0, _ => throw .exhausted
  | n + 1, left => do
    match ← take? join with
    | none => return left
    | some node =>
      let right ← operand
      chain operand join n (node left right)

/-- Operands of one level, joined from the left. -/
def leftAssociative (n : Nat) (operand : Reading σ Expr) (join : Joiner) : Reading σ Expr := do
  let first ← operand
  chain operand join n first

def operators (n : Nat) (operand : Reading σ Expr) : Reading σ Expr :=
  levels.foldl (leftAssociative n) operand

/-- The most parameters a function and arguments a call may have. -/
def maxParameters : Nat := 8

/-- Reports an item of a list when `count` items in front of it already are as many as allowed. -/
def checkCount (error : ParseError) (count : Nat) : Reading σ Unit :=
  if maxParameters ≤ count then report error else return ()

/-- Makes a value assigned to `target`. Only variables and properties can be assigned to; anything
else is reported and stays as it is. -/
def assignment (target : Expr) (equal : Token) (value : Expr) : Reading σ Expr :=
  match target with
  | .variable_ name => return .assign name value
  | .get object name => return .set object name value
  | other => do
    reportAt .assignmentTarget equal
    return other

/-- An expression that is no operation and no call, and starts with `t`, the next token. -/
def atom (expression : Reading σ Expr) (t : Token) : Reading σ Expr :=
  match t.kind with
  | .keyword .false_ => do
    advance
    return .literal (.bool false)
  | .keyword .true_ => do
    advance
    return .literal (.bool true)
  | .keyword .nil => do
    advance
    return .literal .nil
  | .integer value => do
    advance
    return .literal (.int value)
  | .float value => do
    advance
    return .literal (.float value)
  | .string value => do
    advance
    return .literal (.str value)
  | .keyword .super => do
    advance
    let _ ← expectSymbol .dot .superDot
    let method ← expectName .superMethod
    return .superMethod t method
  | .keyword .this_ => do
    advance
    return .self t
  | .identifier => do
    advance
    return .variable_ t
  | .symbol .leftParen => do
    advance
    let inner ← expression
    let _ ← expectSymbol .rightParen .groupingEnd
    return .grouping inner
  | _ => fail .expression

mutual

def expression : Nat → Reading σ Expr
  | 0 => throw .exhausted
  | n + 1 => do
    let left ← operators n (unary n)
    match ← accept (·.isSymbol .equal) with
    | none => return left
    | some equal =>
      let value ← expression n
      assignment left equal value

def unary : Nat → Reading σ Expr
  | 0 => throw .exhausted
  | n + 1 => do
    match ← accept (fun t => t.isSymbol .bang || t.isSymbol .minus) with
    | some t =>
      let operand ← unary n
      return .unary (if t.isSymbol .bang then .not else .negate) t operand
    | none =>
      let base ← primary n
      suffixes n base

/-- Calls and property reads behind an expression. -/
def suffixes : Nat → Expr → Reading σ Expr
  | 0, _ => throw .exhausted
  | n + 1, base => do
    match ← accept (fun t => t.isSymbol .leftParen || t.isSymbol .dot) with
    | none => return base
    | some t =>
      if t.isSymbol .leftParen then
        let args ← unlessAt .rightParen [] (arguments n 0)
        let paren ← expectSymbol .rightParen .argumentsEnd
        suffixes n (.call base paren args)
      else
        let name ← expectName .propertyName
        suffixes n (.get base name)

/-- The arguments of a call of which `count` are read already. -/
def arguments : Nat → Nat → Reading σ (List Expr)
  | 0, _ => throw .exhausted
  | n + 1, count => do
    checkCount .tooManyArguments count
    let first ← expression n
    if ← acceptSymbol .comma then
      let rest ← arguments n (count + 1)
      return first :: rest
    else return [first]

def primary : Nat → Reading σ Expr
  | 0 => throw .exhausted
  | n + 1 => do
    match ← peek? with
    | none => fail .expression
    | some t => atom (expression n) t

end

def variableDeclaration (n : Nat) : Reading σ Stmt := do
  let name ← expectName .variableName
  let initial ← after? (·.isSymbol .equal) (expression n)
  let _ ← expectSymbol .semicolon .variableEnd
  return .varDecl name initial

def expressionStatement (n : Nat) : Reading σ Stmt := do
  let value ← expression n
  let _ ← expectSymbol .semicolon .expressionEnd
  return .expression value

/-- An expression that may be left out in front of a closing symbol. -/
def optionalExpression (n : Nat) (closing : Symbol) : Reading σ (Option Expr) :=
  unlessAt closing none (some <$> expression n)

/-- What stands in front of the first semicolon of a counting loop. -/
def forStart (n : Nat) : Reading σ (Option Stmt) := do
  if ← acceptSymbol .semicolon then return none
  else if (← accept (·.isKeyword .var)).isSome then some <$> variableDeclaration n
  else some <$> expressionStatement n

/-- A counting loop, read from behind its keyword. -/
def forStatement (n : Nat) (body : Reading σ Stmt) : Reading σ Stmt := do
  let _ ← expectSymbol .leftParen .forStart
  let start ← forStart n
  let condition ← optionalExpression n .semicolon
  let _ ← expectSymbol .semicolon .forConditionEnd
  let step ← optionalExpression n .rightParen
  let _ ← expectSymbol .rightParen .forEnd
  let body ← body
  return .counting start condition step body

/-- A choice, read from behind its keyword. An `else` goes to the nearest `if`. -/
def ifStatement (n : Nat) (branch : Reading σ Stmt) : Reading σ Stmt := do
  let _ ← expectSymbol .leftParen .ifStart
  let condition ← expression n
  let _ ← expectSymbol .rightParen .ifEnd
  let thenBranch ← branch
  let elseBranch ← after? (·.isKeyword .else_) branch
  return .ifElse condition thenBranch elseBranch

def printStatement (n : Nat) : Reading σ Stmt := do
  let value ← expression n
  let _ ← expectSymbol .semicolon .printEnd
  return .print value

def returnStatement (n : Nat) (keyword : Token) : Reading σ Stmt := do
  let value ← optionalExpression n .semicolon
  let _ ← expectSymbol .semicolon .returnEnd
  return .return_ keyword value

/-- A loop, read from behind its keyword. -/
def whileStatement (n : Nat) (body : Reading σ Stmt) : Reading σ Stmt := do
  let _ ← expectSymbol .leftParen .whileStart
  let condition ← expression n
  let _ ← expectSymbol .rightParen .whileEnd
  let body ← body
  return .while_ condition body

/-- The parameters of a function of which `count` are read already. -/
def parameters : Nat → Nat → Reading σ (List Token)
  | 0, _ => throw .exhausted
  | n + 1, count => do
    checkCount .tooManyParameters count
    let first ← expectName .parameterName
    if ← acceptSymbol .comma then
      let rest ← parameters n (count + 1)
      return first :: rest
    else return [first]

mutual

def declaration : Nat → Reading σ Stmt
  | 0 => throw .exhausted
  | n + 1 => do
    match ← accept (fun t => t.isKeyword .class_ || t.isKeyword .fun_ || t.isKeyword .var) with
    | none => statement n
    | some t =>
      if t.isKeyword .class_ then classDeclaration n
      else if t.isKeyword .fun_ then .funDecl <$> function n .function
      else variableDeclaration n

def classDeclaration : Nat → Reading σ Stmt
  | 0 => throw .exhausted
  | n + 1 => do
    let name ← expectName .className
    let superclass ← after? (·.isSymbol .less) (expectName .superclassName)
    let _ ← expectSymbol .leftBrace .classBodyStart
    let body ← methods n
    let _ ← expectSymbol .rightBrace .classBodyEnd
    return .classDecl name superclass body

def methods : Nat → Reading σ (List FunctionDecl)
  | 0 => throw .exhausted
  | n + 1 => do
    match ← peek? with
    | none => return []
    | some t =>
      if t.isSymbol .rightBrace then return []
      else
        let first ← function n .method
        let rest ← methods n
        return first :: rest

def function : Nat → FunctionRole → Reading σ FunctionDecl
  | 0, _ => throw .exhausted
  | n + 1, role => do
    let name ← expectName (.functionName role)
    let _ ← expectSymbol .leftParen (.parametersStart role)
    let params ← unlessAt .rightParen [] (parameters n 0)
    let _ ← expectSymbol .rightParen .parametersEnd
    let _ ← expectSymbol .leftBrace (.functionBody role)
    let body ← block n
    return ⟨name, params, body⟩

/-- Statements up to and with the closing brace. -/
def block : Nat → Reading σ (List Stmt)
  | 0 => throw .exhausted
  | n + 1 => do
    match ← peek? with
    | none => fail .blockEnd
    | some t =>
      if t.isSymbol .rightBrace then
        advance
        return []
      else
        let first ← recovering (declaration n)
        let rest ← block n
        return first.toList ++ rest

def statement : Nat → Reading σ Stmt
  | 0 => throw .exhausted
  | n + 1 => do
    match ← peek? with
    | none => expressionStatement n
    | some t =>
      match t.kind with
      | .keyword .for_ => do
        advance
        forStatement n (statement n)
      | .keyword .if_ => do
        advance
        ifStatement n (statement n)
      | .keyword .print => do
        advance
        printStatement n
      | .keyword .return_ => do
        advance
        returnStatement n t
      | .keyword .while_ => do
        advance
        whileStatement n (statement n)
      | .symbol .leftBrace => do
        advance
        let body ← block n
        return .block body
      | _ => expressionStatement n

end

/-- Statements up to the end of the tokens. -/
def program : Nat → Reading σ (List Stmt)
  | 0 => throw .exhausted
  | n + 1 => do
    match ← peek? with
    | none => return []
    | some _ =>
      let first ← recovering (declaration n)
      let rest ← program n
      return first.toList ++ rest

/-- A budget that reading a list of tokens never uses up: between two tokens the parser goes down
only a few levels. -/
def budget (tokens : List Token) : Nat := 8 * tokens.length + 16

end Parse

/-- The statements that could be read, and the problems of the others in the order found. -/
structure Parsed where
  statements : List Stmt
  faults : List ParseFault

def parse (tokens : List Token) : Parsed :=
  match Parse.program (Parse.budget tokens) (⟨tokens, []⟩ : Cursor) with
  | .ok statements c => ⟨statements, c.faults.reverse⟩
  | .error _ c => ⟨[], c.faults.reverse⟩

end Scriptlet
