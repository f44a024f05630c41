import Scriptlet.Tree

/-! # The grammar

Which lists of tokens are programs, and of which tree. A derivation relates a phrase, the tokens it
covers and the tree that they stand for. Operators of one tier join from the left, an assignment
joins from the right, and an `else` belongs to the nearest `if` that can take it: a statement is
`dangling` if it ends in an `if` that still could.
-/
namespace Scriptlet.Grammar

/-- How tightly operators bind, the loosest first. The last tier has one operand only. -/
inductive Tier where
  | disjunction
  | conjunction
  | equality
  | comparison
  | term
  | factor
  | unary
  deriving DecidableEq, Repr

/-- The tier of the operands of an operator between two operands. -/
def Tier.tighter : Tier → Option Tier
  | .disjunction => some .conjunction
  | .conjunction => some .equality
  | .equality => some .comparison
  | .comparison => some .term
  | .term => some .factor
  | .factor => some .unary
  | .unary => none

/-- The node that an operator of a tier makes of its two operands. -/
def Tier.node? (op : Token) : Tier → Option (Expr → Expr → Expr)
  | .disjunction => if op.kind = .keyword .or then some (.logical .or) else none
  | .conjunction => if op.kind = .keyword .and then some (.logical .and) else none
  | .equality =>
    match op.kind with
    | .symbol .equalEqual => some (.binary .equal op)
    | .symbol .bangEqual => some (.binary .unequal op)
    | _ => none
  | .comparison =>
    match op.kind with
    | .symbol .less => some (.binary (.numeric .less) op)
    | .symbol .lessEqual => some (.binary (.numeric .lessEqual) op)
    | .symbol .greater => some (.binary (.numeric .greater) op)
    | .symbol .greaterEqual => some (.binary (.numeric .greaterEqual) op)
    | _ => none
  | .term =>
    match op.kind with
    | .symbol .minus => some (.binary (.numeric .subtract) op)
    | .symbol .plus => some (.binary (.numeric .add) op)
    | _ => none
  | .factor =>
    match op.kind with
    | .symbol .slash => some (.binary (.numeric .divide) op)
    | .symbol .star => some (.binary (.numeric .multiply) op)
    | _ => none
  | .unary => none

/-- The operator that stands in front of its operand. -/
def leading? (op : Token) : Option UnaryOp :=
  match op.kind with
  | .symbol .bang => some .not
  | .symbol .minus => some .negate
  | _ => none

/-- The value of a literal of one token. -/
def scalar? (t : Token) : Option Scalar :=
  match t.kind with
  | .keyword .true_ => some (.bool true)
  | .keyword .false_ => some (.bool false)
  | .keyword .nil => some .nil
  | .integer n => some (.int n)
  | .float f => some (.float f)
  | .string s => some (.str s)
  | _ => none

/-- The parts of speech. -/
inductive Phrase where
  | declarations
  | declaration
  | function
  | functions
  | parameters
  | parameterList
  | variableDeclaration
  | expressionStatement
  | loopStart
  | statement (dangling : Bool)
  | optionalExpression
  | expression
  | operation (tier : Tier)
  | call
  | arguments
  | argumentList
  | primary
  deriving DecidableEq, Repr

/-- What a phrase stands for. -/
abbrev Phrase.Tree : Phrase → Type
  | .declarations => List Stmt
  | .declaration | .variableDeclaration | .expressionStatement | .statement _ => Stmt
  | .function => FunctionDecl
  | .functions => List FunctionDecl
  | .parameters | .parameterList => List Token
  | .loopStart => Option Stmt
  | .optionalExpression => Option Expr
  | .expression | .operation _ | .call | .primary => Expr
  | .arguments | .argumentList => List Expr

/-- `Derives phrase tokens tree`: the tokens form the phrase, and the tree is what they stand for. -/
inductive Derives : (phrase : Phrase) → List Token → phrase.Tree → Prop
  -- declaration*
  | noDeclarations : Derives .declarations [] []
  | moreDeclarations {ts us : List Token} {s : Stmt} {rest : List Stmt} :
      Derives .declaration ts s → Derives .declarations us rest →
      Derives .declarations (ts ++ us) (s :: rest)
  -- "class" IDENT ( "<" IDENT )? "{" function* "}"
  | plainClass {keyword name opening closing : Token} {ts : List Token}
      {methods : List FunctionDecl} :
      keyword.kind = .keyword .class_ → name.kind = .identifier →
      opening.kind = .symbol .leftBrace → Derives .functions ts methods →
      closing.kind = .symbol .rightBrace →
      Derives .declaration (keyword :: name :: opening :: ts ++ [closing])
        (Stmt.classDecl name none methods)
  | derivedClass {keyword name opening closing : Token} {ts : List Token}
      {less parent : Token} {methods : List FunctionDecl} :
      keyword.kind = .keyword .class_ → name.kind = .identifier →
      less.kind = .symbol .less → parent.kind = .identifier →
      opening.kind = .symbol .leftBrace → Derives .functions ts methods →
      closing.kind = .symbol .rightBrace →
      Derives .declaration (keyword :: name :: less :: parent :: opening :: ts ++ [closing])
        (Stmt.classDecl name (some parent) methods)
  -- "fun" function
  | namedFunction {keyword : Token} {ts : List Token} {decl : FunctionDecl} :
      keyword.kind = .keyword .fun_ → Derives .function ts decl →
      Derives .declaration (keyword :: ts) (Stmt.funDecl decl)
  | variable_ {ts : List Token} {s : Stmt} :
      Derives .variableDeclaration ts s → Derives .declaration ts s
  | statement {ts : List Token} {dangling : Bool} {s : Stmt} :
      Derives (.statement dangling) ts s → Derives .declaration ts s
  -- function*
  | noFunctions : Derives .functions [] []
  | moreFunctions {ts us : List Token} {decl : FunctionDecl} {rest : List FunctionDecl} :
      Derives .function ts decl → Derives .functions us rest →
      Derives .functions (ts ++ us) (decl :: rest)
  -- IDENT "(" params? ")" block
  | function {name opening closing : Token} {ts us : List Token}
      {openBrace closeBrace : Token} {params : List Token} {body : List Stmt} :
      name.kind = .identifier → opening.kind = .symbol .leftParen →
      Derives .parameterList ts params → closing.kind = .symbol .rightParen →
      openBrace.kind = .symbol .leftBrace → Derives .declarations us body →
      closeBrace.kind = .symbol .rightBrace →
      Derives .function (name :: opening :: ts ++ closing :: openBrace :: us ++ [closeBrace])
        (FunctionDecl.mk name params body)
  -- params?
  | noParameters : Derives .parameterList [] []
  | someParameters {ts : List Token} {params : List Token} :
      Derives .parameters ts params → params.length ≤ 8 → Derives .parameterList ts params
  | lastParameter {name : Token} : name.kind = .identifier → Derives .parameters [name] [name]
  | moreParameters {name comma : Token} {ts : List Token} {params : List Token} :
      name.kind = .identifier → comma.kind = .symbol .comma → Derives .parameters ts params →
      Derives .parameters (name :: comma :: ts) (name :: params)
  -- "var" IDENT ( "=" expression )? ";"
  | bareVariable {keyword name semicolon : Token} :
      keyword.kind = .keyword .var → name.kind = .identifier →
      semicolon.kind = .symbol .semicolon →
      Derives .variableDeclaration [keyword, name, semicolon] (Stmt.varDecl name none)
  | initialVariable {keyword name equal semicolon : Token} {ts : List Token} {value : Expr} :
      keyword.kind = .keyword .var → name.kind = .identifier → equal.kind = .symbol .equal →
      Derives .expression ts value → semicolon.kind = .symbol .semicolon →
      Derives .variableDeclaration (keyword :: name :: equal :: ts ++ [semicolon])
        (Stmt.varDecl name (some value))
  -- expression ";"
  | expressionStatement {semicolon : Token} {ts : List Token} {value : Expr} :
      Derives .expression ts value → semicolon.kind = .symbol .semicolon →
      Derives .expressionStatement (ts ++ [semicolon]) (Stmt.expression value)
  | plainStatement {ts : List Token} {s : Stmt} :
      Derives .expressionStatement ts s → Derives (.statement false) ts s
  -- "for" "(" ( varDecl | exprStmt | ";" ) expression? ";" expression? ")" statement
  | forStatement {keyword opening closing semicolon : Token} {ts us vs ws : List Token}
      {start : Option Stmt} {condition step : Option Expr} {dangling : Bool} {body : Stmt} :
      keyword.kind = .keyword .for_ → opening.kind = .symbol .leftParen →
      Derives .loopStart ts start → Derives .optionalExpression us condition →
      semicolon.kind = .symbol .semicolon → Derives .optionalExpression vs step →
      closing.kind = .symbol .rightParen → Derives (.statement dangling) ws body →
      Derives (.statement dangling)
        (keyword :: opening :: ts ++ us ++ semicolon :: vs ++ closing :: ws)
        (let round := step.elim body fun e => .block [body, .expression e]
        let loop := Stmt.while_ (condition.getD (.literal (.bool true))) round
        start.elim loop fun s => .block [s, loop])
  | noStart {semicolon : Token} :
      semicolon.kind = .symbol .semicolon → Derives .loopStart [semicolon] none
  | variableStart {ts : List Token} {s : Stmt} :
      Derives .variableDeclaration ts s → Derives .loopStart ts (some s)
  | expressionStart {ts : List Token} {s : Stmt} :
      Derives .expressionStatement ts s → Derives .loopStart ts (some s)
  -- "if" "(" expression ")" statement ( "else" statement )?
  | ifStatement {keyword opening closing : Token} {ts us : List Token} {condition : Expr}
      {dangling : Bool} {thenBranch : Stmt} :
      keyword.kind = .keyword .if_ → opening.kind = .symbol .leftParen →
      Derives .expression ts condition → closing.kind = .symbol .rightParen →
      Derives (.statement dangling) us thenBranch →
      Derives (.statement true) (keyword :: opening :: ts ++ closing :: us)
        (Stmt.ifElse condition thenBranch none)
  | ifElseStatement {keyword opening closing : Token} {ts us vs : List Token}
      {otherwise : Token} {condition : Expr} {dangling : Bool} {thenBranch elseBranch : Stmt} :
      keyword.kind = .keyword .if_ → opening.kind = .symbol .leftParen →
      Derives .expression ts condition → closing.kind = .symbol .rightParen →
      Derives (.statement false) us thenBranch → otherwise.kind = .keyword .else_ →
      Derives (.statement dangling) vs elseBranch →
      Derives (.statement dangling) (keyword :: opening :: ts ++ closing :: us ++ otherwise :: vs)
        (Stmt.ifElse condition thenBranch (some elseBranch))
  -- "print" expression ";"
  | printStatement {keyword semicolon : Token} {ts : List Token} {value : Expr} :
      keyword.kind = .keyword .print → Derives .expression ts value →
      semicolon.kind = .symbol .semicolon →
      Derives (.statement false) (keyword :: ts ++ [semicolon]) (Stmt.print value)
  -- "return" expression? ";"
  | returnStatement {keyword semicolon : Token} {ts : List Token} {value : Option Expr} :
      keyword.kind = .keyword .return_ → Derives .optionalExpression ts value →
      semicolon.kind = .symbol .semicolon →
      Derives (.statement false) (keyword :: ts ++ [semicolon]) (Stmt.return_ keyword value)
  -- "while" "(" expression ")" statement
  | whileStatement {keyword opening closing : Token} {ts us : List Token} {condition : Expr}
      {dangling : Bool} {body : Stmt} :
      keyword.kind = .keyword .while_ → opening.kind = .symbol .leftParen →
      Derives .expression ts condition → closing.kind = .symbol .rightParen →
      Derives (.statement dangling) us body →
      Derives (.statement dangling) (keyword :: opening :: ts ++ closing :: us)
        (Stmt.while_ condition body)
  -- "{" declaration* "}"
  | blockStatement {opening closing : Token} {ts : List Token} {body : List Stmt} :
      opening.kind = .symbol .leftBrace → Derives .declarations ts body →
      closing.kind = .symbol .rightBrace →
      Derives (.statement false) (opening :: ts ++ [closing]) (Stmt.block body)
  -- expression?
  | noExpression : Derives .optionalExpression [] none
  | someExpression {ts : List Token} {value : Expr} :
      Derives .expression ts value → Derives .optionalExpression ts (some value)
  -- ( call "." )? IDENT "=" assignment | logic_or
  | assignVariable {name equal : Token} {ts : List Token} {value : Expr} :
      name.kind = .identifier → equal.kind = .symbol .equal → Derives .expression ts value →
      Derives .expression (name :: equal :: ts) (Expr.assign name value)
  | assignProperty {name equal dot : Token} {ts us : List Token} {object value : Expr} :
      Derives .call ts object → dot.kind = .symbol .dot → name.kind = .identifier →
      equal.kind = .symbol .equal → Derives .expression us value →
      Derives .expression (ts ++ dot :: name :: equal :: us) (Expr.set object name value)
  | operation {ts : List Token} {value : Expr} :
      Derives (.operation .disjunction) ts value → Derives .expression ts value
  -- operand ( operator operand )*
  | operand {ts : List Token} {tier inner : Tier} {value : Expr} :
      tier.tighter = some inner → Derives (.operation inner) ts value →
      Derives (.operation tier) ts value
  | join {t : Token} {left right : List Token} {tier inner : Tier} {l r : Expr}
      {node : Expr → Expr → Expr} :
      tier.tighter = some inner → Derives (.operation tier) left l →
      tier.node? t = some node → Derives (.operation inner) right r →
      Derives (.operation tier) (left ++ t :: right) (node l r)
  -- ( "!" | "-" ) unary | call
  | leading {t : Token} {ts : List Token} {op : UnaryOp} {value : Expr} :
      leading? t = some op → Derives (.operation .unary) ts value →
      Derives (.operation .unary) (t :: ts) (Expr.unary op t value)
  | call {ts : List Token} {value : Expr} :
      Derives .call ts value → Derives (.operation .unary) ts value
  -- primary ( "(" args? ")" | "." IDENT )*
  | primary {ts : List Token} {value : Expr} :
      Derives .primary ts value → Derives .call ts value
  | application {opening closing : Token} {ts us : List Token} {callee : Expr}
      {arguments : List Expr} :
      Derives .call ts callee → opening.kind = .symbol .leftParen →
      Derives .argumentList us arguments → closing.kind = .symbol .rightParen →
      Derives .call (ts ++ opening :: us ++ [closing]) (Expr.call callee closing arguments)
  | property {name dot : Token} {ts : List Token} {object : Expr} :
      Derives .call ts object → dot.kind = .symbol .dot → name.kind = .identifier →
      Derives .call (ts ++ [dot, name]) (Expr.get object name)
  -- args?
  | noArguments : Derives .argumentList [] []
  | someArguments {ts : List Token} {arguments : List Expr} :
      Derives .arguments ts arguments → arguments.length ≤ 8 →
      Derives .argumentList ts arguments
  | lastArgument {ts : List Token} {value : Expr} :
      Derives .expression ts value → Derives .arguments ts [value]
  | moreArguments {comma : Token} {ts us : List Token} {value : Expr} {arguments : List Expr} :
      Derives .expression ts value → comma.kind = .symbol .comma →
      Derives .arguments us arguments →
      Derives .arguments (ts ++ comma :: us) (value :: arguments)
  -- literals, IDENT, "(" expression ")", "super" "." IDENT, "this"
  | literal {t : Token} {value : Scalar} :
      scalar? t = some value → Derives .primary [t] (Expr.literal value)
  | name {name : Token} : name.kind = .identifier → Derives .primary [name] (Expr.variable_ name)
  | self {keyword : Token} :
      keyword.kind = .keyword .this_ → Derives .primary [keyword] (Expr.self keyword)
  | superMethod {keyword name dot : Token} :
      keyword.kind = .keyword .super → dot.kind = .symbol .dot → name.kind = .identifier →
      Derives .primary [keyword, dot, name] (Expr.superMethod keyword name)
  | grouping {opening closing : Token} {ts : List Token} {inner : Expr} :
      opening.kind = .symbol .leftParen → Derives .expression ts inner →
      closing.kind = .symbol .rightParen →
      Derives .primary (opening :: ts ++ [closing]) (Expr.grouping inner)

/-- The parser builds the tree that the grammar has for a loop. -/
theorem counting_eq (start : Option Stmt) (condition step : Option Expr) (body : Stmt) :
    Stmt.counting start condition step body =
      let round := step.elim body fun e => .block [body, .expression e]
      let loop := .while_ (condition.getD (.literal (.bool true))) round
      start.elim loop fun s => .block [s, loop] := by
  cases start <;> cases step <;> rfl

/-- A program is a list of declarations. -/
def IsProgram (tokens : List Token) (program : List Stmt) : Prop :=
  Derives .declarations tokens program

end Scriptlet.Grammar
