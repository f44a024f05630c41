import Scriptlet.Proofs.Grammar.Completeness

/-! # Moving tokens

The same text can stand on other lines, as part of a longer source. A relocation may change the line
and the place of a token, but not what it says. It carries over to trees: what can be derived from
tokens can be derived from the moved tokens, with the moved tree.
-/
namespace Scriptlet

/-- A map of tokens that keeps what they say. -/
structure Relocation where
  move : Token → Token
  kind : ∀ t, (move t).kind = t.kind
  lexeme : ∀ t, (move t).lexeme = t.lexeme

attribute [simp] Relocation.kind Relocation.lexeme

namespace Relocation

/-- All tokens stay where they are. -/
def identity : Relocation := ⟨id,fun _ => rfl,fun _ => rfl⟩

/-- Some tokens are moved down by a number of lines. -/
def down (tokens : List Token) (lines : Nat) : Relocation where
  move t := if t ∈ tokens then { t with line := t.line + lines } else t
  kind t := by split <;> rfl
  lexeme t := by split <;> rfl

@[simp] theorem index_down (tokens : List Token) (lines : Nat) (t : Token) :
    ((down tokens lines).move t).index = t.index := by
  simp only [down]
  split <;> rfl

theorem line_down (tokens : List Token) (lines : Nat) (t : Token) :
    ((down tokens lines).move t).line = if t ∈ tokens then t.line + lines else t.line := by
  simp only [down]
  split <;> rfl

/-- All tokens take later places. -/
def shift (places : Nat) : Relocation :=
  ⟨fun t => { t with index := t.index + places },fun _ => rfl,fun _ => rfl⟩

theorem map_down (tokens : List Token) (lines : Nat) :
    tokens.map (down tokens lines).move = tokens.map fun t => { t with line := t.line + lines } :=
  List.map_congr_left fun _ ht => if_pos ht

end Relocation

/-! ## Trees -/

mutual

def Expr.relocate (ρ : Relocation) : Expr → Expr
  | .literal value => .literal value
  | .variable_ name => .variable_ (ρ.move name)
  | .self keyword => .self (ρ.move keyword)
  | .superMethod keyword method => .superMethod (ρ.move keyword) (ρ.move method)
  | .grouping inner => .grouping (inner.relocate ρ)
  | .unary op token operand => .unary op (ρ.move token) (operand.relocate ρ)
  | .binary op token left right => .binary op (ρ.move token) (left.relocate ρ) (right.relocate ρ)
  | .logical op left right => .logical op (left.relocate ρ) (right.relocate ρ)
  | .assign name value => .assign (ρ.move name) (value.relocate ρ)
  | .get object name => .get (object.relocate ρ) (ρ.move name)
  | .set object name value => .set (object.relocate ρ) (ρ.move name) (value.relocate ρ)
  | .call callee paren arguments =>
    .call (callee.relocate ρ) (ρ.move paren) (Expr.relocateAll ρ arguments)

def Expr.relocateAll (ρ : Relocation) : List Expr → List Expr
  | [] => []
  | e :: rest => e.relocate ρ :: Expr.relocateAll ρ rest

end

mutual

def Stmt.relocate (ρ : Relocation) : Stmt → Stmt
  | .expression value => .expression (value.relocate ρ)
  | .print value => .print (value.relocate ρ)
  | .varDecl name initial => .varDecl (ρ.move name) (initial.map (Expr.relocate ρ))
  | .block body => .block (Stmt.relocateAll ρ body)
  | .ifElse condition thenBranch none => .ifElse (condition.relocate ρ) (thenBranch.relocate ρ) none
  | .ifElse condition thenBranch (some elseBranch) =>
    .ifElse (condition.relocate ρ) (thenBranch.relocate ρ) (some (elseBranch.relocate ρ))
  | .while_ condition body => .while_ (condition.relocate ρ) (body.relocate ρ)
  | .return_ keyword value => .return_ (ρ.move keyword) (value.map (Expr.relocate ρ))
  | .funDecl decl => .funDecl (decl.relocate ρ)
  | .classDecl name superclass methods =>
    .classDecl (ρ.move name) (superclass.map ρ.move) (FunctionDecl.relocateAll ρ methods)

def Stmt.relocateAll (ρ : Relocation) : List Stmt → List Stmt
  | [] => []
  | s :: rest => s.relocate ρ :: Stmt.relocateAll ρ rest

def FunctionDecl.relocate (ρ : Relocation) : FunctionDecl → FunctionDecl
  | ⟨name,params,body⟩ => ⟨ρ.move name,params.map ρ.move,Stmt.relocateAll ρ body⟩

def FunctionDecl.relocateAll (ρ : Relocation) : List FunctionDecl → List FunctionDecl
  | [] => []
  | decl :: rest => decl.relocate ρ :: FunctionDecl.relocateAll ρ rest

end

section

variable (ρ : Relocation)

theorem Expr.length_relocateAll (es : List Expr) : (Expr.relocateAll ρ es).length = es.length := by
  induction es with
  | nil => rfl
  | cons e rest ih => simp [Expr.relocateAll,ih]

theorem FunctionDecl.relocateAll_eq_map (decls : List FunctionDecl) :
    FunctionDecl.relocateAll ρ decls = decls.map (FunctionDecl.relocate ρ) := by
  induction decls with
  | nil => rfl
  | cons decl rest ih => simp [FunctionDecl.relocateAll,ih]

@[simp] theorem FunctionDecl.relocate_name (decl : FunctionDecl) :
    (decl.relocate ρ).name = ρ.move decl.name := by
  cases decl
  rfl

@[simp] theorem FunctionDecl.relocate_params (decl : FunctionDecl) :
    (decl.relocate ρ).params = decl.params.map ρ.move := by
  cases decl
  rfl

end

/-! ## Derivations -/

namespace Grammar

/-- The moved tree of a phrase. -/
def Phrase.relocate (ρ : Relocation) : (phrase : Phrase) → phrase.Tree → phrase.Tree
  | .declarations, ss => Stmt.relocateAll ρ ss
  | .declaration, s | .variableDeclaration, s => s.relocate ρ
  | .expressionStatement, s | .statement _, s => s.relocate ρ
  | .function, decl => decl.relocate ρ
  | .functions, decls => FunctionDecl.relocateAll ρ decls
  | .parameters, params | .parameterList, params => params.map ρ.move
  | .loopStart, start => start.map (Stmt.relocate ρ)
  | .optionalExpression, value => value.map (Expr.relocate ρ)
  | .expression, e | .operation _, e | .call, e | .primary, e => e.relocate ρ
  | .arguments, es | .argumentList, es => Expr.relocateAll ρ es

variable (ρ : Relocation)

theorem relocate_counting (start : Option Stmt) (condition step : Option Expr) (body : Stmt) :
    (Stmt.counting start condition step body).relocate ρ =
      Stmt.counting (start.map (Stmt.relocate ρ)) (condition.map (Expr.relocate ρ))
        (step.map (Expr.relocate ρ)) (body.relocate ρ) := by
  cases start <;> cases condition <;> cases step <;> rfl

/-- A moved operator makes the moved node. -/
theorem exists_node? {tier : Tier} {t : Token} {node : Expr → Expr → Expr}
    (h : tier.node? t = some node) : ∃ node', tier.node? (ρ.move t) = some node' ∧
      ∀ l r, node' (l.relocate ρ) (r.relocate ρ) = (node l r).relocate ρ := by
  cases tier with
  | disjunction | conjunction =>
    simp only [Tier.node?,Option.ite_none_right_eq_some,Option.some.injEq] at h
    obtain ⟨hkind,rfl⟩ := h
    exact ⟨_,by simp [Tier.node?,hkind],fun _ _ => rfl⟩
  | unary => simp [Tier.node?] at h
  | _ =>
    simp only [Tier.node?] at h
    split at h <;> cases h
    all_goals
      rename_i hkind
      exact ⟨_,by simp only [Tier.node?,ρ.kind,hkind],fun _ _ => rfl⟩

/-- The moved tokens of a phrase form the phrase again, and stand for the moved tree. -/
theorem Derives.relocate {phrase : Phrase} {ts : List Token} {tree : phrase.Tree}
    (h : Derives phrase ts tree) : Derives phrase (ts.map ρ.move) (phrase.relocate ρ tree) := by
  have moved {t : Token} {kind : Kind} (ht : t.kind = kind) : (ρ.move t).kind = kind :=
    (ρ.kind t).trans ht
  induction h with
  | noDeclarations => exact .noDeclarations
  | noFunctions => exact .noFunctions
  | noParameters => exact .noParameters
  | noArguments => exact .noArguments
  | noExpression => exact .noExpression
  | moreDeclarations _ _ ih ihrest =>
    simp only [List.map_append]
    exact .moreDeclarations ih ihrest
  | moreFunctions _ _ ih ihrest =>
    simp only [List.map_append]
    exact .moreFunctions ih ihrest
  | plainClass hk hn ho _ hc ih =>
    simp only [List.map_append]
    exact .plainClass (moved hk) (moved hn) (moved ho) ih (moved hc)
  | derivedClass hk hn hl hp ho _ hc ih =>
    simp only [List.map_append]
    exact .derivedClass (moved hk) (moved hn) (moved hl) (moved hp) (moved ho) ih (moved hc)
  | namedFunction hk _ ih => exact .namedFunction (moved hk) ih
  | variable_ _ ih => exact .variable_ ih
  | statement _ ih => exact .statement ih
  | function hn ho _ hc hob _ hcb ihp ihb =>
    simp only [List.map_append]
    exact .function (moved hn) (moved ho) ihp (moved hc) (moved hob) ihb (moved hcb)
  | someParameters _ hlength ih => exact .someParameters ih (by simpa [Phrase.relocate] using hlength)
  | lastParameter hn => exact .lastParameter (moved hn)
  | moreParameters hn hc _ ih => exact .moreParameters (moved hn) (moved hc) ih
  | bareVariable hk hn hs => exact .bareVariable (moved hk) (moved hn) (moved hs)
  | initialVariable hk hn he _ hs ih =>
    simp only [List.map_append]
    exact .initialVariable (moved hk) (moved hn) (moved he) ih (moved hs)
  | expressionStatement _ hs ih =>
    simp only [List.map_append]
    exact .expressionStatement ih (moved hs)
  | plainStatement _ ih => exact .plainStatement ih
  | forStatement hk ho _ _ hs _ hc _ ihi ihc ihs ihb =>
    simp only [List.map_append]
    rw [← counting_eq,Phrase.relocate,relocate_counting,counting_eq]
    exact .forStatement (moved hk) (moved ho) ihi ihc (moved hs) ihs (moved hc) ihb
  | noStart hs => exact .noStart (moved hs)
  | variableStart _ ih => exact .variableStart ih
  | expressionStart _ ih => exact .expressionStart ih
  | ifStatement hk ho _ hc _ ihc iht =>
    simp only [List.map_append]
    exact .ifStatement (moved hk) (moved ho) ihc (moved hc) iht
  | ifElseStatement hk ho _ hc _ he _ ihc iht ihe =>
    simp only [List.map_append]
    exact .ifElseStatement (moved hk) (moved ho) ihc (moved hc) iht (moved he) ihe
  | printStatement hk _ hs ih =>
    simp only [List.map_append]
    exact .printStatement (moved hk) ih (moved hs)
  | returnStatement hk _ hs ih =>
    simp only [List.map_append]
    exact .returnStatement (moved hk) ih (moved hs)
  | whileStatement hk ho _ hc _ ihc ihb =>
    simp only [List.map_append]
    exact .whileStatement (moved hk) (moved ho) ihc (moved hc) ihb
  | blockStatement ho _ hc ih =>
    simp only [List.map_append]
    exact .blockStatement (moved ho) ih (moved hc)
  | someExpression _ ih => exact .someExpression ih
  | assignVariable hn he _ ih => exact .assignVariable (moved hn) (moved he) ih
  | assignProperty _ hd hn he _ iho ihv =>
    simp only [List.map_append]
    exact .assignProperty iho (moved hd) (moved hn) (moved he) ihv
  | operation _ ih => exact .operation ih
  | operand htier _ ih => exact .operand htier ih
  | join htier _ hnode _ ihl ihr =>
    simp only [List.map_append]
    obtain ⟨node,hnode,heq⟩ := exists_node? ρ hnode
    rw [Phrase.relocate,← heq]
    exact .join htier ihl hnode ihr
  | leading hop _ ih => exact .leading (by simpa [leading?] using hop) ih
  | call _ ih => exact .call ih
  | primary _ ih => exact .primary ih
  | application _ ho _ hc ihf iha =>
    simp only [List.map_append]
    exact .application ihf (moved ho) iha (moved hc)
  | property _ hd hn ih =>
    simp only [List.map_append]
    exact .property ih (moved hd) (moved hn)
  | someArguments _ hlength ih =>
    exact .someArguments ih (by simpa [Phrase.relocate,Expr.length_relocateAll] using hlength)
  | lastArgument _ ih => exact .lastArgument ih
  | moreArguments _ hc _ ih ihrest =>
    simp only [List.map_append]
    exact .moreArguments ih (moved hc) ihrest
  | literal hvalue => exact .literal (by simpa [scalar?] using hvalue)
  | name hn => exact .name (moved hn)
  | self hk => exact .self (moved hk)
  | superMethod hk hd hn => exact .superMethod (moved hk) (moved hd) (moved hn)
  | grouping ho _ hc ih =>
    simp only [List.map_append]
    exact .grouping (moved ho) ih (moved hc)

theorem IsProgram.append {ts us : List Token} {xs ys : List Stmt} (h : IsProgram ts xs)
    (h' : IsProgram us ys) : IsProgram (ts ++ us) (xs ++ ys) := by
  induction xs generalizing ts with
  | nil =>
    cases h
    exact h'
  | cons s rest ih =>
    cases h with
    | moreDeclarations hfirst hrest =>
      rw [List.append_assoc]
      exact .moreDeclarations hfirst (ih hrest)

theorem IsProgram.relocate {ts : List Token} {program : List Stmt} (h : IsProgram ts program) :
    IsProgram (ts.map ρ.move) (Stmt.relocateAll ρ program) :=
  Derives.relocate ρ h

/-- A program stays as it is if its tokens do. -/
theorem IsProgram.relocateAll_eq {ts : List Token} {program : List Stmt} (h : IsProgram ts program)
    (hfixed : ∀ t ∈ ts, ρ.move t = t) : Stmt.relocateAll ρ program = program := by
  have hmoved := h.relocate ρ
  rw [List.map_congr_left hfixed,List.map_id'] at hmoved
  have hparse := (parse_of_isProgram hmoved).symm.trans (parse_of_isProgram h)
  simpa using hparse

end Grammar

end Scriptlet
