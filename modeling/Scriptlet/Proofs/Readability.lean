import Scriptlet.Proofs.Authentic
import Scriptlet.Proofs.Forms
import Scriptlet.Proofs.Relocation

/-! # Written trees can be told apart

Two trees of the parser have the same text exactly if they are the same but for the places of their
tokens. A text is that of one form, as shown for forms in general, and a form is that of one tree:
where trees of two kinds begin with the same sign, the number of the items tells them apart.
-/
namespace Scriptlet

/-- Tokens that say the same become the same. -/
def Relocation.unplaced : Relocation where
  move t := { t with line := 0,index := 0 }
  kind _ := rfl
  lexeme _ := rfl

open Relocation (unplaced)

/-! ## The forms of trees -/

def Scalar.form : Scalar → Form
  | .nil => .atom (.keyword .nil)
  | .bool true => .atom (.keyword .true_)
  | .bool false => .atom (.keyword .false_)
  | .int n => .atom (.integer n.toInt)
  | .float f => .atom (.float f)
  | .str s => .quoted s

def Token.form (t : Token) : Form := .atom (.name t.lexeme)

mutual

def Expr.form : Expr → Form
  | .literal value => value.form
  | .variable_ name => name.form
  | .self _ => .atom (.keyword .this_)
  | .superMethod _ method => .node (.keyword .super) [method.form]
  | .grouping inner => .node .group [inner.form]
  | .unary op _ operand => .node (.symbol op.symbol) [operand.form]
  | .binary op _ left right => .node (.symbol op.symbol) [left.form,right.form]
  | .logical op left right => .node (.keyword op.keyword) [left.form,right.form]
  | .assign name value => .node (.symbol .equal) [name.form,value.form]
  | .get object name => .node (.symbol .dot) [object.form,name.form]
  | .set object name value => .node (.symbol .equal) [object.form,name.form,value.form]
  | .call callee _ arguments => .node .call (callee.form :: Expr.forms arguments)

def Expr.forms : List Expr → List Form
  | [] => []
  | e :: rest => e.form :: Expr.forms rest

end

mutual

def Stmt.form : Stmt → Form
  | .expression value => .node (.symbol .semicolon) [value.form]
  | .print value => .node (.keyword .print) [value.form]
  | .varDecl name none => .node (.keyword .var) [name.form]
  | .varDecl name (some value) => .node (.keyword .var) [name.form,.atom (.symbol .equal),value.form]
  | .block body => .node .block (Stmt.forms body)
  | .ifElse condition thenBranch none => .node (.keyword .if_) [condition.form,thenBranch.form]
  | .ifElse condition thenBranch (some elseBranch) =>
    .node .ifElse [condition.form,thenBranch.form,elseBranch.form]
  | .while_ condition body => .node (.keyword .while_) [condition.form,body.form]
  | .return_ _ none => .node (.keyword .return_) []
  | .return_ _ (some value) => .node (.keyword .return_) [value.form]
  | .funDecl decl => decl.form
  | .classDecl name none methods =>
    .node (.keyword .class_) (name.form :: FunctionDecl.forms methods)
  | .classDecl name (some parent) methods =>
    .node (.keyword .class_)
      (name.form :: .atom (.symbol .less) :: parent.form :: FunctionDecl.forms methods)

def Stmt.forms : List Stmt → List Form
  | [] => []
  | s :: rest => s.form :: Stmt.forms rest

def FunctionDecl.form : FunctionDecl → Form
  | ⟨name,params,body⟩ =>
    .node (.keyword .fun_) (.signature name.lexeme (params.map Token.lexeme) :: Stmt.forms body)

def FunctionDecl.forms : List FunctionDecl → List Form
  | [] => []
  | decl :: rest => decl.form :: FunctionDecl.forms rest

end

/-! ## Trees have the texts of their forms -/

theorem Scalar.text_form (value : Scalar) : value.form.text = value.quoted := by
  cases value with
  | bool b => cases b <;> rfl
  | _ => rfl

mutual

theorem Expr.text_form : ∀ e : Expr, e.form.text = e.text
  | .literal value => value.text_form
  | .variable_ _ | .self _ | .superMethod _ _ => rfl
  | .grouping inner => by
    simp only [Expr.form,Expr.text,Form.text,Form.texts,inner.text_form]
    rfl
  | .unary op _ operand => by
    simp only [Expr.form,Expr.text,Form.text,Form.texts,Head.text,operand.text_form]
  | .binary op _ left right => by
    simp only [Expr.form,Expr.text,Form.text,Form.texts,Head.text,left.text_form,right.text_form]
  | .logical op left right => by
    simp only [Expr.form,Expr.text,Form.text,Form.texts,Head.text,left.text_form,right.text_form]
  | .assign name value => by
    simp only [Expr.form,Expr.text,Form.text,Form.texts,value.text_form]
    rfl
  | .get object name => by
    simp only [Expr.form,Expr.text,Form.text,Form.texts,object.text_form]
    rfl
  | .set object name value => by
    simp only [Expr.form,Expr.text,Form.text,Form.texts,object.text_form,value.text_form]
    rfl
  | .call callee _ arguments => by
    simp only [Expr.form,Expr.text,Form.text,Form.texts,callee.text_form,Expr.texts_forms arguments]
    rfl

theorem Expr.texts_forms : ∀ es : List Expr, Form.texts (Expr.forms es) = Expr.texts es
  | [] => rfl
  | e :: rest => by simp only [Expr.forms,Expr.texts,Form.texts,e.text_form,Expr.texts_forms rest]

end

mutual

theorem Stmt.text_form : ∀ s : Stmt, s.form.text = s.text
  | .expression value => by
    simp only [Stmt.form,Stmt.text,Form.text,Form.texts,value.text_form]
    rfl
  | .print value => by
    simp only [Stmt.form,Stmt.text,Form.text,Form.texts,value.text_form]
    rfl
  | .varDecl _ none => rfl
  | .varDecl name (some value) => by
    simp only [Stmt.form,Stmt.text,Form.text,Form.texts,value.text_form]
    rfl
  | .block body => by
    simp only [Stmt.form,Stmt.text,Form.text,Stmt.texts_forms body]
    rfl
  | .ifElse condition thenBranch none => by
    simp only [Stmt.form,Stmt.text,Form.text,Form.texts,condition.text_form,thenBranch.text_form]
    rfl
  | .ifElse condition thenBranch (some elseBranch) => by
    simp only [Stmt.form,Stmt.text,Form.text,Form.texts,condition.text_form,thenBranch.text_form,
      elseBranch.text_form]
    rfl
  | .while_ condition body => by
    simp only [Stmt.form,Stmt.text,Form.text,Form.texts,condition.text_form,body.text_form]
    rfl
  | .return_ _ none => rfl
  | .return_ _ (some value) => by
    simp only [Stmt.form,Stmt.text,Form.text,Form.texts,value.text_form]
    rfl
  | .funDecl decl => decl.text_form
  | .classDecl name none methods => by
    simp only [Stmt.form,Stmt.text,Form.text,Form.texts,FunctionDecl.texts_forms methods]
    rfl
  | .classDecl name (some parent) methods => by
    simp only [Stmt.form,Stmt.text,Form.text,Form.texts,FunctionDecl.texts_forms methods]
    rfl

theorem Stmt.texts_forms : ∀ ss : List Stmt, Form.texts (Stmt.forms ss) = Stmt.texts ss
  | [] => rfl
  | s :: rest => by simp only [Stmt.forms,Stmt.texts,Form.texts,s.text_form,Stmt.texts_forms rest]

theorem FunctionDecl.text_form : ∀ decl : FunctionDecl, decl.form.text = decl.text
  | ⟨name,params,body⟩ => by
    simp only [FunctionDecl.form,FunctionDecl.text,Form.text,Form.texts,Stmt.texts_forms body]
    rfl

theorem FunctionDecl.texts_forms :
    ∀ decls : List FunctionDecl, Form.texts (FunctionDecl.forms decls) = FunctionDecl.texts decls
  | [] => rfl
  | decl :: rest => by
    simp only [FunctionDecl.forms,FunctionDecl.texts,Form.texts,decl.text_form,
      FunctionDecl.texts_forms rest]

end

/-! ## The forms of authentic trees are fine -/

theorem Scalar.IsLiteral.isFine {value : Scalar} (h : value.IsLiteral) : value.form.IsFine := by
  cases value with
  | nil => trivial
  | bool b => cases b <;> trivial
  | int n =>
    obtain ⟨text,hlexeme⟩ := h
    cases hlexeme with
    | integer _ hlt =>
      change 0 ≤ (Int64.ofNat _).toInt
      rw [Int64.toInt_ofNat_of_lt hlt]
      omega
  | float f =>
    obtain ⟨text,hlexeme⟩ := h
    cases hlexeme with
    | float _ _ hfinite => exact isMagnitude_decimalFloat hfinite
  | str s =>
    obtain ⟨text,hlexeme⟩ := h
    cases hlexeme with
    | string hquote => exact hquote

theorem Token.Is.isFine {t : Token} (h : t.Is .identifier) : t.form.IsFine := h.2

theorem UnaryOp.isOperator (op : UnaryOp) : op.symbol.IsOperator := by
  cases op <;> exact ⟨by decide,by decide⟩

theorem BinaryOp.isOperator (op : BinaryOp) : op.symbol.IsOperator := by
  cases op with
  | numeric op => cases op <;> exact ⟨by decide,by decide⟩
  | _ => exact ⟨by decide,by decide⟩

theorem Symbol.isOperator_equal : Symbol.equal.IsOperator := ⟨by decide,by decide⟩

mutual

theorem Expr.Authentic.isFine : ∀ {e : Expr}, e.Authentic → e.form.IsFine
  | .literal _, h => Scalar.IsLiteral.isFine h
  | .variable_ _, h => Token.Is.isFine h
  | .self _, _ => trivial
  | .superMethod _ _, h => ⟨trivial,h.2.isFine,trivial⟩
  | .grouping _, h => ⟨trivial,Expr.Authentic.isFine h,trivial⟩
  | .unary op _ _, h => ⟨op.isOperator,Expr.Authentic.isFine h.2,trivial⟩
  | .binary op _ _ _, h =>
    ⟨op.isOperator,Expr.Authentic.isFine h.2.1,Expr.Authentic.isFine h.2.2,trivial⟩
  | .logical _ _ _, h => ⟨trivial,Expr.Authentic.isFine h.1,Expr.Authentic.isFine h.2,trivial⟩
  | .assign _ _, h => ⟨Symbol.isOperator_equal,h.1.isFine,Expr.Authentic.isFine h.2,trivial⟩
  | .get _ _, h => ⟨⟨by decide,by decide⟩,Expr.Authentic.isFine h.1,h.2.isFine,trivial⟩
  | .set _ _ _, h =>
    ⟨Symbol.isOperator_equal,Expr.Authentic.isFine h.1,h.2.1.isFine,Expr.Authentic.isFine h.2.2,trivial⟩
  | .call _ _ _, h => ⟨trivial,Expr.Authentic.isFine h.1,Expr.AllAuthentic.allFine h.2.2⟩

theorem Expr.AllAuthentic.allFine :
    ∀ {es : List Expr}, Expr.AllAuthentic es → Form.AllFine (Expr.forms es)
  | [], _ => trivial
  | _ :: _, h => ⟨Expr.Authentic.isFine h.1,Expr.AllAuthentic.allFine h.2⟩

end

mutual

theorem Stmt.Authentic.isFine : ∀ {s : Stmt}, s.Authentic → s.form.IsFine
  | .expression _, h => ⟨⟨by decide,by decide⟩,Expr.Authentic.isFine h,trivial⟩
  | .print _, h => ⟨trivial,Expr.Authentic.isFine h,trivial⟩
  | .varDecl _ none, h => ⟨trivial,Token.Is.isFine h,trivial⟩
  | .varDecl _ (some _), h =>
    ⟨trivial,h.1.isFine,Symbol.isOperator_equal,Expr.Authentic.isFine h.2,trivial⟩
  | .block _, h => ⟨trivial,Stmt.AllAuthentic.allFine h⟩
  | .ifElse _ _ none, h => ⟨trivial,Expr.Authentic.isFine h.1,Stmt.Authentic.isFine h.2,trivial⟩
  | .ifElse _ _ (some _), h =>
    ⟨trivial,Expr.Authentic.isFine h.1,Stmt.Authentic.isFine h.2.1,Stmt.Authentic.isFine h.2.2,trivial⟩
  | .while_ _ _, h => ⟨trivial,Expr.Authentic.isFine h.1,Stmt.Authentic.isFine h.2,trivial⟩
  | .return_ _ none, _ => ⟨trivial,trivial⟩
  | .return_ _ (some _), h => ⟨trivial,Expr.Authentic.isFine h.2,trivial⟩
  | .funDecl _, h => FunctionDecl.Authentic.isFine h
  | .classDecl _ none _, h => ⟨trivial,h.1.isFine,FunctionDecl.AllAuthentic.allFine h.2.2⟩
  | .classDecl _ (some parent) _, h =>
    ⟨trivial,h.1.isFine,⟨by decide,by decide⟩,(h.2.1 parent rfl).isFine,
      FunctionDecl.AllAuthentic.allFine h.2.2⟩

theorem Stmt.AllAuthentic.allFine :
    ∀ {ss : List Stmt}, Stmt.AllAuthentic ss → Form.AllFine (Stmt.forms ss)
  | [], _ => trivial
  | _ :: _, h => ⟨Stmt.Authentic.isFine h.1,Stmt.AllAuthentic.allFine h.2⟩

theorem FunctionDecl.Authentic.isFine : ∀ {decl : FunctionDecl}, decl.Authentic → decl.form.IsFine
  | ⟨_,_,_⟩, h => by
    have hparams : ∀ p ∈ List.map Token.lexeme _, Lexeme .identifier p :=
      List.forall_mem_map.2 fun p hp => (h.2.1 p hp).2
    exact ⟨trivial,⟨h.1.2,hparams⟩,Stmt.AllAuthentic.allFine h.2.2⟩

theorem FunctionDecl.AllAuthentic.allFine :
    ∀ {decls : List FunctionDecl}, FunctionDecl.AllAuthentic decls →
      Form.AllFine (FunctionDecl.forms decls)
  | [], _ => trivial
  | _ :: _, h => ⟨FunctionDecl.Authentic.isFine h.1,FunctionDecl.AllAuthentic.allFine h.2⟩

end

/-! ## Reading forms

What is left of a tree without places can be read off its form. Forms that no tree has are read as
anything. -/

def Token.ofSymbol (s : Symbol) : Token := ⟨.symbol s,s.text,0,0⟩

def Token.ofKeyword (k : Keyword) : Token := ⟨.keyword k,k.text,0,0⟩

def Token.ofName (text : Bytes) : Token := ⟨.identifier,text,0,0⟩

def Form.token : Form → Token
  | .atom (.name text) => .ofName text
  | _ => .ofName []

def Atom.expr : Atom → Expr
  | .keyword .true_ => .literal (.bool true)
  | .keyword .false_ => .literal (.bool false)
  | .keyword .this_ => .self (.ofKeyword .this_)
  | .integer n => .literal (.int (.ofInt n))
  | .float f => .literal (.float f)
  | .name text => .variable_ (.ofName text)
  | _ => .literal .nil

def Symbol.binary : Symbol → BinaryOp
  | .plus => .numeric .add
  | .minus => .numeric .subtract
  | .star => .numeric .multiply
  | .slash => .numeric .divide
  | .greater => .numeric .greater
  | .greaterEqual => .numeric .greaterEqual
  | .less => .numeric .less
  | .lessEqual => .numeric .lessEqual
  | .equalEqual => .equal
  | _ => .unequal

mutual

def Form.expr : Form → Expr
  | .atom a => a.expr
  | .quoted text => .literal (.str text)
  | .node (.keyword .super) [method] => .superMethod (.ofKeyword .super) method.token
  | .node .group [inner] => .grouping inner.expr
  | .node (.symbol .bang) [operand] => .unary .not (.ofSymbol .bang) operand.expr
  | .node (.symbol _) [operand] => .unary .negate (.ofSymbol .minus) operand.expr
  | .node (.symbol .equal) [name,value] => .assign name.token value.expr
  | .node (.symbol .dot) [object,name] => .get object.expr name.token
  | .node (.symbol s) [left,right] => .binary s.binary (.ofSymbol s) left.expr right.expr
  | .node (.keyword .and) [left,right] => .logical .and left.expr right.expr
  | .node (.keyword _) [left,right] => .logical .or left.expr right.expr
  | .node (.symbol _) [object,name,value] => .set object.expr name.token value.expr
  | .node .call (callee :: arguments) =>
    .call callee.expr (.ofSymbol .rightParen) (Form.exprs arguments)
  | _ => .literal .nil

def Form.exprs : List Form → List Expr
  | [] => []
  | f :: rest => f.expr :: Form.exprs rest

end

mutual

def Form.stmt : Form → Stmt
  | .node (.keyword .print) [value] => .print value.expr
  | .node (.symbol _) [value] => .expression value.expr
  | .node (.keyword .var) [name] => .varDecl name.token none
  | .node (.keyword .var) [name,_,value] => .varDecl name.token (some value.expr)
  | .node (.keyword .if_) [condition,thenBranch] => .ifElse condition.expr thenBranch.stmt none
  | .node .ifElse [condition,thenBranch,elseBranch] =>
    .ifElse condition.expr thenBranch.stmt (some elseBranch.stmt)
  | .node (.keyword .while_) [condition,body] => .while_ condition.expr body.stmt
  | .node (.keyword .return_) [] => .return_ (.ofKeyword .return_) none
  | .node (.keyword .return_) [value] => .return_ (.ofKeyword .return_) (some value.expr)
  | .node (.keyword .class_) (name :: .atom _ :: parent :: methods) =>
    .classDecl name.token (some parent.token) (Form.functions methods)
  | .node (.keyword .class_) (name :: methods) => .classDecl name.token none (Form.functions methods)
  | .node (.keyword _) (.signature name params :: body) =>
    .funDecl ⟨.ofName name,params.map .ofName,Form.stmts body⟩
  | .node _ body => .block (Form.stmts body)
  | _ => .block []

def Form.stmts : List Form → List Stmt
  | [] => []
  | f :: rest => f.stmt :: Form.stmts rest

def Form.function : Form → FunctionDecl
  | .node _ (.signature name params :: body) => ⟨.ofName name,params.map .ofName,Form.stmts body⟩
  | _ => ⟨.ofName [],[],[]⟩

def Form.functions : List Form → List FunctionDecl
  | [] => []
  | f :: rest => f.function :: Form.functions rest

end

section

variable {t : Token}

theorem Token.Is.unplaced_name (h : t.Is .identifier) : unplaced.move t = .ofName t.lexeme := by
  simp only [unplaced,Token.ofName,h.1]

theorem Token.Is.unplaced_symbol {s : Symbol} (h : t.Is (.symbol s)) :
    unplaced.move t = .ofSymbol s := by
  obtain ⟨kind,lexeme,line,index⟩ := t
  obtain ⟨rfl,hlexeme⟩ := h
  cases hlexeme
  rfl

theorem Token.Is.unplaced_keyword {k : Keyword} (h : t.Is (.keyword k)) :
    unplaced.move t = .ofKeyword k := by
  obtain ⟨kind,lexeme,line,index⟩ := t
  obtain ⟨rfl,hlexeme⟩ := h
  cases hlexeme
  rfl

theorem Token.Is.token_form (h : t.Is .identifier) : t.form.token = unplaced.move t :=
  h.unplaced_name.symm

theorem Scalar.expr_form (value : Scalar) : value.form.expr = .literal value := by
  cases value with
  | bool b => cases b <;> rfl
  | int n => simp only [Scalar.form,Form.expr,Atom.expr,Int64.ofInt_toInt]
  | _ => rfl

mutual

theorem Expr.Authentic.expr_form : ∀ {e : Expr}, e.Authentic → e.form.expr = e.relocate unplaced
  | .literal value, _ => value.expr_form
  | .variable_ _, h => congrArg Expr.variable_ (Token.Is.unplaced_name h).symm
  | .self _, h => congrArg Expr.self (Token.Is.unplaced_keyword h).symm
  | .superMethod _ _, h => by
    simp only [Expr.form,Form.expr,Expr.relocate,h.1.unplaced_keyword,h.2.token_form]
  | .grouping inner, h => by
    have hinner : inner.form.expr = inner.relocate unplaced := Expr.Authentic.expr_form h
    simp only [Expr.form,Form.expr,Expr.relocate,hinner]
  | .unary op _ _, h => by
    rw [Expr.relocate,← Expr.Authentic.expr_form h.2,h.1.unplaced_symbol]
    cases op <;> rfl
  | .binary op _ _ _, h => by
    rw [Expr.relocate,← Expr.Authentic.expr_form h.2.1,← Expr.Authentic.expr_form h.2.2,
      h.1.unplaced_symbol]
    cases op with
    | numeric op => cases op <;> rfl
    | _ => rfl
  | .logical op _ _, h => by
    rw [Expr.relocate,← Expr.Authentic.expr_form h.1,← Expr.Authentic.expr_form h.2]
    cases op <;> rfl
  | .assign _ _, h => by
    simp only [Expr.form,Form.expr,Expr.relocate,h.1.token_form,Expr.Authentic.expr_form h.2]
  | .get _ _, h => by
    simp only [Expr.form,Form.expr,Expr.relocate,Expr.Authentic.expr_form h.1,h.2.token_form]
  | .set _ _ _, h => by
    simp only [Expr.form,Form.expr,Expr.relocate,Expr.Authentic.expr_form h.1,h.2.1.token_form,
      Expr.Authentic.expr_form h.2.2]
  | .call _ _ _, h => by
    simp only [Expr.form,Form.expr,Expr.relocate,Expr.Authentic.expr_form h.1,
      h.2.1.unplaced_symbol,Expr.AllAuthentic.exprs_forms h.2.2]

theorem Expr.AllAuthentic.exprs_forms :
    ∀ {es : List Expr}, Expr.AllAuthentic es → Form.exprs (Expr.forms es) = Expr.relocateAll unplaced es
  | [], _ => rfl
  | _ :: _, h => by
    simp only [Expr.forms,Form.exprs,Expr.relocateAll,Expr.Authentic.expr_form h.1,
      Expr.AllAuthentic.exprs_forms h.2]

end

mutual

theorem Stmt.Authentic.stmt_form : ∀ {s : Stmt}, s.Authentic → s.form.stmt = s.relocate unplaced
  | .expression _, h => by
    simp only [Stmt.form,Form.stmt,Stmt.relocate,Expr.Authentic.expr_form h]
  | .print _, h => by
    simp only [Stmt.form,Form.stmt,Stmt.relocate,Expr.Authentic.expr_form h]
  | .varDecl _ none, h => by
    simp only [Stmt.form,Form.stmt,Stmt.relocate,Token.Is.token_form h,Option.map_none]
  | .varDecl _ (some _), h => by
    simp only [Stmt.form,Form.stmt,Stmt.relocate,h.1.token_form,Option.map_some,
      Expr.Authentic.expr_form h.2]
  | .block body, h => by
    rw [Stmt.relocate,← Stmt.AllAuthentic.stmts_forms h]
    rfl
  | .ifElse _ _ none, h => by
    simp only [Stmt.form,Form.stmt,Stmt.relocate,Expr.Authentic.expr_form h.1,
      Stmt.Authentic.stmt_form h.2]
  | .ifElse _ _ (some _), h => by
    simp only [Stmt.form,Form.stmt,Stmt.relocate,Expr.Authentic.expr_form h.1,
      Stmt.Authentic.stmt_form h.2.1,Stmt.Authentic.stmt_form h.2.2]
  | .while_ _ _, h => by
    simp only [Stmt.form,Form.stmt,Stmt.relocate,Expr.Authentic.expr_form h.1,
      Stmt.Authentic.stmt_form h.2]
  | .return_ _ none, h => by
    simp only [Stmt.form,Form.stmt,Stmt.relocate,Token.Is.unplaced_keyword h,Option.map_none]
  | .return_ _ (some _), h => by
    simp only [Stmt.form,Form.stmt,Stmt.relocate,h.1.unplaced_keyword,Option.map_some,
      Expr.Authentic.expr_form h.2]
  | .funDecl decl, h => by
    rw [Stmt.relocate,← FunctionDecl.Authentic.function_form h]
    cases decl
    rfl
  | .classDecl _ none methods, h => by
    rw [Stmt.relocate,← FunctionDecl.AllAuthentic.functions_forms h.2.2,← h.1.token_form]
    -- A method is no sign, so the first one is not taken for the one in front of a superclass.
    cases methods with
    | nil => rfl
    | cons decl rest =>
      cases decl
      cases rest <;> rfl
  | .classDecl _ (some parent) _, h => by
    rw [Stmt.relocate,← FunctionDecl.AllAuthentic.functions_forms h.2.2,← h.1.token_form,
      Option.map_some,← (h.2.1 parent rfl).token_form]
    rfl

theorem Stmt.AllAuthentic.stmts_forms :
    ∀ {ss : List Stmt}, Stmt.AllAuthentic ss → Form.stmts (Stmt.forms ss) = Stmt.relocateAll unplaced ss
  | [], _ => rfl
  | _ :: _, h => by
    simp only [Stmt.forms,Form.stmts,Stmt.relocateAll,Stmt.Authentic.stmt_form h.1,
      Stmt.AllAuthentic.stmts_forms h.2]

theorem FunctionDecl.Authentic.function_form :
    ∀ {decl : FunctionDecl}, decl.Authentic → decl.form.function = decl.relocate unplaced
  | ⟨_,params,_⟩, h => by
    have hparams : (params.map Token.lexeme).map Token.ofName = params.map unplaced.move := by
      rw [List.map_map]
      exact List.map_congr_left fun p hp => (h.2.1 p hp).unplaced_name.symm
    simp only [FunctionDecl.form,Form.function,FunctionDecl.relocate,h.1.unplaced_name,hparams,
      Stmt.AllAuthentic.stmts_forms h.2.2]

theorem FunctionDecl.AllAuthentic.functions_forms :
    ∀ {decls : List FunctionDecl}, FunctionDecl.AllAuthentic decls →
      Form.functions (FunctionDecl.forms decls) = FunctionDecl.relocateAll unplaced decls
  | [], _ => rfl
  | _ :: _, h => by
    simp only [FunctionDecl.forms,Form.functions,FunctionDecl.relocateAll,
      FunctionDecl.Authentic.function_form h.1,FunctionDecl.AllAuthentic.functions_forms h.2]

end

end

/-! ## Places are not written -/

section

variable (ρ : Relocation)

theorem Token.form_move (t : Token) : (ρ.move t).form = t.form := by
  simp only [Token.form,ρ.lexeme]

mutual

theorem Expr.form_relocate : ∀ e : Expr, (e.relocate ρ).form = e.form
  | .literal _ | .self _ => rfl
  | .variable_ name => name.form_move ρ
  | .superMethod _ method => by simp only [Expr.relocate,Expr.form,method.form_move ρ]
  | .grouping inner => by simp only [Expr.relocate,Expr.form,inner.form_relocate]
  | .unary _ _ operand => by simp only [Expr.relocate,Expr.form,operand.form_relocate]
  | .binary _ _ left right => by
    simp only [Expr.relocate,Expr.form,left.form_relocate,right.form_relocate]
  | .logical _ left right => by
    simp only [Expr.relocate,Expr.form,left.form_relocate,right.form_relocate]
  | .assign name value => by
    simp only [Expr.relocate,Expr.form,name.form_move ρ,value.form_relocate]
  | .get object name => by
    simp only [Expr.relocate,Expr.form,object.form_relocate,name.form_move ρ]
  | .set object name value => by
    simp only [Expr.relocate,Expr.form,object.form_relocate,name.form_move ρ,value.form_relocate]
  | .call callee _ arguments => by
    simp only [Expr.relocate,Expr.form,callee.form_relocate,Expr.forms_relocate arguments]

theorem Expr.forms_relocate : ∀ es : List Expr, Expr.forms (Expr.relocateAll ρ es) = Expr.forms es
  | [] => rfl
  | e :: rest => by
    simp only [Expr.relocateAll,Expr.forms,e.form_relocate,Expr.forms_relocate rest]

end

mutual

theorem Stmt.form_relocate : ∀ s : Stmt, (s.relocate ρ).form = s.form
  | .expression value => by simp only [Stmt.relocate,Stmt.form,value.form_relocate ρ]
  | .print value => by simp only [Stmt.relocate,Stmt.form,value.form_relocate ρ]
  | .varDecl name none => by simp only [Stmt.relocate,Option.map_none,Stmt.form,name.form_move ρ]
  | .varDecl name (some value) => by
    simp only [Stmt.relocate,Option.map_some,Stmt.form,name.form_move ρ,value.form_relocate ρ]
  | .block body => by simp only [Stmt.relocate,Stmt.form,Stmt.forms_relocate body]
  | .ifElse condition thenBranch none => by
    simp only [Stmt.relocate,Stmt.form,condition.form_relocate ρ,thenBranch.form_relocate]
  | .ifElse condition thenBranch (some elseBranch) => by
    simp only [Stmt.relocate,Stmt.form,condition.form_relocate ρ,thenBranch.form_relocate,
      elseBranch.form_relocate]
  | .while_ condition body => by
    simp only [Stmt.relocate,Stmt.form,condition.form_relocate ρ,body.form_relocate]
  | .return_ _ none => rfl
  | .return_ _ (some value) => by
    simp only [Stmt.relocate,Option.map_some,Stmt.form,value.form_relocate ρ]
  | .funDecl decl => decl.form_relocate
  | .classDecl name none methods => by
    simp only [Stmt.relocate,Option.map_none,Stmt.form,name.form_move ρ,
      FunctionDecl.forms_relocate methods]
  | .classDecl name (some parent) methods => by
    simp only [Stmt.relocate,Option.map_some,Stmt.form,name.form_move ρ,parent.form_move ρ,
      FunctionDecl.forms_relocate methods]

theorem Stmt.forms_relocate : ∀ ss : List Stmt, Stmt.forms (Stmt.relocateAll ρ ss) = Stmt.forms ss
  | [] => rfl
  | s :: rest => by
    simp only [Stmt.relocateAll,Stmt.forms,s.form_relocate,Stmt.forms_relocate rest]

theorem FunctionDecl.form_relocate : ∀ decl : FunctionDecl, (decl.relocate ρ).form = decl.form
  | ⟨name,params,body⟩ => by
    have hparams : (params.map ρ.move).map Token.lexeme = params.map Token.lexeme := by
      rw [List.map_map]
      exact List.map_congr_left fun p _ => ρ.lexeme p
    simp only [FunctionDecl.relocate,FunctionDecl.form,ρ.lexeme,hparams,Stmt.forms_relocate body]

theorem FunctionDecl.forms_relocate :
    ∀ decls : List FunctionDecl, FunctionDecl.forms (FunctionDecl.relocateAll ρ decls) =
      FunctionDecl.forms decls
  | [] => rfl
  | decl :: rest => by
    simp only [FunctionDecl.relocateAll,FunctionDecl.forms,decl.form_relocate,
      FunctionDecl.forms_relocate rest]

end

end

/-! ## Texts tell trees apart -/

theorem Expr.text_eq_iff {e e' : Expr} (h : e.Authentic) (h' : e'.Authentic) :
    e.text = e'.text ↔ e.relocate unplaced = e'.relocate unplaced := by
  constructor
  · intro htext
    have hforms : e.form.text ++ [] = e'.form.text ++ [] := by
      rw [List.append_nil,List.append_nil,e.text_form,e'.text_form,htext]
    have hform := (Form.text_inj h.isFine h'.isFine ends_nil ends_nil hforms).1
    rw [← h.expr_form,← h'.expr_form,hform]
  · intro hbare
    have hform := congrArg Expr.form hbare
    rw [Expr.form_relocate,Expr.form_relocate] at hform
    rw [← e.text_form,← e'.text_form,hform]

theorem Form.texts_inj {fs fs' : List Form} (hfs : Form.AllFine fs) (hfs' : Form.AllFine fs')
    (h : Form.texts fs = Form.texts fs') : fs = fs' := by
  have hspaced : spaced (Form.texts fs) ++ 0x29 :: [] = spaced (Form.texts fs') ++ 0x29 :: [] := by
    rw [h]
  exact (Form.spaced_texts_inj hfs hfs' hspaced).1

theorem Stmt.texts_eq_iff {ss ss' : List Stmt} (h : Stmt.AllAuthentic ss)
    (h' : Stmt.AllAuthentic ss') :
    Stmt.texts ss = Stmt.texts ss' ↔ Stmt.relocateAll unplaced ss = Stmt.relocateAll unplaced ss' := by
  constructor
  · intro htexts
    rw [← Stmt.texts_forms,← Stmt.texts_forms] at htexts
    have hforms := Form.texts_inj h.allFine h'.allFine htexts
    rw [← h.stmts_forms,← h'.stmts_forms,hforms]
  · intro hbare
    have hforms := congrArg Stmt.forms hbare
    rw [Stmt.forms_relocate,Stmt.forms_relocate] at hforms
    rw [← Stmt.texts_forms,← Stmt.texts_forms,hforms]

/-- An expression that is read off tokens of some source. -/
def Expr.IsRead (e : Expr) : Prop :=
  ∃ (index : Nat) (source : Bytes) (n : Nat) (c d : Cursor),
    (∀ t ∈ c.rest, t ∈ (scanFrom index source).tokens) ∧ Parse.expression n c = .ok e d

theorem Expr.IsRead.authentic {e : Expr} (h : e.IsRead) : e.Authentic := by
  obtain ⟨index,source,n,c,d,htokens,hread⟩ := h
  have hc : c.Authentic := fun t ht => lexeme_of_mem_scanFrom (htokens t ht)
  have hyields := Parse.yields_expression n c hc
  rw [hread] at hyields
  exact hyields.1

/-- The texts of the statements of two sources are the same exactly if the statements are, but for
the places of their tokens. It is likewise with any two expressions that can be read. -/
theorem texts_determine_trees :
    (∀ (index index' : Nat) (source source' : Bytes),
      Stmt.texts (load index source).statements = Stmt.texts (load index' source').statements ↔
        Stmt.relocateAll unplaced (load index source).statements =
          Stmt.relocateAll unplaced (load index' source').statements) ∧
    ∀ e e' : Expr, e.IsRead → e'.IsRead →
      (e.text = e'.text ↔ e.relocate unplaced = e'.relocate unplaced) := by
  constructor
  · intro index index' source source'
    exact Stmt.texts_eq_iff (authentic_load index source) (authentic_load index' source')
  · intro e e' he he'
    exact Expr.text_eq_iff he.authentic he'.authentic

/-- An assignment to a field, written on one line and on two. -/
theorem texts_determine_trees_field :
    ∃ e e' : Expr, e.IsRead ∧ e'.IsRead ∧ e.text = utf8 "(= p x (- 1))" ∧ e'.text = e.text ∧
      e.relocate unplaced = e'.relocate unplaced := by
  have hread : ∀ (source text : Bytes),
      (match Parse.expression 20 (⟨(scanFrom 0 source).tokens,[]⟩ : Cursor) with
        | .ok e _ => some e.text
        | .error _ _ => none) = some text → ∃ e : Expr, e.IsRead ∧ e.text = text := by
    intro source text h
    split at h
    · next e d heq => exact ⟨e,⟨0,source,20,_,d,fun _ ht => ht,heq⟩,Option.some.inj h⟩
    · cases h
  obtain ⟨e,he,htext⟩ := hread (utf8 "p.x = -1;") (utf8 "(= p x (- 1))") (by decide +kernel)
  obtain ⟨e',he',htext'⟩ := hread (utf8 "p.\nx = - 1;") (utf8 "(= p x (- 1))") (by decide +kernel)
  have hsame : e.text = e'.text := htext.trans htext'.symm
  exact ⟨e,e',he,he',htext,hsame.symm,(texts_determine_trees.2 e e' he he').1 hsame⟩

end Scriptlet
