import Scriptlet.Resolution

/-! # Static scopes

What it means for a tree to be well scoped: every name it refers to has the distance that the scopes
around it give, no variable is read in its own initializer, and no scope declares a name twice.
-/
namespace Scriptlet

namespace Scopes

/-- How far out a name is declared, and whether its initializer is finished there. -/
def find? : Scopes → Bytes → Option (Nat × Bool)
  | [], _ => none
  | innermost :: outer, name =>
    match innermost.get? name with
    | some finished => some (0,finished)
    | none => (find? outer name).map fun p => (p.1 + 1,p.2)

/-- How far out a name is declared. -/
def distance? (scopes : Scopes) (name : Bytes) : Option Nat := (scopes.find? name).map Prod.fst

/-- Declares a name in the innermost scope; the globals are not recorded. -/
def bind (scopes : Scopes) (name : Bytes) (finished : Bool) : Scopes :=
  match scopes with
  | [] => []
  | innermost :: outer => innermost.insert name finished :: outer

/-- Declares names one after the other. -/
def bindAll (scopes : Scopes) (names : List Token) : Scopes :=
  names.foldl (fun scopes name => scopes.bind name.lexeme true) scopes

/-- The scopes around the methods of a class, which bind the superclass if there is one. -/
def aroundMethods (scopes : Scopes) : Option Token → Scopes
  | none => scopes
  | some _ => .ofList [(superName,true)] :: scopes

/-- The scopes inside a class, the innermost of which binds the instance. -/
def insideClass (scopes : Scopes) (superclass : Option Token) : Scopes :=
  .ofList [(thisName,true)] :: scopes.aroundMethods superclass

/-- The innermost scope does not declare a name yet. -/
def Open (scopes : Scopes) (name : Bytes) : Prop := ∀ f, scopes.find? name ≠ some (0,f)

/-- A name can be read: if it is local, its initializer is finished. -/
def Finished (scopes : Scopes) (name : Bytes) : Prop := ∀ d, scopes.find? name ≠ some (d,false)

variable {scopes : Scopes} {name other : Bytes} {finished : Bool}

@[simp] theorem find?_nil : find? [] name = none := rfl

@[simp] theorem find?_empty_cons :
    find? (.empty :: scopes) name = (scopes.find? name).map fun p => (p.1 + 1,p.2) := rfl

theorem find?_ofList_cons :
    find? (.ofList [(name,true)] :: scopes) other =
      if other == name then some (0,true) else (scopes.find? other).map fun p => (p.1 + 1,p.2) := by
  simp only [find?,NameMap.ofList,List.foldl,NameMap.get?_insert]
  cases other == name <;> rfl

theorem find?_bind (hne : scopes ≠ []) :
    (scopes.bind name finished).find? other =
      if other == name then some (0,finished) else scopes.find? other := by
  cases scopes with
  | nil => exact absurd rfl hne
  | cons innermost outer =>
    simp only [bind,find?,NameMap.get?_insert]
    cases other == name <;> rfl

@[simp] theorem bind_eq_nil : scopes.bind name finished = [] ↔ scopes = [] := by
  cases scopes <;> simp [bind]

theorem bind_bind : (scopes.bind name finished).bind name true = scopes.bind name true := by
  cases scopes with
  | nil => rfl
  | cons innermost outer => simp [bind,NameMap.insert_insert]

/-- The distance is the place of the first scope that has the name. -/
theorem distance?_eq_findIdx? :
    scopes.distance? name = scopes.findIdx? (·.contains name) := by
  induction scopes with
  | nil => rfl
  | cons innermost outer ih =>
    rw [distance?] at ih
    rw [distance?,find?,List.findIdx?_cons,← ih]
    cases h : innermost.get? name with
    | some f => simp [NameMap.contains,h]
    | none => cases find? outer name <;> simp [NameMap.contains,h]

end Scopes

/-! ## Trees -/

/-- A name that is neither `this` nor `super`. -/
def IsPlain (name : Bytes) : Prop := name ≠ thisName ∧ name ≠ superName

/-- The name that a statement declares in the scope where it stands. -/
def Stmt.declared? : Stmt → Option Token
  | .varDecl name _ => some name
  | .funDecl decl => some decl.name
  | .classDecl name _ _ => some name
  | _ => none

/-- The scopes of the statements after one. -/
def Scopes.after (scopes : Scopes) (s : Stmt) : Scopes :=
  match s.declared? with
  | none => scopes
  | some name => scopes.bind name.lexeme true

@[simp] theorem Scopes.after_nil (s : Stmt) : Scopes.after [] s = [] := by
  unfold Scopes.after
  split <;> rfl

/-- A name that the innermost scope can declare. -/
def Scopes.CanDeclare (scopes : Scopes) (name : Token) : Prop :=
  IsPlain name.lexeme ∧ scopes.Open name.lexeme

/-- The names can be declared one after the other. -/
def Scopes.CanDeclareAll : Scopes → List Token → Prop
  | _, [] => True
  | scopes, name :: names =>
    scopes.CanDeclare name ∧ (scopes.bind name.lexeme true).CanDeclareAll names

mutual

/-- The occurrences of names in an expression that the table may know. -/
def Expr.refs : Expr → List Token
  | .literal _ => []
  | .variable_ name => [name]
  | .self keyword => [keyword]
  | .superMethod keyword _ => [keyword]
  | .grouping inner => inner.refs
  | .unary _ _ operand => operand.refs
  | .binary _ _ left right => left.refs ++ right.refs
  | .logical _ left right => left.refs ++ right.refs
  | .assign name value => value.refs ++ [name]
  | .get object _ => object.refs
  | .set object _ value => value.refs ++ object.refs
  | .call callee _ arguments => callee.refs ++ Expr.allRefs arguments

def Expr.allRefs : List Expr → List Token
  | [] => []
  | e :: rest => e.refs ++ Expr.allRefs rest

end

mutual

def Stmt.refs : Stmt → List Token
  | .expression value => value.refs
  | .print value => value.refs
  | .varDecl _ none => []
  | .varDecl _ (some value) => value.refs
  | .block body => Stmt.allRefs body
  | .ifElse condition thenBranch none => condition.refs ++ thenBranch.refs
  | .ifElse condition thenBranch (some elseBranch) =>
    condition.refs ++ (thenBranch.refs ++ elseBranch.refs)
  | .while_ condition body => condition.refs ++ body.refs
  | .return_ _ none => []
  | .return_ _ (some value) => value.refs
  | .funDecl decl => decl.refs
  | .classDecl _ superclass methods => superclass.toList ++ FunctionDecl.allRefs methods

def Stmt.allRefs : List Stmt → List Token
  | [] => []
  | s :: rest => s.refs ++ Stmt.allRefs rest

def FunctionDecl.refs : FunctionDecl → List Token
  | ⟨_,_,body⟩ => Stmt.allRefs body

def FunctionDecl.allRefs : List FunctionDecl → List Token
  | [] => []
  | decl :: rest => decl.refs ++ FunctionDecl.allRefs rest

end

mutual

/-- The words `this` and `super` stand in their own places only. -/
def Expr.Regular : Expr → Prop
  | .literal _ => True
  | .variable_ name => IsPlain name.lexeme
  | .self keyword => keyword.lexeme = thisName
  | .superMethod keyword _ => keyword.lexeme = superName
  | .grouping inner => inner.Regular
  | .unary _ _ operand => operand.Regular
  | .binary _ _ left right => left.Regular ∧ right.Regular
  | .logical _ left right => left.Regular ∧ right.Regular
  | .assign name value => value.Regular ∧ IsPlain name.lexeme
  | .get object _ => object.Regular
  | .set object _ value => value.Regular ∧ object.Regular
  | .call callee _ arguments => callee.Regular ∧ Expr.AllRegular arguments

def Expr.AllRegular : List Expr → Prop
  | [] => True
  | e :: rest => e.Regular ∧ Expr.AllRegular rest

end

mutual

/-- A statement of the grammar: no branch and no body of a loop is a declaration, and nothing is
declared under the names `this` and `super`. -/
def Stmt.Regular : Stmt → Prop
  | .expression value => value.Regular
  | .print value => value.Regular
  | .varDecl name none => IsPlain name.lexeme
  | .varDecl name (some value) => IsPlain name.lexeme ∧ value.Regular
  | .block body => Stmt.AllRegular body
  | .ifElse condition thenBranch none =>
    condition.Regular ∧ thenBranch.declared? = none ∧ thenBranch.Regular
  | .ifElse condition thenBranch (some elseBranch) =>
    condition.Regular ∧ (thenBranch.declared? = none ∧ thenBranch.Regular) ∧
      elseBranch.declared? = none ∧ elseBranch.Regular
  | .while_ condition body => condition.Regular ∧ body.declared? = none ∧ body.Regular
  | .return_ _ none => True
  | .return_ _ (some value) => value.Regular
  | .funDecl decl => decl.Regular
  | .classDecl name superclass methods =>
    IsPlain name.lexeme ∧ (∀ parent ∈ superclass, IsPlain parent.lexeme) ∧
      FunctionDecl.AllRegular methods

def Stmt.AllRegular : List Stmt → Prop
  | [] => True
  | s :: rest => s.Regular ∧ Stmt.AllRegular rest

def FunctionDecl.Regular : FunctionDecl → Prop
  | ⟨name,params,body⟩ =>
    IsPlain name.lexeme ∧ (∀ p ∈ params, IsPlain p.lexeme) ∧ Stmt.AllRegular body

def FunctionDecl.AllRegular : List FunctionDecl → Prop
  | [] => True
  | decl :: rest => decl.Regular ∧ FunctionDecl.AllRegular rest

end

theorem Stmt.Regular.declared {s : Stmt} (h : s.Regular) :
    ∀ name ∈ s.declared?, IsPlain name.lexeme := by
  intro name hname
  cases s with
  | varDecl x value =>
    obtain rfl : x = name := by simpa [Stmt.declared?] using hname
    cases value with
    | none => exact h
    | some value => exact h.1
  | funDecl decl =>
    obtain rfl : decl.name = name := by simpa [Stmt.declared?] using hname
    obtain ⟨x,params,body⟩ := decl
    exact h.1
  | classDecl x superclass methods =>
    obtain rfl : x = name := by simpa [Stmt.declared?] using hname
    exact h.1
  | _ => simp [Stmt.declared?] at hname

section

variable (table : Table)

/-- The table has the distance that the scopes give to an occurrence of a name. -/
def Scopes.Located (scopes : Scopes) (name : Token) : Prop :=
  table[name.index]? = scopes.distance? name.lexeme

def Scopes.Readable (scopes : Scopes) (name : Token) : Prop :=
  scopes.Located table name ∧ scopes.Finished name.lexeme

mutual

/-- An expression in which every name has its distance. A use of `super` stands where the instance
is bound one scope inside of the superclass. -/
def Expr.Scoped (scopes : Scopes) : Expr → Prop
  | .literal _ => True
  | .variable_ name => IsPlain name.lexeme ∧ scopes.Readable table name
  | .self keyword => keyword.lexeme = thisName ∧ scopes.Readable table keyword
  | .superMethod keyword _ =>
    ∃ d, table[keyword.index]? = some (d + 1) ∧ scopes.find? superName = some (d + 1,true) ∧
      scopes.find? thisName = some (d,true)
  | .grouping inner => inner.Scoped scopes
  | .unary _ _ operand => operand.Scoped scopes
  | .binary _ _ left right => left.Scoped scopes ∧ right.Scoped scopes
  | .logical _ left right => left.Scoped scopes ∧ right.Scoped scopes
  | .assign name value =>
    value.Scoped scopes ∧ IsPlain name.lexeme ∧ scopes.Located table name
  | .get object _ => object.Scoped scopes
  | .set object _ value => value.Scoped scopes ∧ object.Scoped scopes
  | .call callee _ arguments => callee.Scoped scopes ∧ Expr.AllScoped scopes arguments

def Expr.AllScoped (scopes : Scopes) : List Expr → Prop
  | [] => True
  | e :: rest => e.Scoped scopes ∧ Expr.AllScoped scopes rest

end

mutual

/-- A statement in which every name has its distance. Branches and bodies of loops declare nothing
in the scope around them. -/
def Stmt.Scoped : Scopes → Stmt → Prop
  | scopes, .expression value => value.Scoped table scopes
  | scopes, .print value => value.Scoped table scopes
  | scopes, .varDecl name none => scopes.CanDeclare name
  | scopes, .varDecl name (some value) =>
    scopes.CanDeclare name ∧ value.Scoped table (scopes.bind name.lexeme false)
  | scopes, .block body => Stmt.AllScoped (.empty :: scopes) body
  | scopes, .ifElse condition thenBranch none =>
    condition.Scoped table scopes ∧ thenBranch.declared? = none ∧ thenBranch.Scoped scopes
  | scopes, .ifElse condition thenBranch (some elseBranch) =>
    condition.Scoped table scopes ∧ (thenBranch.declared? = none ∧ thenBranch.Scoped scopes) ∧
      elseBranch.declared? = none ∧ elseBranch.Scoped scopes
  | scopes, .while_ condition body =>
    condition.Scoped table scopes ∧ body.declared? = none ∧ body.Scoped scopes
  | _, .return_ _ none => True
  | scopes, .return_ _ (some value) => value.Scoped table scopes
  | scopes, .funDecl decl =>
    scopes.CanDeclare decl.name ∧ decl.Scoped (scopes.bind decl.name.lexeme true)
  | scopes, .classDecl name superclass methods =>
    scopes.CanDeclare name ∧ (∀ parent ∈ superclass, IsPlain parent.lexeme ∧
      scopes.Readable table parent) ∧
    FunctionDecl.AllScoped ((scopes.bind name.lexeme true).insideClass superclass) methods

def Stmt.AllScoped : Scopes → List Stmt → Prop
  | _, [] => True
  | scopes, s :: rest => s.Scoped scopes ∧ Stmt.AllScoped (scopes.after s) rest

/-- Parameters and the body of a function share one scope. -/
def FunctionDecl.Scoped : Scopes → FunctionDecl → Prop
  | scopes, ⟨_,params,body⟩ =>
    Scopes.CanDeclareAll (.empty :: scopes) params ∧
      Stmt.AllScoped (Scopes.bindAll (.empty :: scopes) params) body

def FunctionDecl.AllScoped : Scopes → List FunctionDecl → Prop
  | _, [] => True
  | scopes, decl :: rest => decl.Scoped scopes ∧ FunctionDecl.AllScoped scopes rest

end

end

theorem FunctionDecl.refs_eq (decl : FunctionDecl) : decl.refs = Stmt.allRefs decl.body := by
  cases decl
  rfl

theorem FunctionDecl.scoped_iff {table : Table} {scopes : Scopes} {decl : FunctionDecl} :
    decl.Scoped table scopes ↔ Scopes.CanDeclareAll (.empty :: scopes) decl.params ∧
      Stmt.AllScoped table (Scopes.bindAll (.empty :: scopes) decl.params) decl.body := by
  cases decl
  exact Iff.rfl

/-! ## Only the entries of a tree's own names matter -/

/-- Two tables have the same entries for some occurrences of names. -/
def Table.AgreeOn (refs : List Token) (table table' : Table) : Prop :=
  ∀ x ∈ refs, table'[x.index]? = table[x.index]?

section

variable {table table' : Table} {refs refs' : List Token}

theorem Table.agreeOn_append :
    Table.AgreeOn (refs ++ refs') table table' ↔
      Table.AgreeOn refs table table' ∧ Table.AgreeOn refs' table table' := by
  simp only [Table.AgreeOn,List.mem_append]
  exact ⟨fun h => ⟨fun x hx => h x (.inl hx),fun x hx => h x (.inr hx)⟩,
    fun h x hx => hx.elim (h.1 x) (h.2 x)⟩

theorem Scopes.Readable.congr {scopes : Scopes} {name : Token}
    (h : table'[name.index]? = table[name.index]?) (hname : scopes.Readable table name) :
    scopes.Readable table' name :=
  ⟨h.trans hname.1,hname.2⟩

mutual

theorem Expr.Scoped.congr (scopes : Scopes) : ∀ e : Expr, Table.AgreeOn e.refs table table' →
    e.Scoped table scopes → e.Scoped table' scopes
  | .literal _, _, _ => trivial
  | .variable_ name, h, he => ⟨he.1,he.2.congr (h name (List.mem_singleton_self name))⟩
  | .self keyword, h, he => ⟨he.1,he.2.congr (h keyword (List.mem_singleton_self keyword))⟩
  | .superMethod keyword _, h, ⟨d,hd,hfound⟩ =>
    ⟨d,(h keyword (List.mem_singleton_self keyword)).trans hd,hfound⟩
  | .grouping inner, h, he => Expr.Scoped.congr scopes inner h he
  | .unary _ _ operand, h, he => Expr.Scoped.congr scopes operand h he
  | .binary _ _ left right, h, he =>
    have ⟨hl,hr⟩ := Table.agreeOn_append.1 h
    ⟨Expr.Scoped.congr scopes left hl he.1,Expr.Scoped.congr scopes right hr he.2⟩
  | .logical _ left right, h, he =>
    have ⟨hl,hr⟩ := Table.agreeOn_append.1 h
    ⟨Expr.Scoped.congr scopes left hl he.1,Expr.Scoped.congr scopes right hr he.2⟩
  | .assign name value, h, he =>
    have ⟨hv,hn⟩ := Table.agreeOn_append.1 h
    ⟨Expr.Scoped.congr scopes value hv he.1,he.2.1,
      (hn name (List.mem_singleton_self name)).trans he.2.2⟩
  | .get object _, h, he => Expr.Scoped.congr scopes object h he
  | .set object _ value, h, he =>
    have ⟨hv,ho⟩ := Table.agreeOn_append.1 h
    ⟨Expr.Scoped.congr scopes value hv he.1,Expr.Scoped.congr scopes object ho he.2⟩
  | .call callee _ arguments, h, he =>
    have ⟨hc,ha⟩ := Table.agreeOn_append.1 h
    ⟨Expr.Scoped.congr scopes callee hc he.1,Expr.AllScoped.congr scopes arguments ha he.2⟩

theorem Expr.AllScoped.congr (scopes : Scopes) : ∀ es : List Expr,
    Table.AgreeOn (Expr.allRefs es) table table' → Expr.AllScoped table scopes es →
    Expr.AllScoped table' scopes es
  | [], _, _ => trivial
  | e :: rest, h, he =>
    have ⟨hfirst,hrest⟩ := Table.agreeOn_append.1 h
    ⟨Expr.Scoped.congr scopes e hfirst he.1,Expr.AllScoped.congr scopes rest hrest he.2⟩

end

mutual

theorem Stmt.Scoped.congr : ∀ (scopes : Scopes) (s : Stmt), Table.AgreeOn s.refs table table' →
    s.Scoped table scopes → s.Scoped table' scopes
  | scopes, .expression value, h, hs => Expr.Scoped.congr scopes value h hs
  | scopes, .print value, h, hs => Expr.Scoped.congr scopes value h hs
  | _, .varDecl _ none, _, hs => hs
  | scopes, .varDecl name (some value), h, hs =>
    ⟨hs.1,Expr.Scoped.congr (scopes.bind name.lexeme false) value h hs.2⟩
  | scopes, .block body, h, hs => Stmt.AllScoped.congr (.empty :: scopes) body h hs
  | scopes, .ifElse condition thenBranch none, h, hs =>
    have ⟨hc,ht⟩ := Table.agreeOn_append.1 h
    ⟨Expr.Scoped.congr scopes condition hc hs.1,hs.2.1,
      Stmt.Scoped.congr scopes thenBranch ht hs.2.2⟩
  | scopes, .ifElse condition thenBranch (some elseBranch), h, hs =>
    have ⟨hc,hbranches⟩ := Table.agreeOn_append.1 h
    have ⟨ht,he⟩ := Table.agreeOn_append.1 hbranches
    ⟨Expr.Scoped.congr scopes condition hc hs.1,
      ⟨hs.2.1.1,Stmt.Scoped.congr scopes thenBranch ht hs.2.1.2⟩,
      hs.2.2.1,Stmt.Scoped.congr scopes elseBranch he hs.2.2.2⟩
  | scopes, .while_ condition body, h, hs =>
    have ⟨hc,hb⟩ := Table.agreeOn_append.1 h
    ⟨Expr.Scoped.congr scopes condition hc hs.1,hs.2.1,Stmt.Scoped.congr scopes body hb hs.2.2⟩
  | _, .return_ _ none, _, _ => trivial
  | scopes, .return_ _ (some value), h, hs => Expr.Scoped.congr scopes value h hs
  | scopes, .funDecl decl, h, hs =>
    ⟨hs.1,FunctionDecl.Scoped.congr (scopes.bind decl.name.lexeme true) decl h hs.2⟩
  | scopes, .classDecl name superclass methods, h, hs =>
    have ⟨hp,hm⟩ := Table.agreeOn_append.1 h
    ⟨hs.1,fun parent hparent => ⟨(hs.2.1 parent hparent).1,
      (hs.2.1 parent hparent).2.congr (hp parent (by simpa using hparent))⟩,
      FunctionDecl.AllScoped.congr ((scopes.bind name.lexeme true).insideClass superclass)
        methods hm hs.2.2⟩

theorem Stmt.AllScoped.congr : ∀ (scopes : Scopes) (ss : List Stmt),
    Table.AgreeOn (Stmt.allRefs ss) table table' → Stmt.AllScoped table scopes ss →
    Stmt.AllScoped table' scopes ss
  | _, [], _, _ => trivial
  | scopes, s :: rest, h, hs =>
    have ⟨hfirst,hrest⟩ := Table.agreeOn_append.1 h
    ⟨Stmt.Scoped.congr scopes s hfirst hs.1,Stmt.AllScoped.congr (scopes.after s) rest hrest hs.2⟩

theorem FunctionDecl.Scoped.congr : ∀ (scopes : Scopes) (decl : FunctionDecl),
    Table.AgreeOn decl.refs table table' → decl.Scoped table scopes → decl.Scoped table' scopes
  | scopes, ⟨_,params,body⟩, h, hd =>
    ⟨hd.1,Stmt.AllScoped.congr (Scopes.bindAll (.empty :: scopes) params) body h hd.2⟩

theorem FunctionDecl.AllScoped.congr : ∀ (scopes : Scopes) (decls : List FunctionDecl),
    Table.AgreeOn (FunctionDecl.allRefs decls) table table' →
    FunctionDecl.AllScoped table scopes decls → FunctionDecl.AllScoped table' scopes decls
  | _, [], _, _ => trivial
  | scopes, decl :: rest, h, hd =>
    have ⟨hfirst,hrest⟩ := Table.agreeOn_append.1 h
    ⟨FunctionDecl.Scoped.congr scopes decl hfirst hd.1,
      FunctionDecl.AllScoped.congr scopes rest hrest hd.2⟩

end

end

end Scriptlet
