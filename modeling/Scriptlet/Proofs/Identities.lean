import Scriptlet.Proofs.Balance
import Scriptlet.Proofs.Pieces

/-! # Nodes and the places of their tokens

A table of distances is meant for the nodes of a tree that refer to names, and it is kept under the
places of their tokens. To say that this is the same, the nodes of a tree are numbered in the order of
the tree, and their tokens lose their places for these numbers. No two nodes have one number, whatever
the tree. In a tree that was read no two nodes have one place either, and no place of a node is that of
any other token. So numbering is a way of moving tokens, one that can be undone: the resolver makes the
same entries under the numbers as under the places, and the evaluator finds the same under both.
-/
namespace Scriptlet

/-! ## Places and numbers -/

/-- The token with another place, or with a number instead of its place. -/
def Token.under (t : Token) (i : Nat) : Token := { t with index := i }

/-- Tokens at consecutive places. -/
def placed (first : Nat) (tokens : List Token) : List Token :=
  tokens.mapIdx fun i t => t.under (first + i)

section

variable (first : Nat) (tokens tokens' : List Token)

@[simp] theorem length_placed : (placed first tokens).length = tokens.length := List.length_mapIdx

theorem placed_append :
    placed first (tokens ++ tokens') =
      placed first tokens ++ placed (first + tokens.length) tokens' := by
  have hshift : (fun i (t : Token) => t.under (first + (i + tokens.length))) =
      fun i t => t.under (first + tokens.length + i) := by
    funext i t
    congr 1
    omega
  rw [placed,List.mapIdx_append,hshift]
  rfl

theorem index_placed : (placed first tokens).map Token.index = List.range' first tokens.length := by
  apply List.ext_getElem
  · simp
  · intro i hi hi'
    simp [placed,Token.under]

theorem getElem?_placed {x : Token} (h : x ∈ placed first tokens) :
    first ≤ x.index ∧ (placed first tokens)[x.index - first]? = some x := by
  obtain ⟨i,hi,rfl⟩ := List.getElem_of_mem h
  have hindex : (placed first tokens)[i].index = first + i := by simp [placed,Token.under]
  rw [hindex,Nat.add_sub_cancel_left]
  exact ⟨Nat.le_add_right _ _,List.getElem?_eq_getElem hi⟩

/-- The nodes of a tree that was read refer to tokens at different places. -/
theorem nodup_refs_placed :
    ((Stmt.allRefs (parse (placed first tokens)).statements).map Token.index).Nodup := by
  apply nodup_refs_parse
  rw [index_placed]
  exact List.nodup_range'

end

/-! ## Trees with numbered nodes -/

mutual

/-- The expression with its nodes numbered from `k` on. A token that no node refers to gets the number
0. -/
def Expr.numbered (k : Nat) : Expr → Expr
  | .literal value => .literal value
  | .variable_ name => .variable_ (name.under k)
  | .self keyword => .self (keyword.under k)
  | .superMethod keyword method => .superMethod (keyword.under k) (method.under 0)
  | .grouping inner => .grouping (inner.numbered k)
  | .unary op token operand => .unary op (token.under 0) (operand.numbered k)
  | .binary op token left right =>
    .binary op (token.under 0) (left.numbered k) (right.numbered (k + left.refs.length))
  | .logical op left right => .logical op (left.numbered k) (right.numbered (k + left.refs.length))
  | .assign name value => .assign (name.under (k + value.refs.length)) (value.numbered k)
  | .get object name => .get (object.numbered k) (name.under 0)
  | .set object name value =>
    .set (object.numbered (k + value.refs.length)) (name.under 0) (value.numbered k)
  | .call callee paren arguments =>
    .call (callee.numbered k) (paren.under 0) (Expr.allNumbered (k + callee.refs.length) arguments)

def Expr.allNumbered (k : Nat) : List Expr → List Expr
  | [] => []
  | e :: rest => e.numbered k :: Expr.allNumbered (k + e.refs.length) rest

end

mutual

/-- The statement with its nodes numbered from `k` on. -/
def Stmt.numbered (k : Nat) : Stmt → Stmt
  | .expression value => .expression (value.numbered k)
  | .print value => .print (value.numbered k)
  | .varDecl name initial => .varDecl (name.under 0) (initial.map (Expr.numbered k))
  | .block body => .block (Stmt.allNumbered k body)
  | .ifElse condition thenBranch none =>
    .ifElse (condition.numbered k) (thenBranch.numbered (k + condition.refs.length)) none
  | .ifElse condition thenBranch (some elseBranch) =>
    .ifElse (condition.numbered k) (thenBranch.numbered (k + condition.refs.length))
      (some (elseBranch.numbered (k + condition.refs.length + thenBranch.refs.length)))
  | .while_ condition body => .while_ (condition.numbered k) (body.numbered (k + condition.refs.length))
  | .return_ keyword value => .return_ (keyword.under 0) (value.map (Expr.numbered k))
  | .funDecl decl => .funDecl (decl.numbered k)
  | .classDecl name superclass methods =>
    .classDecl (name.under 0) (superclass.map (Token.under · k))
      (FunctionDecl.allNumbered (k + superclass.toList.length) methods)

def Stmt.allNumbered (k : Nat) : List Stmt → List Stmt
  | [] => []
  | s :: rest => s.numbered k :: Stmt.allNumbered (k + s.refs.length) rest

def FunctionDecl.numbered (k : Nat) : FunctionDecl → FunctionDecl
  | ⟨name,params,body⟩ => ⟨name.under 0,params.map (Token.under · 0),Stmt.allNumbered k body⟩

def FunctionDecl.allNumbered (k : Nat) : List FunctionDecl → List FunctionDecl
  | [] => []
  | decl :: rest => decl.numbered k :: FunctionDecl.allNumbered (k + decl.refs.length) rest

end

mutual

/-- The nodes of the tree have got consecutive numbers. -/
theorem Expr.refs_numbered : ∀ (e : Expr) (k : Nat), (e.numbered k).refs = placed k e.refs
  | .literal _, _ | .variable_ _, _ | .self _, _ | .superMethod _ _, _ => rfl
  | .grouping inner, k => inner.refs_numbered k
  | .unary _ _ operand, k => operand.refs_numbered k
  | .binary _ _ left right, k => by
    simp only [Expr.numbered,Expr.refs,placed_append,left.refs_numbered,right.refs_numbered]
  | .logical _ left right, k => by
    simp only [Expr.numbered,Expr.refs,placed_append,left.refs_numbered,right.refs_numbered]
  | .assign _ value, k => by
    simp only [Expr.numbered,Expr.refs,placed_append,value.refs_numbered]
    rfl
  | .get object _, k => object.refs_numbered k
  | .set object _ value, k => by
    simp only [Expr.numbered,Expr.refs,placed_append,value.refs_numbered,object.refs_numbered]
  | .call callee _ arguments, k => by
    simp only [Expr.numbered,Expr.refs,placed_append,callee.refs_numbered,
      Expr.allRefs_allNumbered arguments]

theorem Expr.allRefs_allNumbered : ∀ (es : List Expr) (k : Nat),
    Expr.allRefs (Expr.allNumbered k es) = placed k (Expr.allRefs es)
  | [], _ => rfl
  | e :: rest, k => by
    simp only [Expr.allNumbered,Expr.allRefs,placed_append,e.refs_numbered,
      Expr.allRefs_allNumbered rest]

end

mutual

theorem Stmt.refs_numbered : ∀ (s : Stmt) (k : Nat), (s.numbered k).refs = placed k s.refs
  | .expression value, k => value.refs_numbered k
  | .print value, k => value.refs_numbered k
  | .varDecl _ none, _ => rfl
  | .varDecl _ (some value), k => value.refs_numbered k
  | .block body, k => Stmt.allRefs_allNumbered body k
  | .ifElse condition thenBranch none, k => by
    simp only [Stmt.numbered,Stmt.refs,placed_append,condition.refs_numbered,thenBranch.refs_numbered]
  | .ifElse condition thenBranch (some elseBranch), k => by
    simp only [Stmt.numbered,Stmt.refs,placed_append,condition.refs_numbered,thenBranch.refs_numbered,
      elseBranch.refs_numbered]
  | .while_ condition body, k => by
    simp only [Stmt.numbered,Stmt.refs,placed_append,condition.refs_numbered,body.refs_numbered]
  | .return_ _ none, _ => rfl
  | .return_ _ (some value), k => value.refs_numbered k
  | .funDecl decl, k => decl.refs_numbered k
  | .classDecl _ superclass methods, k => by
    simp only [Stmt.numbered,Stmt.refs,placed_append,FunctionDecl.allRefs_allNumbered methods]
    cases superclass <;> rfl

theorem Stmt.allRefs_allNumbered : ∀ (ss : List Stmt) (k : Nat),
    Stmt.allRefs (Stmt.allNumbered k ss) = placed k (Stmt.allRefs ss)
  | [], _ => rfl
  | s :: rest, k => by
    simp only [Stmt.allNumbered,Stmt.allRefs,placed_append,s.refs_numbered,
      Stmt.allRefs_allNumbered rest]

theorem FunctionDecl.refs_numbered : ∀ (decl : FunctionDecl) (k : Nat),
    (decl.numbered k).refs = placed k decl.refs
  | ⟨_,_,body⟩, k => Stmt.allRefs_allNumbered body k

theorem FunctionDecl.allRefs_allNumbered : ∀ (decls : List FunctionDecl) (k : Nat),
    FunctionDecl.allRefs (FunctionDecl.allNumbered k decls) = placed k (FunctionDecl.allRefs decls)
  | [], _ => rfl
  | decl :: rest, k => by
    simp only [FunctionDecl.allNumbered,FunctionDecl.allRefs,placed_append,decl.refs_numbered,
      FunctionDecl.allRefs_allNumbered rest]

end

/-! ## Numbering by moving tokens -/

namespace Relocation

/-- Moving the tokens numbers them from `k` on. -/
def Counts (ρ : Relocation) (k : Nat) (tokens : List Token) : Prop :=
  tokens.map ρ.move = placed k tokens

/-- Moving the tokens gives them no number. -/
def Drops (ρ : Relocation) (tokens : List Token) : Prop := ∀ t ∈ tokens, ρ.move t = t.under 0

variable {ρ : Relocation} {k : Nat} {t : Token} {tokens tokens' : List Token}

theorem counts_append : ρ.Counts k (tokens ++ tokens') ↔
    ρ.Counts k tokens ∧ ρ.Counts (k + tokens.length) tokens' := by
  rw [Counts,List.map_append,placed_append]
  constructor
  · intro h
    exact List.append_inj h (by simp)
  · rintro ⟨h,h'⟩
    rw [h,h']

theorem counts_singleton : ρ.Counts k [t] ↔ ρ.move t = t.under k := by
  simp [Counts,placed]

theorem drops_append : ρ.Drops (tokens ++ tokens') ↔ ρ.Drops tokens ∧ ρ.Drops tokens' :=
  List.forall_mem_append

theorem drops_cons : ρ.Drops (t :: tokens) ↔ ρ.move t = t.under 0 ∧ ρ.Drops tokens :=
  List.forall_mem_cons

end Relocation

open Relocation

section

variable {ρ : Relocation}

mutual

/-- A relocation that numbers the nodes of a tree, and nothing else, makes the numbered tree. -/
theorem Expr.relocate_eq_numbered : ∀ (e : Expr) {k : Nat}, ρ.Counts k e.refs → ρ.Drops e.others →
    e.relocate ρ = e.numbered k
  | .literal _, _, _, _ => rfl
  | .variable_ name, _, hrefs, _ => by rw [Expr.relocate,Expr.numbered,counts_singleton.1 hrefs]
  | .self keyword, _, hrefs, _ => by rw [Expr.relocate,Expr.numbered,counts_singleton.1 hrefs]
  | .superMethod keyword method, _, hrefs, hothers => by
    rw [Expr.relocate,Expr.numbered,counts_singleton.1 hrefs,(drops_cons.1 hothers).1]
  | .grouping inner, _, hrefs, hothers => by
    rw [Expr.relocate,Expr.numbered,inner.relocate_eq_numbered hrefs hothers]
  | .unary op token operand, _, hrefs, hothers => by
    have ⟨htoken,hothers⟩ := drops_cons.1 hothers
    rw [Expr.relocate,Expr.numbered,htoken,operand.relocate_eq_numbered hrefs hothers]
  | .binary op token left right, _, hrefs, hothers => by
    have ⟨htoken,hothers⟩ := drops_cons.1 hothers
    have ⟨hleft,hright⟩ := counts_append.1 hrefs
    have ⟨hleft',hright'⟩ := drops_append.1 hothers
    rw [Expr.relocate,Expr.numbered,htoken,left.relocate_eq_numbered hleft hleft',
      right.relocate_eq_numbered hright hright']
  | .logical op left right, _, hrefs, hothers => by
    have ⟨hleft,hright⟩ := counts_append.1 hrefs
    have ⟨hleft',hright'⟩ := drops_append.1 hothers
    rw [Expr.relocate,Expr.numbered,left.relocate_eq_numbered hleft hleft',
      right.relocate_eq_numbered hright hright']
  | .assign name value, _, hrefs, hothers => by
    have ⟨hvalue,hname⟩ := counts_append.1 hrefs
    rw [Expr.relocate,Expr.numbered,counts_singleton.1 hname,value.relocate_eq_numbered hvalue hothers]
  | .get object name, _, hrefs, hothers => by
    have ⟨hname,hothers⟩ := drops_cons.1 hothers
    rw [Expr.relocate,Expr.numbered,hname,object.relocate_eq_numbered hrefs hothers]
  | .set object name value, _, hrefs, hothers => by
    have ⟨hname,hothers⟩ := drops_cons.1 hothers
    have ⟨hvalue,hobject⟩ := counts_append.1 hrefs
    have ⟨hvalue',hobject'⟩ := drops_append.1 hothers
    rw [Expr.relocate,Expr.numbered,hname,object.relocate_eq_numbered hobject hobject',
      value.relocate_eq_numbered hvalue hvalue']
  | .call callee paren arguments, _, hrefs, hothers => by
    have ⟨hparen,hothers⟩ := drops_cons.1 hothers
    have ⟨hcallee,harguments⟩ := counts_append.1 hrefs
    have ⟨hcallee',harguments'⟩ := drops_append.1 hothers
    rw [Expr.relocate,Expr.numbered,hparen,callee.relocate_eq_numbered hcallee hcallee',
      Expr.relocateAll_eq_allNumbered arguments harguments harguments']

theorem Expr.relocateAll_eq_allNumbered : ∀ (es : List Expr) {k : Nat},
    ρ.Counts k (Expr.allRefs es) → ρ.Drops (Expr.allOthers es) →
    Expr.relocateAll ρ es = Expr.allNumbered k es
  | [], _, _, _ => rfl
  | e :: rest, _, hrefs, hothers => by
    have ⟨hfirst,hrest⟩ := counts_append.1 hrefs
    have ⟨hfirst',hrest'⟩ := drops_append.1 hothers
    rw [Expr.relocateAll,Expr.allNumbered,e.relocate_eq_numbered hfirst hfirst',
      Expr.relocateAll_eq_allNumbered rest hrest hrest']

end

mutual

theorem Stmt.relocate_eq_numbered : ∀ (s : Stmt) {k : Nat}, ρ.Counts k s.refs → ρ.Drops s.others →
    s.relocate ρ = s.numbered k
  | .expression value, _, hrefs, hothers => by
    rw [Stmt.relocate,Stmt.numbered,value.relocate_eq_numbered hrefs hothers]
  | .print value, _, hrefs, hothers => by
    rw [Stmt.relocate,Stmt.numbered,value.relocate_eq_numbered hrefs hothers]
  | .varDecl name none, _, _, hothers => by
    rw [Stmt.relocate,Stmt.numbered,(drops_cons.1 hothers).1]
    rfl
  | .varDecl name (some value), _, hrefs, hothers => by
    have ⟨hname,hothers⟩ := drops_cons.1 hothers
    rw [Stmt.relocate,Stmt.numbered,hname,Option.map_some,Option.map_some,
      value.relocate_eq_numbered hrefs hothers]
  | .block body, _, hrefs, hothers => by
    rw [Stmt.relocate,Stmt.numbered,Stmt.relocateAll_eq_allNumbered body hrefs hothers]
  | .ifElse condition thenBranch none, _, hrefs, hothers => by
    have ⟨hcondition,hthen⟩ := counts_append.1 hrefs
    have ⟨hcondition',hthen'⟩ := drops_append.1 hothers
    rw [Stmt.relocate,Stmt.numbered,condition.relocate_eq_numbered hcondition hcondition',
      thenBranch.relocate_eq_numbered hthen hthen']
  | .ifElse condition thenBranch (some elseBranch), _, hrefs, hothers => by
    have ⟨hcondition,hrefs⟩ := counts_append.1 hrefs
    have ⟨hcondition',hothers⟩ := drops_append.1 hothers
    have ⟨hthen,helse⟩ := counts_append.1 hrefs
    have ⟨hthen',helse'⟩ := drops_append.1 hothers
    rw [Stmt.relocate,Stmt.numbered,condition.relocate_eq_numbered hcondition hcondition',
      thenBranch.relocate_eq_numbered hthen hthen',elseBranch.relocate_eq_numbered helse helse']
  | .while_ condition body, _, hrefs, hothers => by
    have ⟨hcondition,hbody⟩ := counts_append.1 hrefs
    have ⟨hcondition',hbody'⟩ := drops_append.1 hothers
    rw [Stmt.relocate,Stmt.numbered,condition.relocate_eq_numbered hcondition hcondition',
      body.relocate_eq_numbered hbody hbody']
  | .return_ keyword none, _, _, hothers => by
    rw [Stmt.relocate,Stmt.numbered,(drops_cons.1 hothers).1]
    rfl
  | .return_ keyword (some value), _, hrefs, hothers => by
    have ⟨hkeyword,hothers⟩ := drops_cons.1 hothers
    rw [Stmt.relocate,Stmt.numbered,hkeyword,Option.map_some,Option.map_some,
      value.relocate_eq_numbered hrefs hothers]
  | .funDecl decl, _, hrefs, hothers => by
    rw [Stmt.relocate,Stmt.numbered,decl.relocate_eq_numbered hrefs hothers]
  | .classDecl name superclass methods, k, hrefs, hothers => by
    have ⟨hname,hothers⟩ := drops_cons.1 hothers
    have ⟨hparent,hmethods⟩ := counts_append.1 hrefs
    have hsuperclass : superclass.map ρ.move = superclass.map (Token.under · k) := by
      cases superclass with
      | none => rfl
      | some parent => exact congrArg some (counts_singleton.1 hparent)
    rw [Stmt.relocate,Stmt.numbered,hname,hsuperclass,
      FunctionDecl.relocateAll_eq_allNumbered methods hmethods hothers]

theorem Stmt.relocateAll_eq_allNumbered : ∀ (ss : List Stmt) {k : Nat},
    ρ.Counts k (Stmt.allRefs ss) → ρ.Drops (Stmt.allOthers ss) →
    Stmt.relocateAll ρ ss = Stmt.allNumbered k ss
  | [], _, _, _ => rfl
  | s :: rest, _, hrefs, hothers => by
    have ⟨hfirst,hrest⟩ := counts_append.1 hrefs
    have ⟨hfirst',hrest'⟩ := drops_append.1 hothers
    rw [Stmt.relocateAll,Stmt.allNumbered,s.relocate_eq_numbered hfirst hfirst',
      Stmt.relocateAll_eq_allNumbered rest hrest hrest']

theorem FunctionDecl.relocate_eq_numbered : ∀ (decl : FunctionDecl) {k : Nat},
    ρ.Counts k decl.refs → ρ.Drops decl.others → decl.relocate ρ = decl.numbered k
  | ⟨name,params,body⟩, _, hrefs, hothers => by
    have ⟨hname,hothers⟩ := drops_cons.1 hothers
    have ⟨hparams,hbody⟩ := drops_append.1 hothers
    rw [FunctionDecl.relocate,FunctionDecl.numbered,hname,List.map_congr_left hparams,
      Stmt.relocateAll_eq_allNumbered body hrefs hbody]

theorem FunctionDecl.relocateAll_eq_allNumbered : ∀ (decls : List FunctionDecl) {k : Nat},
    ρ.Counts k (FunctionDecl.allRefs decls) → ρ.Drops (FunctionDecl.allOthers decls) →
    FunctionDecl.relocateAll ρ decls = FunctionDecl.allNumbered k decls
  | [], _, _, _ => rfl
  | decl :: rest, _, hrefs, hothers => by
    have ⟨hfirst,hrest⟩ := counts_append.1 hrefs
    have ⟨hfirst',hrest'⟩ := drops_append.1 hothers
    rw [FunctionDecl.relocateAll,FunctionDecl.allNumbered,decl.relocate_eq_numbered hfirst hfirst',
      FunctionDecl.relocateAll_eq_allNumbered rest hrest hrest']

end

end

/-- Moving the tokens numbers the nodes of a program from `k` on, and no other token. -/
structure Relocation.Numbers (ρ : Relocation) (k : Nat) (program : List Stmt) : Prop where
  nodes : ρ.Counts k (Stmt.allRefs program)
  others : ρ.Drops (Stmt.allOthers program)

/-! ## The number of a place -/

/-- Places in a list are numbered from 1 on, and all others get the number 0. -/
def number (places : List Nat) (p : Nat) : Nat := if p ∈ places then places.idxOf p + 1 else 0

section

variable {places : List Nat} {p q : Nat}

theorem number_of_mem (h : p ∈ places) : number places p = places.idxOf p + 1 := if_pos h

theorem number_of_not_mem (h : p ∉ places) : number places p = 0 := if_neg h

/-- Numbers tell the places apart that have one. -/
theorem number_eq_iff (hp : p ∈ places) : number places q = number places p ↔ q = p := by
  rw [number_of_mem hp]
  constructor
  · intro h
    by_cases hq : q ∈ places
    · rw [number_of_mem hq] at h
      exact (List.idxOf_inj hq).1 (by omega)
    · rw [number_of_not_mem hq] at h
      omega
  · rintro rfl
    exact number_of_mem hp

end

namespace Relocation

/-- Each token gets the number of its place. -/
def numbering (places : List Nat) : Relocation :=
  ⟨fun t => t.under (number places t.index),fun _ => rfl,fun _ => rfl⟩

theorem counts_numbering {before after : List Nat} {tokens : List Token}
    (h : (before ++ (tokens.map Token.index ++ after)).Nodup) :
    (numbering (before ++ (tokens.map Token.index ++ after))).Counts (before.length + 1) tokens := by
  apply List.ext_getElem
  · simp
  · intro i hi hi'
    rw [List.length_map] at hi
    have hplace : before.length + i < (before ++ (tokens.map Token.index ++ after)).length := by
      simp only [List.length_append,List.length_map]
      omega
    have hindex : (before ++ (tokens.map Token.index ++ after))[before.length + i] =
        tokens[i].index := by
      simp [List.getElem_append_left,hi]
    have hnumber : number (before ++ (tokens.map Token.index ++ after)) tokens[i].index =
        before.length + 1 + i := by
      rw [← hindex,number_of_mem (List.getElem_mem hplace),h.idxOf_getElem]
      omega
    simp only [List.getElem_map,placed,List.getElem_mapIdx,numbering,hnumber]

/-- The nodes of a tree that was read are numbered by their places. Places of other tokens, of earlier
and of later ones, do not matter. -/
theorem numbers_parse {first : Nat} {tokens : List Token} {before after : List Nat}
    (htokens : tokens.map Token.index = List.range' first tokens.length)
    (hbefore : ∀ p ∈ before, p < first) (hafter : ∀ p ∈ after, first + tokens.length ≤ p)
    (h : (before ++ ((Stmt.allRefs (parse tokens).statements).map Token.index ++ after)).Nodup) :
    (numbering (before ++ ((Stmt.allRefs (parse tokens).statements).map Token.index ++ after))).Numbers
      (before.length + 1) (parse tokens).statements := by
  refine ⟨counts_numbering h,fun t ht => congrArg t.under (number_of_not_mem ?_)⟩
  have hnodup : (tokens.map Token.index).Nodup := htokens ▸ List.nodup_range'
  have htree := nodup_index_parse hnodup
  rw [Stmt.allTokens,List.map_append,List.nodup_append] at htree
  have hrange : t.index ∈ List.range' first tokens.length :=
    htokens ▸ List.mem_map_of_mem (mem_of_mem_parse (List.mem_append_right _ ht))
  have hplace := List.mem_range'_1.1 hrange
  simp only [List.mem_append,not_or]
  refine ⟨fun hmem => ?_,fun hmem => ?_,fun hmem => ?_⟩
  · have hearly := hbefore _ hmem
    omega
  · exact htree.2.2 _ hmem _ (List.mem_map_of_mem ht) rfl
  · have hlate := hafter _ hmem
    omega

end Relocation

/-! ## Tables under numbers -/

/-- The second table has under the numbers of places what the first has under the places. -/
def Table.Renumbers (places : List Nat) (table table' : Table) : Prop :=
  ∀ p : Nat, table'[number places p]? = table[p]?

def Resolver.TableRelation.numbering (places : List Nat) : TableRelation (.numbering places) where
  holds table table' := ∀ p ∈ places, table'[number places p]? = table[p]?
  insert := by
    intro table table' h x distance p hp
    have hsame := number_eq_iff (q := x.index) hp
    by_cases heq : x.index = p
    · simp [Relocation.numbering,Token.under,heq]
    · have hmoved : ¬ _ := fun hnumber => heq (hsame.1 hnumber)
      simp [Relocation.numbering,Token.under,Std.TreeMap.getElem?_insert,heq,hmoved,h p hp]

section

variable {places : List Nat} {k : Nat} {program : List Stmt} {table table' : Table}

theorem Relocation.Numbers.relocateAll (h : (numbering places).Numbers k program) :
    Stmt.relocateAll (.numbering places) program = Stmt.allNumbered k program :=
  Stmt.relocateAll_eq_allNumbered program h.nodes h.others

/-- The nodes that are numbered have places in the list. -/
theorem Relocation.Numbers.mem (h : (numbering places).Numbers (k + 1) program) {x : Token}
    (hx : x ∈ Stmt.allRefs program) : x.index ∈ places := by
  by_contra hplace
  have hmoved : (numbering places).move x ∈ placed (k + 1) (Stmt.allRefs program) :=
    h.nodes ▸ List.mem_map_of_mem hx
  have hfirst := (getElem?_placed _ _ hmoved).1
  have hzero : ((numbering places).move x).index = 0 := number_of_not_mem hplace
  omega

/-- Resolving the numbered program makes the same entries under the numbers. -/
theorem Table.Renumbers.resolve (h : Renumbers places table table')
    (hprogram : (numbering places).Numbers (k + 1) program) :
    Renumbers places (resolve table program).table
      (resolve table' (Stmt.allNumbered (k + 1) program)).table := by
  intro p
  by_cases hp : p ∈ places
  · have hstart : Resolver.Parallel (.numbering places) (.numbering places) { table }
        { table := table' } := ⟨rfl,rfl,rfl,fun p _ => h p,rfl⟩
    rw [← hprogram.relocateAll]
    exact (Resolver.parallel_stmts program hstart).table p hp
  -- No node has this place, and none has the number 0.
  · have hplaces : (Scriptlet.resolve table program).table[p]? = table[p]? :=
      resolve_table_getElem? fun x hx heq => hp (heq ▸ hprogram.mem hx)
    have hnumbers : (Scriptlet.resolve table' (Stmt.allNumbered (k + 1) program)).table[0]? =
        table'[0]? := by
      apply resolve_table_getElem?
      intro x hx
      rw [Stmt.allRefs_allNumbered] at hx
      have hfirst := (getElem?_placed _ _ hx).1
      omega
    have hsame := h p
    rw [number_of_not_mem hp] at hsame ⊢
    rw [hplaces,hnumbers,hsame]

/-- Nothing else is found wrong with the numbered program. -/
theorem Relocation.Numbers.resolve_diagnostics (h : (numbering places).Numbers k program)
    (table table' : Table) :
    (resolve table' (Stmt.allNumbered k program)).diagnostics =
      (resolve table program).diagnostics := by
  rw [Resolved.diagnostics,← h.relocateAll,faults_relocate (.numbering places) table table',
    List.map_map]
  rfl

/-- Evaluating the numbered program gives the same report. -/
theorem Relocation.Numbers.evaluate (hprogram : (numbering places).Numbers k program)
    (h : Table.Renumbers places table table') (budget : Nat) (processVars : NameMap Bytes)
    (m : Machine) :
    evaluate budget ⟨table',processVars⟩ (Stmt.allNumbered k program)
        (m.relocate (.numbering places) []) =
      ((evaluate budget ⟨table,processVars⟩ program m).1,
        (evaluate budget ⟨table,processVars⟩ program m).2.relocate (.numbering places) []) := by
  have hctx : Carries (.numbering places) ⟨table,processVars⟩ ⟨table',processVars⟩ :=
    ⟨fun t => h t.index,rfl⟩
  have hmoves := moves_program hctx [] budget program { m with printed := [] }
  rw [hprogram.relocateAll] at hmoves
  have hresult : Eval.program ⟨table',processVars⟩ budget (Stmt.allNumbered k program)
      { m.relocate (.numbering places) [] with printed := [] } = _ := hmoves
  simp only [Scriptlet.evaluate,hresult,machineAfter_relocate]
  rw [Report.ofResult_relocate _ _ fun _ => rfl]

end

end Scriptlet
