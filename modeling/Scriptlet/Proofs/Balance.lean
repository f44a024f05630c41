import Scriptlet.Proofs.References

/-! # Walks of the resolver are balanced

The resolver opens scopes and sets its contexts as it walks into a tree, also into one with errors, and
has undone all of that when it comes out. All that is left is a declaration in the innermost scope,
entries in the table for the nodes of the tree, and what was told. So at the top level a program is
resolved statement by statement, in any state of the table: the entries of two programs come together,
and the diagnostics come one after the other.
-/
namespace Scriptlet

/-! ## Entries of a table -/

/-- The entries of some nodes do not depend on the table that they are entered into. -/
theorem Reference.getElem?_foldl_enter_or (refs : List Reference) (table : Table) (i : Nat) :
    (refs.foldl enter table)[i]? = (refs.foldl enter ∅)[i]?.or table[i]? := by
  induction refs generalizing table with
  | nil => simp
  | cons ref rest ih =>
    rw [List.foldl_cons,List.foldl_cons,ih (enter table ref),ih (enter ∅ ref),Option.or_assoc]
    congr 1
    rw [getElem?_enter,getElem?_enter]
    split <;> simp

theorem Table.equiv_iff {table table' : Table} :
    table.Equiv table' ↔ ∀ i : Nat, table[i]? = table'[i]? := by
  constructor
  · intro h i
    exact h.getElem?_eq
  · intro h
    exact .of_forall_constGet?_eq h

theorem Place.length_declare (place : Place) (names : List Bytes) :
    (place.declare names).scopes.length = place.scopes.length := by
  unfold declare
  split
  · rfl
  · next hscopes => rw [hscopes,List.length_cons,List.length_cons]

namespace Resolver

/-- What a walk over a tree with the given nodes leaves as it was: the contexts, the scopes except for
what the innermost one declares, and the entries of all other nodes. No entry is taken out, and what
was told stays told. -/
structure Balanced (nodes : List Token) (r r' : Resolver) : Prop where
  count : r'.scopes.length = r.scopes.length
  outer : r'.scopes.tail = r.scopes.tail
  function : r'.function = r.function
  class_ : r'.class_ = r.class_
  others : ∀ i, (∀ x ∈ nodes, x.index ≠ i) → r'.table[i]? = r.table[i]?
  kept : ∀ i ∈ r.table, i ∈ r'.table
  faults : r.faults <:+ r'.faults

/-! ## Any state is at some place -/

/-- The place that the scopes of a walk describe. -/
def place (r : Resolver) : Place := ⟨r.scopes.map NameMap.names,r.class_.isSome⟩

theorem declares_names (scope : NameMap Bool) : Declares scope.names scope := by
  intro name
  obtain ⟨entries⟩ := scope
  simp only [NameMap.names,NameMap.contains,NameMap.get?]
  induction entries with
  | nil => rfl
  | cons entry rest ih =>
    rw [List.map_cons,List.contains_cons,List.lookup_cons,ih]
    cases name == entry.1 <;> rfl

theorem stands_place (r : Resolver) : Stands r.place r := by
  constructor
  · rfl
  · exact List.forall₂_map_left_iff.2 (List.forall₂_same.2 fun scope _ => declares_names scope)

/-- The scopes are as many as those of the place where the walk comes out. -/
theorem length_stmt (s : Stmt) (r : Resolver) : (stmt s r).scopes.length = r.scopes.length := by
  have hend := (Stands.stmt s (stands_place r)).scopes.length_eq
  rw [Place.length_declare,place,List.length_map] at hend
  exact hend.symm

theorem mem_foldl_enter {refs : List Reference} {table : Table} {i : Nat} (h : i ∈ table) :
    i ∈ refs.foldl Reference.enter table := by
  rw [Std.TreeMap.mem_iff_isSome_getElem?] at h ⊢
  rw [Reference.getElem?_foldl_enter_or,Option.isSome_or,h,Bool.or_true]

theorem balanced_expr (e : Expr) (r : Resolver) : Balanced e.refs r (expr e r) := by
  have hframe := frame_expr e r
  have hscopes := expr_scopes e r
  refine ⟨by rw [hscopes],by rw [hscopes],hframe.function,hframe.class_,hframe.table,?_,hframe.faults⟩
  intro i hi
  rw [expr_table e (stands_place r)]
  exact mem_foldl_enter hi

theorem balanced_stmt (s : Stmt) (r : Resolver) : Balanced s.refs r (stmt s r) := by
  have hframe := frame_stmt s r
  refine ⟨length_stmt s r,tail_stmt s r,hframe.function,hframe.class_,hframe.table,?_,hframe.faults⟩
  intro i hi
  rw [stmt_table s (stands_place r)]
  exact mem_foldl_enter hi

/-! ## The top level -/

/-- A walk is outside of all scopes, functions and classes. -/
structure AtTop (r : Resolver) : Prop where
  scopes : r.scopes = []
  function : r.function = none
  class_ : r.class_ = none

theorem atTop_start (table : Table) : AtTop { table } := ⟨rfl,rfl,rfl⟩

section

variable {r : Resolver}

/-- A statement of the top level leads back to it. -/
theorem AtTop.stmt (h : AtTop r) (s : Stmt) : AtTop (stmt s r) := by
  have hbalanced := balanced_stmt s r
  constructor
  · rw [← List.length_eq_zero_iff,hbalanced.count,h.scopes]
    rfl
  · exact hbalanced.function.trans h.function
  · exact hbalanced.class_.trans h.class_

theorem AtTop.stmts (h : AtTop r) (ss : List Stmt) : AtTop (stmts ss r) := by
  induction ss generalizing r with
  | nil => exact h
  | cons s rest ih => exact ih (h.stmt s)

theorem AtTop.stands (h : AtTop r) : Stands {} r := by
  constructor
  · rw [h.class_]
    rfl
  · rw [h.scopes]
    exact .nil

theorem AtTop.declaring (h : AtTop r) : Declaring [] [] r := by
  have hinnermost : ∀ name, r.innermost? name = none := by
    intro name
    rw [innermost?,h.scopes]
    rfl
  refine ⟨⟨h.function,h.class_⟩,?_,fun name => ?_,fun name => id⟩
  · simp [h.scopes,Enclosures.IsLocal,Enclosures.function?]
  · rw [hinnermost,if_neg (by simp)]

end

end Resolver

/-! ## Programs -/

/-- What is told about a program that is resolved into a table. -/
def Resolved.diagnostics (resolved : Resolved) : List Diagnostic :=
  resolved.faults.map Diagnostic.ofStatic

theorem resolve_table (table : Table) (program : List Stmt) :
    (resolve table program).table = (Stmt.allReferences {} program).foldl Reference.enter table :=
  Resolver.stmts_table program (Resolver.atTop_start table).stands

/-- The entries of a program come on top of those that are there. -/
theorem getElem?_resolve (table : Table) (program : List Stmt) (i : Nat) :
    (resolve table program).table[i]? = (resolve ∅ program).table[i]?.or table[i]? := by
  rw [resolve_table,resolve_table]
  exact Reference.getElem?_foldl_enter_or _ table i

theorem resolve_diagnostics (table : Table) (program : List Stmt) :
    (resolve table program).diagnostics =
      (Stmt.allOccurrences [] [] program).flatMap Occurrence.diagnostics :=
  Resolver.told_stmts program (Resolver.atTop_start table).declaring

/-- Nothing is told twice: the diagnostics of the statements come one after the other. -/
theorem resolve_append_diagnostics (table : Table) (first second : List Stmt) :
    (resolve table (first ++ second)).diagnostics =
      (resolve table first).diagnostics ++ (resolve table second).diagnostics := by
  have hfirst := (Resolver.atTop_start table).stmts first
  have htold := Resolver.told_stmts second hfirst.declaring
  rw [← Resolver.stmts_append,← resolve_diagnostics table second] at htold
  exact htold

theorem resolve_append_table (table : Table) (first second : List Stmt) :
    (resolve table (first ++ second)).table = (resolve (resolve table first).table second).table := by
  have hfirst := (Resolver.atTop_start table).stmts first
  have htable := Resolver.stmts_table second hfirst.stands
  rw [← Resolver.stmts_append] at htable
  exact htable.trans (resolve_table _ second).symm

/-- A program has entries only for its own nodes. -/
theorem mem_index_of_mem_resolve {program : List Stmt} {i : Nat} (h : i ∈ (resolve ∅ program).table) :
    i ∈ (Stmt.allRefs program).map Token.index := by
  by_contra hother
  have hsame : (resolve ∅ program).table[i]? = (∅ : Table)[i]? :=
    resolve_table_getElem? fun x hx heq => hother (List.mem_map.2 ⟨x,hx,heq⟩)
  rw [Std.TreeMap.mem_iff_isSome_getElem?,hsame] at h
  simp at h

/-- A table that has the entries of a program already stays as it is. -/
theorem resolve_again {table : Table} {program : List Stmt}
    (h : ∀ i d : Nat, (resolve ∅ program).table[i]? = some d → table[i]? = some d) :
    (resolve table program).table.Equiv table := by
  rw [Table.equiv_iff]
  intro i
  rw [getElem?_resolve]
  cases hentry : (resolve ∅ program).table[i]? with
  | none => rfl
  | some d => exact (h i d hentry).symm

/-- Every walk of the resolver is balanced, in every state and over every statement and expression.
Two programs without a common node have no common entry. One after the other they give the union of
their tables, and the diagnostics of the first before those of the second. What a table had before
makes no difference to the entries and the diagnostics of a program. A table that has the entries
already is not changed, and so resolving a program again changes nothing. -/
theorem resolution_is_balanced :
    (∀ (s : Stmt) (r : Resolver), Resolver.Balanced s.refs r (Resolver.stmt s r)) ∧
    (∀ (e : Expr) (r : Resolver), Resolver.Balanced e.refs r (Resolver.expr e r)) ∧
    (∀ s t : List Stmt,
      List.Disjoint ((Stmt.allRefs s).map Token.index) ((Stmt.allRefs t).map Token.index) →
      (∀ i ∈ (resolve ∅ s).table, i ∉ (resolve ∅ t).table) ∧
      (resolve ∅ (s ++ t)).table.Equiv ((resolve ∅ s).table ∪ (resolve ∅ t).table) ∧
      (resolve ∅ (s ++ t)).diagnostics = (resolve ∅ s).diagnostics ++ (resolve ∅ t).diagnostics) ∧
    ∀ (table : Table) (s : List Stmt),
      (resolve table s).table.Equiv (table ∪ (resolve ∅ s).table) ∧
      (resolve table s).diagnostics = (resolve ∅ s).diagnostics ∧
      ((∀ i d : Nat, (resolve ∅ s).table[i]? = some d → table[i]? = some d) →
        (resolve table s).table.Equiv table) ∧
      (resolve (resolve table s).table s).table.Equiv (resolve table s).table := by
  refine ⟨Resolver.balanced_stmt,Resolver.balanced_expr,fun s t hdisjoint => ?_,fun table s => ?_⟩
  · refine ⟨fun i hs ht => ?_,?_,resolve_append_diagnostics ∅ s t⟩
    · exact hdisjoint (mem_index_of_mem_resolve hs) (mem_index_of_mem_resolve ht)
    · rw [Table.equiv_iff]
      intro i
      rw [resolve_append_table,getElem?_resolve,Std.TreeMap.getElem?_union]
  · refine ⟨?_,?_,resolve_again,resolve_again fun i d hentry => ?_⟩
    · rw [Table.equiv_iff]
      intro i
      rw [getElem?_resolve,Std.TreeMap.getElem?_union]
    · rw [resolve_diagnostics,resolve_diagnostics]
    · rw [getElem?_resolve,hentry,Option.some_or]

end Scriptlet
