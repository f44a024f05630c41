import Scriptlet.Proofs.Scoping.Walk

/-! # A resolved tree is well scoped

A walk over a regular tree that reports nothing, and that meets each place of the table for the
first time, leaves a table in which the tree is well scoped. The invariant of the walk is that only
the innermost scope can hold an unfinished name, and that a class with a superclass has bound both
the instance and, one scope further out, the superclass.
-/
namespace Scriptlet

namespace Scopes

variable {scopes : Scopes} {name other : Bytes}

/-- All initializers are finished. -/
def Settled (scopes : Scopes) : Prop := ∀ name, scopes.Finished name

/-- The innermost class has a superclass, which is bound one scope outside of the instance. -/
def InDerived (scopes : Scopes) : Prop :=
  ∃ d, scopes.find? superName = some (d + 1,true) ∧ scopes.find? thisName = some (d,true)

theorem Settled.nil : Settled [] := by simp [Settled,Finished]

theorem Settled.inner (h : scopes.Settled) : Settled (.empty :: scopes) := by
  intro name d hfind
  simp only [find?_empty_cons,Option.map_eq_some_iff,Prod.mk.injEq] at hfind
  obtain ⟨⟨d',f⟩,hfound,-,rfl⟩ := hfind
  exact h name d' hfound

theorem Settled.ofList (h : scopes.Settled) : Settled (.ofList [(name,true)] :: scopes) := by
  intro other d hfind
  rw [find?_ofList_cons] at hfind
  split at hfind
  · simp at hfind
  · exact h.inner other d hfind

theorem Settled.bind (h : scopes.Settled) : Settled (scopes.bind name true) := by
  by_cases hne : scopes = []
  · subst hne
    exact h
  · intro other d hfind
    rw [find?_bind hne] at hfind
    split at hfind
    · simp at hfind
    · exact h other d hfind

theorem Settled.after (h : scopes.Settled) (s : Stmt) : Settled (scopes.after s) := by
  unfold Scopes.after
  split
  · exact h
  · exact h.bind

theorem Settled.bindAll (h : scopes.Settled) (names : List Token) :
    Settled (scopes.bindAll names) := by
  induction names generalizing scopes with
  | nil => exact h
  | cons name names ih => exact ih h.bind

theorem Settled.insideClass (h : scopes.Settled) (superclass : Option Token) :
    Settled (scopes.insideClass superclass) := by
  cases superclass with
  | none => exact h.ofList
  | some parent => exact h.ofList.ofList

theorem InDerived.inner (h : scopes.InDerived) : InDerived (.empty :: scopes) := by
  obtain ⟨d,hsuper,hthis⟩ := h
  exact ⟨d + 1,by simp [hsuper],by simp [hthis]⟩

theorem InDerived.bind {finished : Bool} (h : scopes.InDerived) (hname : IsPlain name) :
    InDerived (scopes.bind name finished) := by
  obtain ⟨d,hsuper,hthis⟩ := h
  have hne : scopes ≠ [] := by
    rintro rfl
    simp at hthis
  refine ⟨d,?_,?_⟩
  · rw [find?_bind hne,if_neg (by simpa using hname.2.symm),hsuper]
  · rw [find?_bind hne,if_neg (by simpa using hname.1.symm),hthis]

theorem inDerived_insideClass (parent : Token) :
    InDerived (scopes.insideClass (some parent)) := by
  refine ⟨0,?_,?_⟩
  · rw [insideClass,find?_ofList_cons,if_neg (by decide),aroundMethods,find?_ofList_cons]
    simp
  · rw [insideClass,find?_ofList_cons]
    simp

/-- A name that can be read while another one is unfinished is a different one. -/
theorem find?_bind_of_finished (h : (scopes.bind name false).Finished other) :
    (scopes.bind name false).find? other = scopes.find? other := by
  by_cases hne : scopes = []
  · subst hne
    rfl
  · rw [find?_bind hne]
    split
    · next heq => exact absurd (by simp [find?_bind hne,heq]) (h 0)
    · rfl

end Scopes

namespace Resolver

/-! ## Places that are met for the first time -/

/-- The occurrences of names are told apart by their places, none of which the table has yet. -/
structure Fresh (refs : List Token) (table : Table) : Prop where
  distinct : (refs.map Token.index).Nodup
  unused : ∀ x ∈ refs, table[x.index]? = none

/-- Two walks one after the other: each meets its places for the first time, and the second one
leaves the entries of the first as they are. -/
theorem Fresh.split {refs refs' : List Token} {r r' r'' : Resolver}
    (h : Fresh (refs ++ refs') r.table) (hfirst : Frame refs r r') (hsecond : Frame refs' r' r'') :
    Fresh refs r.table ∧ Fresh refs' r'.table ∧ Table.AgreeOn refs r'.table r''.table := by
  obtain ⟨hdistinct,hunused⟩ := h
  rw [List.map_append,List.nodup_append] at hdistinct
  obtain ⟨hd,hd',hapart⟩ := hdistinct
  have hne : ∀ x ∈ refs, ∀ y ∈ refs', x.index ≠ y.index := fun x hx y hy =>
    hapart x.index (List.mem_map_of_mem hx) y.index (List.mem_map_of_mem hy)
  refine ⟨⟨hd,fun x hx => hunused x (by simp [hx])⟩,⟨hd',fun y hy => ?_⟩,fun x hx => ?_⟩
  · rw [hfirst.table y.index fun x hx => hne x hx y hy]
    exact hunused y (by simp [hy])
  · exact hsecond.table x.index fun y hy => (hne x hx y hy).symm

theorem Frame.agreeOn {r r' : Resolver} (h : Frame [] r r') (refs : List Token) :
    Table.AgreeOn refs r.table r'.table :=
  fun x _ => h.table x.index (by simp)

theorem Frame.fresh {refs : List Token} {r r' : Resolver} (h : Frame [] r r')
    (hfresh : Fresh refs r.table) : Fresh refs r'.table :=
  ⟨hfresh.distinct,fun x hx => (h.table x.index (by simp)).trans (hfresh.unused x hx)⟩

/-! ## The steps of a walk -/

variable {r : Resolver} {name : Token}

theorem innermost?_eq {name : Bytes} {finished : Bool} :
    r.innermost? name = some finished ↔ r.scopes.find? name = some (0,finished) := by
  unfold innermost? Scopes.find?
  cases r.scopes with
  | nil => simp
  | cons innermost outer => cases h : innermost.get? name <;> simp [h]

theorem located_refer (h : Fresh [name] r.table) :
    r.scopes.Located (r.refer name).table name := by
  unfold refer Scopes.Located
  rw [Scopes.distance?_eq_findIdx?]
  split
  · next d hd => rw [Std.TreeMap.getElem?_insert_self,hd]
  · next hd => rw [h.unused name (by simp),hd]

theorem open_of_declare (h : (r.declare name).faults = []) : r.scopes.Open name.lexeme := by
  intro finished hfind
  have hclean := (frame_mark name.lexeme false _).clean h
  rw [if_pos (by rw [innermost?_eq.2 hfind]; rfl)] at hclean
  simp [report] at hclean

theorem readable_readVariable (hfresh : Fresh [name] r.table)
    (hunfinished : ∀ n d, r.scopes.find? n = some (d,false) → d = 0)
    (h : (r.readVariable name).faults = []) :
    r.scopes.Readable (r.readVariable name).table name := by
  have hfinished : ¬ r.innermost? name.lexeme = some false := by
    intro hread
    have hclean := (frame_refer name _).clean h
    rw [if_pos hread] at hclean
    simp [report] at hclean
  refine ⟨?_,fun d hfind => ?_⟩
  · rw [readVariable,if_neg hfinished]
    exact located_refer hfresh
  · obtain rfl := hunfinished name.lexeme d hfind
    exact hfinished (innermost?_eq.2 hfind)

theorem canDeclareAll_of_clean {params : List Token} (hplain : ∀ p ∈ params, IsPlain p.lexeme)
    (h : (params.foldl (fun r p => (r.declare p).define p) r).faults = []) :
    r.scopes.CanDeclareAll params := by
  induction params generalizing r with
  | nil => trivial
  | cons p params ih =>
    have hstep : ((r.declare p).define p).faults = [] := (frame_parameters params _).clean h
    have hrest := ih (fun q hq => hplain q (by simp [hq])) h
    simp only [define_scopes,declare_scopes,Scopes.bind_bind] at hrest
    exact ⟨⟨hplain p (by simp),open_of_declare ((frame_define p _).clean hstep)⟩,hrest⟩

theorem stmt_scopes : ∀ (s : Stmt) (r : Resolver), s.Regular →
    (stmt s r).scopes = r.scopes.after s
  | .expression value, r, _ => expr_scopes value r
  | .print value, r, _ => expr_scopes value r
  | .varDecl name none, r, _ => by simp [stmt,Scopes.after,Stmt.declared?,Scopes.bind_bind]
  | .varDecl name (some value), r, _ => by
    simp [stmt,Scopes.after,Stmt.declared?,Scopes.bind_bind]
  | .block body, r, _ => within_scopes (tail_stmts body) r
  | .ifElse condition thenBranch none, r, hs => by
    rw [stmt,stmt_scopes thenBranch _ hs.2.2,expr_scopes,Scopes.after,hs.2.1]
    rfl
  | .ifElse condition thenBranch (some elseBranch), r, hs => by
    rw [stmt,stmt_scopes elseBranch _ hs.2.2.2,stmt_scopes thenBranch _ hs.2.1.2,expr_scopes,
      Scopes.after,hs.2.2.1,Scopes.after,hs.2.1.1]
    rfl
  | .while_ condition body, r, hs => by
    rw [stmt,stmt_scopes body _ hs.2.2,expr_scopes,Scopes.after,hs.2.1]
    rfl
  | .return_ keyword none, r, _ => by
    simp [stmt,Scopes.after,Stmt.declared?]
  | .return_ keyword (some value), r, _ => by
    simp [stmt,Scopes.after,Stmt.declared?]
  | .funDecl decl, r, _ => by
    simp [stmt,functionDecl_scopes .function decl,Scopes.after,Stmt.declared?,Scopes.bind_bind]
  | .classDecl name none body, r, _ => by
    simp [stmt,within_scopes_eq (methods_scopes body),Scopes.after,Stmt.declared?,
      Scopes.bind_bind]
  | .classDecl name (some parent) body, r, _ => by
    simp [stmt,within_scopes_eq (within_scopes_eq (methods_scopes body)),Scopes.after,
      Stmt.declared?,Scopes.bind_bind]

/-! ## Expressions -/

/-- What holds where an expression is walked: only the innermost scope can have an unfinished
name, and in a class with a superclass `super` can be resolved. -/
structure Ready (r : Resolver) : Prop where
  unfinished : ∀ n d, r.scopes.find? n = some (d,false) → d = 0 ∧ IsPlain n
  derived : r.class_ = some .derived → r.scopes.InDerived

theorem Ready.congr {r r' : Resolver} (h : Ready r) (hscopes : r'.scopes = r.scopes)
    (hclass : r'.class_ = r.class_) : Ready r' :=
  ⟨hscopes ▸ h.unfinished,hscopes ▸ hclass ▸ h.derived⟩

theorem Ready.expr (h : Ready r) (e : Expr) : Ready (Resolver.expr e r) :=
  h.congr (expr_scopes e r) (frame_expr e r).class_

/-- Expressions are walked one after the other. -/
theorem scoped_pair {first second : Expr} {r : Resolver} (hr : Ready r)
    (h₁ : Fresh first.refs r.table → (expr first r).faults = [] →
      first.Scoped (expr first r).table r.scopes)
    (h₂ : Ready (expr first r) → Fresh second.refs (expr first r).table →
      (expr second (expr first r)).faults = [] →
      second.Scoped (expr second (expr first r)).table (expr first r).scopes)
    (hfresh : Fresh (first.refs ++ second.refs) r.table)
    (hclean : (expr second (expr first r)).faults = []) :
    first.Scoped (expr second (expr first r)).table r.scopes ∧
      second.Scoped (expr second (expr first r)).table r.scopes := by
  have hsecond := frame_expr second (expr first r)
  obtain ⟨hf₁,hf₂,hagree⟩ := hfresh.split (frame_expr first r) hsecond
  have hscoped := h₂ (hr.expr first) hf₂ hclean
  rw [expr_scopes] at hscoped
  exact ⟨(h₁ hf₁ (hsecond.clean hclean)).congr r.scopes first hagree,hscoped⟩

mutual

theorem scoped_expr : ∀ (e : Expr) (r : Resolver), e.Regular → Ready r → Fresh e.refs r.table →
    (expr e r).faults = [] → e.Scoped (expr e r).table r.scopes
  | .literal _, _, _, _, _, _ => trivial
  | .variable_ name, r, hreg, hr, hfresh, hclean =>
    ⟨hreg,readable_readVariable hfresh (fun n d h => (hr.unfinished n d h).1) hclean⟩
  | .self keyword, r, hreg, hr, hfresh, hclean => by
    have hreg : keyword.lexeme = thisName := hreg
    rw [expr] at hclean ⊢
    cases hclass : r.class_ with
    | none => simp [hclass,report] at hclean
    | some context =>
      refine ⟨hreg,located_refer hfresh,fun d hfind => ?_⟩
      rw [hreg] at hfind
      exact (hr.unfinished thisName d hfind).2.1 rfl
  | .superMethod keyword _, r, hreg, hr, hfresh, hclean => by
    have hreg : keyword.lexeme = superName := hreg
    rw [expr] at hclean ⊢
    have hclean := (frame_refer keyword _).clean hclean
    cases hclass : r.class_ with
    | none => simp [hclass,report] at hclean
    | some context =>
      cases context with
      | plain => simp [hclass,report] at hclean
      | derived =>
        obtain ⟨d,hsuper,hthis⟩ := hr.derived hclass
        refine ⟨d,?_,hsuper,hthis⟩
        have hfound : r.scopes.Located (r.refer keyword).table keyword := located_refer hfresh
        simpa [Scopes.Located,hreg,Scopes.distance?,hsuper] using hfound
  | .grouping inner, r, hreg, hr, hfresh, hclean => scoped_expr inner r hreg hr hfresh hclean
  | .unary _ _ operand, r, hreg, hr, hfresh, hclean =>
    scoped_expr operand r hreg hr hfresh hclean
  | .binary _ _ left right, r, hreg, hr, hfresh, hclean =>
    scoped_pair hr (scoped_expr left r hreg.1 hr) (scoped_expr right _ hreg.2) hfresh hclean
  | .logical _ left right, r, hreg, hr, hfresh, hclean =>
    scoped_pair hr (scoped_expr left r hreg.1 hr) (scoped_expr right _ hreg.2) hfresh hclean
  | .assign name value, r, hreg, hr, hfresh, hclean => by
    have hrefer := frame_refer name (expr value r)
    obtain ⟨hv,hn,hagree⟩ := hfresh.split (frame_expr value r) hrefer
    have hlocated := located_refer hn
    rw [expr_scopes] at hlocated
    exact ⟨(scoped_expr value r hreg.1 hr hv (hrefer.clean hclean)).congr r.scopes value hagree,
      hreg.2,hlocated⟩
  | .get object _, r, hreg, hr, hfresh, hclean => scoped_expr object r hreg hr hfresh hclean
  | .set object _ value, r, hreg, hr, hfresh, hclean =>
    scoped_pair hr (scoped_expr value r hreg.1 hr) (scoped_expr object _ hreg.2) hfresh hclean
  | .call callee _ arguments, r, hreg, hr, hfresh, hclean => by
    have hrest := frame_exprs arguments (expr callee r)
    obtain ⟨hc,ha,hagree⟩ := hfresh.split (frame_expr callee r) hrest
    have harguments := scoped_exprs arguments _ hreg.2 (hr.expr callee) ha hclean
    rw [expr_scopes] at harguments
    exact ⟨(scoped_expr callee r hreg.1 hr hc (hrest.clean hclean)).congr r.scopes callee hagree,
      harguments⟩

theorem scoped_exprs : ∀ (es : List Expr) (r : Resolver), Expr.AllRegular es → Ready r →
    Fresh (Expr.allRefs es) r.table → (exprs es r).faults = [] →
    Expr.AllScoped (exprs es r).table r.scopes es
  | [], _, _, _, _, _ => trivial
  | e :: rest, r, hreg, hr, hfresh, hclean => by
    have hrest := frame_exprs rest (expr e r)
    obtain ⟨h₁,h₂,hagree⟩ := hfresh.split (frame_expr e r) hrest
    have hscoped := scoped_exprs rest _ hreg.2 (hr.expr e) h₂ hclean
    rw [expr_scopes] at hscoped
    exact ⟨(scoped_expr e r hreg.1 hr h₁ (hrest.clean hclean)).congr r.scopes e hagree,hscoped⟩

end

/-! ## Statements -/

/-- What holds where a statement is walked. -/
structure Calm (r : Resolver) : Prop where
  settled : r.scopes.Settled
  derived : r.class_ = some .derived → r.scopes.InDerived

theorem Calm.ready (h : Calm r) : Ready r :=
  ⟨fun n d hfind => absurd hfind (h.settled n d),h.derived⟩

theorem Calm.congr {r r' : Resolver} (h : Calm r) (hscopes : r'.scopes = r.scopes)
    (hclass : r'.class_ = r.class_) : Calm r' :=
  ⟨hscopes ▸ h.settled,hscopes ▸ hclass ▸ h.derived⟩

theorem Calm.expr (h : Calm r) (e : Expr) : Calm (Resolver.expr e r) :=
  h.congr (expr_scopes e r) (frame_expr e r).class_

theorem Calm.inner (h : Calm r) : Calm { r with scopes := .empty :: r.scopes } :=
  ⟨h.settled.inner,fun hclass => (h.derived hclass).inner⟩

theorem Calm.declare (h : Calm r) (hname : IsPlain name.lexeme) :
    Calm ((r.declare name).define name) := by
  have hscopes : ((r.declare name).define name).scopes = r.scopes.bind name.lexeme true := by
    simp [Scopes.bind_bind]
  refine ⟨hscopes ▸ h.settled.bind,fun hclass => hscopes ▸ (h.derived ?_).bind hname⟩
  rw [← hclass,(frame_define name _).class_,(frame_declare name r).class_]

theorem Calm.parameters (h : Calm r) {params : List Token}
    (hplain : ∀ p ∈ params, IsPlain p.lexeme) :
    Calm (params.foldl (fun r p => (r.declare p).define p) r) := by
  induction params generalizing r with
  | nil => exact h
  | cons p params ih =>
    exact ih (h.declare (hplain p (by simp))) fun q hq => hplain q (by simp [hq])

/-- While its initializer is walked, a name is the only unfinished one. -/
theorem unfinished_declare (h : r.scopes.Settled) {n : Bytes} {d : Nat}
    (hfind : (r.declare name).scopes.find? n = some (d,false)) : d = 0 ∧ n = name.lexeme := by
  rw [declare_scopes] at hfind
  by_cases hne : r.scopes = []
  · simp [hne,Scopes.bind] at hfind
  · rw [Scopes.find?_bind hne] at hfind
    split at hfind
    · next heq => exact ⟨by simpa using hfind.symm,eq_of_beq heq⟩
    · exact absurd hfind (h n d)

theorem Calm.initializer (h : Calm r) (hname : IsPlain name.lexeme) : Ready (r.declare name) := by
  refine ⟨fun n d hfind => ?_,fun hclass => ?_⟩
  · obtain ⟨rfl,rfl⟩ := unfinished_declare h.settled hfind
    exact ⟨rfl,hname⟩
  · rw [declare_scopes]
    exact (h.derived (hclass ▸ (frame_declare name r).class_.symm)).bind hname

theorem Calm.stmt (h : Calm r) {s : Stmt} (hreg : s.Regular) : Calm (Resolver.stmt s r) := by
  have hscopes := stmt_scopes s r hreg
  have hclass := (frame_stmt s r).class_
  refine ⟨hscopes ▸ h.settled.after s,fun hderived => hscopes ▸ ?_⟩
  have houter := h.derived (hclass.symm.trans hderived)
  unfold Scopes.after
  split
  · exact houter
  · next name hname => exact houter.bind (hreg.declared name hname)

/-- The state in which the methods of a class are walked. -/
theorem calm_methods (superclass : Option Token) {r : Resolver} (h : r.scopes.Settled)
    {context : ClassContext} (hcontext : context = .derived → superclass.isSome) :
    Calm { r with scopes := r.scopes.insideClass superclass, class_ := some context } := by
  refine ⟨?_,fun hclass => ?_⟩
  · exact h.insideClass superclass
  · obtain ⟨parent,rfl⟩ := Option.isSome_iff_exists.1 (hcontext (by simpa using hclass))
    exact Scopes.inDerived_insideClass parent

mutual

theorem scoped_stmt : ∀ (s : Stmt) (r : Resolver), s.Regular → Calm r → Fresh s.refs r.table →
    (stmt s r).faults = [] → s.Scoped (stmt s r).table r.scopes
  | .expression value, r, hreg, hr, hfresh, hclean =>
    scoped_expr value r hreg hr.ready hfresh hclean
  | .print value, r, hreg, hr, hfresh, hclean => scoped_expr value r hreg hr.ready hfresh hclean
  | .varDecl name none, r, hreg, _, _, hclean =>
    ⟨hreg,open_of_declare ((frame_define name _).clean hclean)⟩
  | .varDecl name (some value), r, hreg, hr, hfresh, hclean => by
    have hdefine := frame_define name (expr value (r.declare name))
    have hvalue := hdefine.clean hclean
    have hscoped := scoped_expr value _ hreg.2 (hr.initializer hreg.1)
      ((frame_declare name r).fresh hfresh) hvalue
    rw [declare_scopes] at hscoped
    exact ⟨⟨hreg.1,open_of_declare ((frame_expr value _).clean hvalue)⟩,
      hscoped.congr _ value (hdefine.agreeOn value.refs)⟩
  | .block body, r, hreg, hr, hfresh, hclean => scoped_stmts body _ hreg hr.inner hfresh hclean
  | .ifElse condition thenBranch none, r, hreg, hr, hfresh, hclean => by
    have hthen := frame_stmt thenBranch (expr condition r)
    obtain ⟨h₁,h₂,hagree⟩ := hfresh.split (frame_expr condition r) hthen
    have hscoped := scoped_stmt thenBranch _ hreg.2.2 (hr.expr condition) h₂ hclean
    rw [expr_scopes] at hscoped
    exact ⟨(scoped_expr condition r hreg.1 hr.ready h₁ (hthen.clean hclean)).congr _ _ hagree,
      hreg.2.1,hscoped⟩
  | .ifElse condition thenBranch (some elseBranch), r, hreg, hr, hfresh, hclean => by
    obtain ⟨hcreg,⟨htnone,htreg⟩,henone,hereg⟩ := hreg
    have helse := frame_stmt elseBranch (stmt thenBranch (expr condition r))
    have hthen := frame_stmt thenBranch (expr condition r)
    obtain ⟨h₁,h₂,hagree⟩ := hfresh.split (frame_expr condition r) (hthen.trans helse)
    obtain ⟨h₃,h₄,hagree'⟩ := h₂.split hthen helse
    have hcalm := hr.expr condition
    have htscoped := scoped_stmt thenBranch _ htreg hcalm h₃ (helse.clean hclean)
    have hescoped := scoped_stmt elseBranch _ hereg (hcalm.stmt htreg) h₄ hclean
    rw [stmt_scopes thenBranch _ htreg,Scopes.after,htnone,expr_scopes] at hescoped
    rw [expr_scopes] at htscoped
    exact ⟨(scoped_expr condition r hcreg hr.ready h₁
      ((hthen.trans helse).clean hclean)).congr _ _ hagree,
      ⟨htnone,htscoped.congr _ _ hagree'⟩,henone,hescoped⟩
  | .while_ condition body, r, hreg, hr, hfresh, hclean => by
    have hbody := frame_stmt body (expr condition r)
    obtain ⟨h₁,h₂,hagree⟩ := hfresh.split (frame_expr condition r) hbody
    have hscoped := scoped_stmt body _ hreg.2.2 (hr.expr condition) h₂ hclean
    rw [expr_scopes] at hscoped
    exact ⟨(scoped_expr condition r hreg.1 hr.ready h₁ (hbody.clean hclean)).congr _ _ hagree,
      hreg.2.1,hscoped⟩
  | .return_ _ none, _, _, _, _, _ => trivial
  | .return_ keyword (some value), r, hreg, hr, hfresh, hclean => by
    rw [stmt] at hclean ⊢
    generalize hr₁ : (if r.function = none then r.report .topLevelReturn keyword else r) = r₁
      at hclean ⊢
    have hframe₁ : Frame [] r r₁ := hr₁ ▸ frame_reportIf .topLevelReturn keyword r
    have hscopes₁ : r₁.scopes = r.scopes := hr₁ ▸ reportIf_scopes .topLevelReturn keyword r
    generalize hr₂ : (if r₁.function = some .initializer then
      r₁.report .initializerReturn keyword else r₁) = r₂ at hclean ⊢
    have hframe₂ : Frame [] r₁ r₂ := hr₂ ▸ frame_reportIf .initializerReturn keyword r₁
    have hscopes₂ : r₂.scopes = r₁.scopes := hr₂ ▸ reportIf_scopes .initializerReturn keyword r₁
    have hframe := hframe₁.after hframe₂
    have hscopes := hscopes₂.trans hscopes₁
    rw [Stmt.Scoped,← hscopes]
    exact scoped_expr value r₂ hreg (hr.ready.congr hscopes hframe.class_) (hframe.fresh hfresh)
      hclean
  | .funDecl ⟨name,params,body⟩, r, hreg, hr, hfresh, hclean => by
    have hframe := (frame_declare name r).after (frame_define name _)
    have hdecl := (frame_functionDecl .function ⟨name,params,body⟩ _).clean hclean
    have hscoped := scoped_functionDecl .function ⟨name,params,body⟩ _ hreg (hr.declare hreg.1)
      (hframe.fresh hfresh) hclean
    simp only [define_scopes,declare_scopes,Scopes.bind_bind] at hscoped
    exact ⟨⟨hreg.1,open_of_declare ((frame_define name _).clean hdecl)⟩,hscoped⟩
  | .classDecl name none body, r, hreg, hr, hfresh, hclean => by
    let start : Resolver := { r with class_ := some .plain }
    let named := (start.declare name).define name
    let inner := { named with scopes := named.scopes.insideClass none }
    have hframe : Frame [] start named := (frame_declare name start).after (frame_define name _)
    have hscopes : named.scopes = r.scopes.bind name.lexeme true := by
      simp [named,start,Scopes.bind_bind]
    have hcalm : Calm inner :=
      (calm_methods none (hscopes ▸ hr.settled.bind) (by simp)).congr rfl hframe.class_
    have hclean : (methods body inner).faults = [] := hclean
    have hnamed : named.faults = [] := (frame_methods body inner).clean hclean
    have hopen : start.scopes.Open name.lexeme :=
      open_of_declare ((frame_define name _).clean hnamed)
    refine ⟨⟨hreg.1,hopen⟩,by simp,?_⟩
    rw [← hscopes]
    exact scoped_methods body inner hreg.2.2 hcalm (hframe.fresh hfresh) hclean
  | .classDecl name (some parent) body, r, hreg, hr, hfresh, hclean => by
    let start : Resolver := { r with class_ := some .derived }
    let read := (start.declare name).readVariable parent
    let named := read.define name
    let inner := { named with scopes := named.scopes.insideClass (some parent) }
    have hread : Frame [parent] start read :=
      (frame_declare name start).after (frame_readVariable parent _)
    have hframe : Frame [parent] start named := hread.andThen (frame_define name read)
    have hscopes : named.scopes = r.scopes.bind name.lexeme true := by
      simp [named,read,start,Scopes.bind_bind]
    have hcalm : Calm inner :=
      (calm_methods (some parent) (hscopes ▸ hr.settled.bind) (by simp)).congr rfl hframe.class_
    have hclean : (methods body inner).faults = [] := hclean
    have hnamed : named.faults = [] := (frame_methods body inner).clean hclean
    have hreadClean : read.faults = [] := (frame_define name read).clean hnamed
    have hfresh : Fresh ([parent] ++ FunctionDecl.allRefs body) start.table := hfresh
    have hmethods : Frame (FunctionDecl.allRefs body) named (methods body inner) :=
      have h := frame_methods body inner
      ⟨h.function,h.class_,h.table,h.faults⟩
    obtain ⟨hp,hm,hagree⟩ := hfresh.split hframe hmethods
    have hsettled : start.scopes.Settled := hr.settled
    have hfound : (start.declare name).scopes.Readable read.table parent :=
      readable_readVariable ((frame_declare name start).fresh hp)
        (fun n d hfind => (unfinished_declare hsettled hfind).1) hreadClean
    have hparent : r.scopes.Readable read.table parent := by
      rw [declare_scopes] at hfound
      have heq := Scopes.find?_bind_of_finished hfound.2
      exact ⟨by simpa [Scopes.Located,Scopes.distance?,heq] using hfound.1,
        hr.settled parent.lexeme⟩
    have hopen : start.scopes.Open name.lexeme :=
      open_of_declare ((frame_readVariable parent _).clean hreadClean)
    have hentry : (methods body inner).table[parent.index]? = read.table[parent.index]? :=
      (hagree parent (by simp)).trans ((frame_define name read).agreeOn [parent] parent (by simp))
    refine ⟨⟨hreg.1,hopen⟩,?_,?_⟩
    · rintro p hp
      obtain rfl : parent = p := by simpa using hp
      exact ⟨hreg.2.1 parent hp,hparent.congr hentry⟩
    · rw [← hscopes]
      exact scoped_methods body inner hreg.2.2 hcalm hm hclean

theorem scoped_stmts : ∀ (ss : List Stmt) (r : Resolver), Stmt.AllRegular ss → Calm r →
    Fresh (Stmt.allRefs ss) r.table → (stmts ss r).faults = [] →
    Stmt.AllScoped (stmts ss r).table r.scopes ss
  | [], _, _, _, _, _ => trivial
  | s :: rest, r, hreg, hr, hfresh, hclean => by
    have hrest := frame_stmts rest (stmt s r)
    obtain ⟨h₁,h₂,hagree⟩ := hfresh.split (frame_stmt s r) hrest
    have hscoped := scoped_stmts rest _ hreg.2 (hr.stmt hreg.1) h₂ hclean
    rw [stmt_scopes s r hreg.1] at hscoped
    exact ⟨(scoped_stmt s r hreg.1 hr h₁ (hrest.clean hclean)).congr _ _ hagree,hscoped⟩

theorem scoped_functionDecl : ∀ (context : FunctionContext) (decl : FunctionDecl) (r : Resolver),
    decl.Regular → Calm r → Fresh decl.refs r.table →
    (functionDecl context decl r).faults = [] →
    decl.Scoped (functionDecl context decl r).table r.scopes
  | context, ⟨_,params,body⟩, r, hreg, hr, hfresh, hclean => by
    let inner : Resolver := { r with scopes := .empty :: r.scopes, function := some context }
    have hinner : Calm inner := hr.inner.congr rfl rfl
    have hframe := frame_parameters params inner
    have hparams := (frame_stmts body _).clean hclean
    have hscoped := scoped_stmts body _ hreg.2.2 (hinner.parameters hreg.2.1)
      (hframe.fresh hfresh) hclean
    rw [parameters_scopes] at hscoped
    exact ⟨canDeclareAll_of_clean hreg.2.1 hparams,hscoped⟩

theorem scoped_methods : ∀ (decls : List FunctionDecl) (r : Resolver),
    FunctionDecl.AllRegular decls → Calm r → Fresh (FunctionDecl.allRefs decls) r.table →
    (methods decls r).faults = [] → FunctionDecl.AllScoped (methods decls r).table r.scopes decls
  | [], _, _, _, _, _ => trivial
  | decl :: rest, r, hreg, hr, hfresh, hclean => by
    rw [methods] at hclean ⊢
    generalize (if decl.name.lexeme = initializerName then FunctionContext.initializer
      else .method) = context at hclean ⊢
    have hrest := frame_methods rest (functionDecl context decl r)
    obtain ⟨h₁,h₂,hagree⟩ := hfresh.split (frame_functionDecl context decl r) hrest
    have hscopes := functionDecl_scopes context decl r
    have hscoped := scoped_methods rest _ hreg.2
      (hr.congr hscopes (frame_functionDecl context decl r).class_) h₂ hclean
    rw [hscopes] at hscoped
    exact ⟨(scoped_functionDecl context decl r hreg.1 hr h₁ (hrest.clean hclean)).congr _ _ hagree,
      hscoped⟩

end

end Resolver

/-- Resolving a regular program without a fault makes it well scoped, whatever the table knew about
other places. -/
theorem allScoped_of_resolve {table : Table} {program : List Stmt}
    (hreg : Stmt.AllRegular program) (hfresh : Resolver.Fresh (Stmt.allRefs program) table)
    (hclean : (resolve table program).faults = []) :
    Stmt.AllScoped (resolve table program).table [] program := by
  have hcalm : Resolver.Calm { table } := ⟨.nil,by simp⟩
  exact Resolver.scoped_stmts program { table } hreg hcalm hfresh (by simpa [resolve] using hclean)

/-- Resolving changes no entry of other places. -/
theorem resolve_table_getElem? {table : Table} {program : List Stmt} {i : Nat}
    (h : ∀ x ∈ Stmt.allRefs program, x.index ≠ i) : (resolve table program).table[i]? = table[i]? :=
  (Resolver.frame_stmts program { table }).table i h

theorem Resolver.stmts_append (ss ss' : List Stmt) (r : Resolver) :
    stmts (ss ++ ss') r = stmts ss' (stmts ss r) := by
  induction ss generalizing r with
  | nil => rfl
  | cons s rest ih => exact ih (stmt s r)

/-- At the top level there are no scopes, and statements open none. -/
theorem Resolver.stmts_scopes_nil {ss : List Stmt} {r : Resolver} (hreg : Stmt.AllRegular ss)
    (h : r.scopes = []) : (stmts ss r).scopes = [] := by
  induction ss generalizing r with
  | nil => exact h
  | cons s rest ih => exact ih hreg.2 (by rw [stmt_scopes s r hreg.1,h,Scopes.after_nil])

/-- Programs are resolved statement by statement. -/
theorem resolve_append {table : Table} {first : List Stmt} (second : List Stmt)
    (hreg : Stmt.AllRegular first) (hclean : (resolve table first).faults = []) :
    resolve table (first ++ second) = resolve (resolve table first).table second := by
  have hframe := Resolver.frame_stmts first { table }
  have hfaults : (Resolver.stmts first { table }).faults = [] := by simpa [resolve] using hclean
  have hscopes := Resolver.stmts_scopes_nil (r := { table }) hreg rfl
  simp only [resolve,Resolver.stmts_append]
  generalize Resolver.stmts first { table } = r at hframe hfaults hscopes
  obtain ⟨scopes,function,class_,table',faults⟩ := r
  obtain ⟨rfl,rfl,-,-⟩ := hframe
  obtain rfl : scopes = [] := hscopes
  obtain rfl : faults = [] := hfaults
  rfl

end Scriptlet
