import Scriptlet.Proofs.Lexical.Distances
import Scriptlet.Proofs.LookUps

/-! # What an assignment writes to

An assignment goes to the environment at the distance of its name and does not look whether the name
is bound there. It is, as the resolver lets an assignment refer only to declarations that have been
run, with one exception: in the initializer of a local variable the variable itself can be assigned
to, and this binds it before its declaration does. Everywhere else an assignment leaves each
environment with the names that it had.
-/
namespace Scriptlet

/-- Every environment binds the same names in both stores. -/
def Store.SameNames (s s' : Store) : Prop :=
  ∀ id name, (s'.bound? id name).isSome = (s.bound? id name).isSome

theorem Store.SameNames.refl (s : Store) : s.SameNames s := fun _ _ => rfl

theorem Store.sameNames_define {s : Store} {holder : EnvId} {name : Bytes} {value : Value}
    (h : (s.bound? holder name).isSome) : s.SameNames (s.define holder name value) := by
  intro id key
  have hsize : holder < s.size := by
    obtain ⟨bound,hbound⟩ := Option.isSome_iff_exists.1 h
    obtain ⟨env,henv,-⟩ := Option.bind_eq_some_iff.1 hbound
    exact lt_size_of_get? henv
  rw [bound?_define hsize]
  split
  · next heq =>
    obtain ⟨rfl,rfl⟩ := heq
    rw [h]
    rfl
  · rfl

/-- The machine after a name is bound in an environment. -/
def Machine.writing (m : Machine) (holder : EnvId) (name : Bytes) (value : Value) : Machine :=
  { m with memory.store := m.memory.store.define holder name value }

section

variable {ctx : Context} {n : Nat} {name : Token} {value : Expr} {m m' : Machine} {x : Value}
  {holder : EnvId}

/-- Once its value is known, an assignment binds the name in the environment that is found for it. -/
theorem Eval.expr_assign (hvalue : Eval.expr ctx n value m = .ok x m')
    (hholder : Eval.holder ctx name m' = .ok holder m') :
    Eval.expr ctx (n + 1) (.assign name value) m = .ok x (m'.writing holder name.lexeme x) := by
  simp only [Eval.expr,Eval.assign,Bind.bind,EStateM.bind,hvalue,hholder]
  rfl

theorem Eval.expr_assign_error {e : Abort} (hvalue : Eval.expr ctx n value m = .ok x m')
    (hholder : Eval.holder ctx name m' = .error e m') :
    Eval.expr ctx (n + 1) (.assign name value) m = .error e m' := by
  simp only [Eval.expr,Eval.assign,Bind.bind,EStateM.bind,hvalue,hholder]

end

namespace Session

variable {s : Session} {r : Request} {v : Visit}

theorem Makes.table (h : s.Makes r v) :
    (s.perform r).2.table = (resolve s.table (load s.nextIndex r.source).statements).table := by
  rw [(perform_of_resolved h.1 h.2.1).2]

/-- An expression that a run evaluates belongs to a statement that it runs. -/
theorem Makes.statement (h : s.Makes r v) (hv : v.task.IsExpr) :
    ∃ top statement, s.Makes r top ∧ top.task = .stmt statement ∧
      Visit.Within ⟨(s.perform r).2.table,r.processVars⟩ top v := by
  rw [h.table]
  obtain ⟨hload,hclean,before,first,rest,m,hsplit,hbefore,hreach⟩ := h
  obtain ⟨top,statement,htop,hstatement,hwithin⟩ := hreach.statement hv fun hexpr => hexpr
  exact ⟨top,statement,⟨hload,hclean,before,first,rest,m,hsplit,hbefore,htop⟩,hstatement,hwithin⟩

/-- The visit is a part of the initializer of a local variable, and evaluated in the environment
in which the variable is to be declared. -/
def Initializes (s : Session) (r : Request) (name : Bytes) (v : Visit) : Prop :=
  ∃ n x initial m, s.Makes r ⟨n,.stmt (.varDecl x (some initial)),m⟩ ∧ x.lexeme = name ∧
    m.memory.scope ≠ globalScope ∧ v.machine.memory.scope = m.memory.scope ∧
    Visit.Within ⟨(s.perform r).2.table,r.processVars⟩ ⟨n,.stmt (.varDecl x (some initial)),m⟩ v

end Session

namespace Lexical

section

variable {p : Places} {vars : NameMap Bytes} {w : World} {here : EnvId} {scope : Scope}
  {scopes : Scopes} {m : Scriptlet.Machine} {l : Machine} {n : Nat}

/-- The scopes of an expression of a statement. Only a variable whose initializer the expression is
can be unfinished in them. -/
theorem seated_of_stmt {s : Stmt} {v : Visit} (h : Linked p w here m l)
    (hcurrent : Current w here scope scopes) (hsettled : scopes.Settled)
    (hscoped : s.Scoped p.table scopes) (hcall : Visit.Calls ⟨p.table,vars⟩ ⟨n,.stmt s,m⟩ v)
    (hv : v.task.IsExpr) :
    ∃ inner, Seated p here inner v ∧ ∀ name d, inner.find? name = some (d,false) →
      d = 0 ∧ here ≠ globalScope ∧ ∃ x initial, s = .varDecl x (some initial) ∧ x.lexeme = name := by
  have hfinished : ∀ name d, scopes.find? name ≠ some (d,false) := fun name d => hsettled name d
  cases hcall with
  | expression | print | returned =>
    exact ⟨scopes,.expr h hcurrent.fits hscoped,fun name d hfind => absurd hfind (hfinished name d)⟩
  | @ifCondition _ _ _ _ elseBranch =>
    refine ⟨scopes,?_,fun name d hfind => absurd hfind (hfinished name d)⟩
    cases elseBranch with
    | none => exact .expr h hcurrent.fits hscoped.1
    | some _ => exact .expr h hcurrent.fits hscoped.1
  | whileCondition =>
    exact ⟨scopes,.expr h hcurrent.fits hscoped.1,
      fun name d hfind => absurd hfind (hfinished name d)⟩
  | @initial _ _ x initial =>
    obtain ⟨⟨hplain,hopen⟩,hvalue⟩ := hscoped
    obtain ⟨w',scope',slot,l',-,-,hlinked,hcurrent',-⟩ := exists_declare h hcurrent hopen
    refine ⟨scopes.bind x.lexeme false,.expr hlinked hcurrent'.fits hvalue,fun name d hfind => ?_⟩
    cases hcurrent with
    | global => simp [Scopes.bind] at hfind
    | nested hne hid _ _ _ =>
      rw [Scopes.find?_bind hne] at hfind
      split at hfind
      · next heq =>
        obtain rfl : name = x.lexeme := eq_of_beq heq
        exact ⟨by simpa using hfind.symm,hid,x,initial,rfl,rfl⟩
      · exact absurd hfind (hfinished name d)
  | block | thenBranch | elseBranch | whileBody | whileAgain => exact hv.elim

theorem seated_of_within {s : Stmt} {u v : Visit} (h : Sound p u) (hu : u.task = .stmt s)
    (hwithin : Visit.Within ⟨p.table,vars⟩ u v) :
    ∃ inner, Seated p u.machine.memory.scope inner v ∧ ∀ name d, inner.find? name = some (d,false) →
      d = 0 ∧ u.machine.memory.scope ≠ globalScope ∧
        ∃ x initial, s = .varDecl x (some initial) ∧ x.lexeme = name := by
  induction hwithin with
  | whole hcall hv =>
    cases h with
    | stmt hlinked hcurrent hsettled hscoped _ =>
      obtain rfl : _ = s := by simpa using hu
      simp only [hlinked.current]
      exact seated_of_stmt hlinked hcurrent hsettled hscoped hcall hv
    | _ => cases hu
  | part _ hcall hv ih =>
    obtain ⟨inner,hseated,hunfinished⟩ := ih
    refine ⟨inner,?_,hunfinished⟩
    cases hseated with
    | expr hlinked hfits hscoped => exact seated_of_expr hlinked hfits hscoped hcall hv
    | exprs hlinked hfits hscoped => exact seated_of_exprs hlinked hfits hscoped hcall

end

/-- What is found for the name of an assignment just before it writes. -/
theorem holder_of_makes {s : Scriptlet.Session} {t : Session} (h : Agrees s t) {r : Request} {n : Nat}
    {name : Token} {value : Expr} {m m' : Scriptlet.Machine} {x : Value}
    (hmakes : s.Makes r ⟨n + 1,.expr (.assign name value),m⟩)
    (hvalue : Scriptlet.Eval.expr ⟨(s.perform r).2.table,r.processVars⟩ n value m = .ok x m') :
    (∃ bindings, m'.memory.store.get? globalScope = some ⟨none,bindings⟩) ∧
      ∀ distance, (s.perform r).2.table[name.index]? = some distance →
        ∃ holder, m'.memory.store.ancestor? m'.memory.scope distance = some holder ∧
          ((m'.memory.store.bound? holder name.lexeme).isSome ∨ distance = 0 ∧
            s.Initializes r name.lexeme ⟨n + 1,.expr (.assign name value),m⟩) := by
  obtain ⟨⟨k,task,top⟩,statement,htop,htask,hwithin⟩ := hmakes.statement trivial
  obtain rfl : task = .stmt statement := htask
  obtain ⟨inner,hseated,hunfinished⟩ := seated_of_within (sound_of_makes h htop) rfl hwithin
  cases hseated with
  | expr hlinked hfits hscoped =>
    obtain ⟨hscoped,-,hlocated⟩ := hscoped
    obtain ⟨w',l',x',hgrow,hlinked',-⟩ := linked_after_expr hlinked hfits hscoped hvalue
    refine ⟨hlinked'.store ▸ hlinked'.root,fun distance hentry => ?_⟩
    rw [Scopes.Located,hentry] at hlocated
    obtain ⟨⟨d,finished⟩,hfind,rfl⟩ := Option.map_eq_some_iff.1 hlocated.symm
    obtain ⟨holder,cell,hholder,-,-,hbound⟩ := (hfits.grow hgrow).found hfind
    rw [hlinked'.store,hlinked'.current]
    refine ⟨holder,hholder,?_⟩
    cases finished with
    | true => exact .inl (hbound rfl)
    | false =>
      obtain ⟨rfl,hlocal,y,initial,rfl,hname⟩ := hunfinished name.lexeme d hfind
      exact .inr ⟨rfl,k,y,initial,top,htop,hname,hlocal,hlinked.current,hwithin⟩

section

variable {s : Scriptlet.Session} {t : Session} {r : Request} {n : Nat} {name : Token} {value : Expr}
  {m m' : Scriptlet.Machine} {x : Value}

theorem assign_of_distance (h : Agrees s t)
    (hmakes : s.Makes r ⟨n + 1,.expr (.assign name value),m⟩)
    (hvalue : Scriptlet.Eval.expr ⟨(s.perform r).2.table,r.processVars⟩ n value m = .ok x m')
    {distance : Nat} (hentry : (s.perform r).2.table[name.index]? = some distance) :
    ∃ holder, m'.memory.store.ancestor? m'.memory.scope distance = some holder ∧
      Scriptlet.Eval.expr ⟨(s.perform r).2.table,r.processVars⟩ (n + 1) (.assign name value) m =
        .ok x (m'.writing holder name.lexeme x) ∧
      ((m'.memory.store.bound? holder name.lexeme).isSome ∨ distance = 0 ∧
        s.Initializes r name.lexeme ⟨n + 1,.expr (.assign name value),m⟩) := by
  obtain ⟨-,hlocal⟩ := holder_of_makes h hmakes hvalue
  obtain ⟨holder,hholder,hbound⟩ := hlocal distance hentry
  have hfound : Scriptlet.Eval.holder ⟨(s.perform r).2.table,r.processVars⟩ name m' = .ok holder m' :=
    Eval.holder_of_ancestor hentry hholder
  exact ⟨holder,hholder,Eval.expr_assign hvalue hfound,hbound⟩

theorem assign_of_global (h : Agrees s t)
    (hmakes : s.Makes r ⟨n + 1,.expr (.assign name value),m⟩)
    (hvalue : Scriptlet.Eval.expr ⟨(s.perform r).2.table,r.processVars⟩ n value m = .ok x m')
    (hentry : (s.perform r).2.table[name.index]? = none) :
    (m'.memory.store.bound? globalScope name.lexeme).isSome ∧
        Scriptlet.Eval.expr ⟨(s.perform r).2.table,r.processVars⟩ (n + 1) (.assign name value) m =
          .ok x (m'.writing globalScope name.lexeme x) ∨
      m'.memory.store.bound? globalScope name.lexeme = none ∧
        Scriptlet.Eval.expr ⟨(s.perform r).2.table,r.processVars⟩ (n + 1) (.assign name value) m =
          .error (.fault (.undefinedVariable name.lexeme) name) m' := by
  obtain ⟨⟨bindings,hroot⟩,-⟩ := holder_of_makes h hmakes hvalue
  have hfound : Scriptlet.Eval.holder ⟨(s.perform r).2.table,r.processVars⟩ name m' = _ :=
    Eval.holder_of_global hentry hroot
  cases hbound : m'.memory.store.bound? globalScope name.lexeme with
  | some old =>
    rw [hbound] at hfound
    exact .inl ⟨rfl,Eval.expr_assign hvalue hfound⟩
  | none =>
    rw [hbound] at hfound
    exact .inr ⟨rfl,Eval.expr_assign_error hvalue hfound⟩

end

/-- An assignment creates no variable, except in the variable's own initializer. Let its value be
evaluated. If the name has a distance, the environment that is written to binds the name already,
unless the assignment is a part of the initializer of a local variable of that name. If it has none,
a global is given the value, or there is no such global and the assignment fails with all
environments unchanged. So each environment binds the same names just before and just after. -/
theorem assign_sameNames (clock : Clock) (calls : List Scriptlet.Session.Call) (r : Request) (n : Nat)
    (name : Token) (value : Expr) (m m' : Scriptlet.Machine) (x : Value) :
    let s := (Scriptlet.Session.start clock).afterCalls calls
    let ctx : Context := ⟨(s.perform r).2.table,r.processVars⟩
    let result := Scriptlet.Eval.expr ctx (n + 1) (.assign name value) m
    s.Makes r ⟨n + 1,.expr (.assign name value),m⟩ → Scriptlet.Eval.expr ctx n value m = .ok x m' →
      (∀ distance, ctx.table[name.index]? = some distance →
        ∃ holder, m'.memory.store.ancestor? m'.memory.scope distance = some holder ∧
          result = .ok x (m'.writing holder name.lexeme x) ∧
          ((m'.memory.store.bound? holder name.lexeme).isSome ∨ distance = 0 ∧
            s.Initializes r name.lexeme ⟨n + 1,.expr (.assign name value),m⟩)) ∧
      (ctx.table[name.index]? = none →
        (m'.memory.store.bound? globalScope name.lexeme).isSome ∧
            result = .ok x (m'.writing globalScope name.lexeme x) ∨
          m'.memory.store.bound? globalScope name.lexeme = none ∧
            result = .error (.fault (.undefinedVariable name.lexeme) name) m') ∧
      (¬ s.Initializes r name.lexeme ⟨n + 1,.expr (.assign name value),m⟩ →
        m'.memory.store.SameNames (machineAfter result).memory.store) := by
  intro s ctx result hmakes hvalue
  obtain ⟨t,h⟩ := exists_agrees_afterCalls clock calls
  refine ⟨fun distance => assign_of_distance h hmakes hvalue,assign_of_global h hmakes hvalue,?_⟩
  intro hother
  cases hentry : ctx.table[name.index]? with
  | some distance =>
    obtain ⟨holder,-,hresult,hbound⟩ := assign_of_distance h hmakes hvalue hentry
    have hafter : result = _ := hresult
    rw [hafter]
    rcases hbound with hbound | ⟨-,hown⟩
    · exact Store.sameNames_define hbound
    · exact absurd hown hother
  | none =>
    rcases assign_of_global h hmakes hvalue hentry with ⟨hbound,hresult⟩ | ⟨-,hresult⟩
    · have hafter : result = _ := hresult
      rw [hafter]
      exact Store.sameNames_define hbound
    · have hafter : result = _ := hresult
      rw [hafter]
      exact .refl _

/-- A local variable is declared and then given another value. -/
theorem assign_sameNames_local :
    let s := Scriptlet.Session.start {}
    let r : Request := ⟨utf8 "\x7b var a = 1; a = 2; \x7d",9,.empty⟩
    let ctx : Context := ⟨(s.perform r).2.table,r.processVars⟩
    ∃ n name value m m' x holder, s.Makes r ⟨n + 1,.expr (.assign name value),m⟩ ∧
      Scriptlet.Eval.expr ctx n value m = .ok x m' ∧ ctx.table[name.index]? = some 0 ∧
      m'.memory.store.ancestor? m'.memory.scope 0 = some holder ∧
      Scriptlet.Eval.expr ctx (n + 1) (.assign name value) m =
        .ok x (m'.writing holder name.lexeme x) := by
  intro s r ctx
  have hload : (load 0 r.source).diagnostics = [] := by decide +kernel
  have hclean : (resolve s.table (load 0 r.source).statements).faults = [] := by decide +kernel
  have hstatements : (load 0 r.source).statements =
      [.block [.varDecl ⟨.identifier,utf8 "a",1,2⟩ (some (.literal (.int 1))),
        .expression (.assign ⟨.identifier,utf8 "a",1,6⟩ (.literal (.int 2)))]] := by
    with_unfolding_all rfl
  have hmakes : s.Makes r ⟨5,.expr (.assign ⟨.identifier,utf8 "a",1,6⟩ (.literal (.int 2))),_⟩ :=
    ⟨hload,hclean,[],_,[],_,hstatements,rfl,
      .call (.call (.call (.call .self (.block rfl)) (.restStmts rfl)) .firstStmt) .expression⟩
  have hentry : ctx.table[6]? = some 0 := by decide +kernel
  obtain ⟨hlocal,-⟩ := assign_sameNames {} [] r 4 _ _ _ _ (.scalar (.int 2)) hmakes rfl
  obtain ⟨holder,hholder,hresult,-⟩ := hlocal 0 hentry
  exact ⟨4,_,_,_,_,_,holder,hmakes,rfl,hentry,hholder,hresult⟩

/-- In its own initializer a local variable is bound by an assignment to it. -/
theorem assign_creates_in_own_initializer :
    let s := Scriptlet.Session.start {}
    let r : Request := ⟨utf8 "\x7b var a = (a = 1); print a; \x7d",9,.empty⟩
    let ctx : Context := ⟨(s.perform r).2.table,r.processVars⟩
    (s.perform r).1.ending = .completed ∧
      ∃ n name value m m' x holder, s.Makes r ⟨n + 1,.expr (.assign name value),m⟩ ∧
        Scriptlet.Eval.expr ctx n value m = .ok x m' ∧ ctx.table[name.index]? = some 0 ∧
        m'.memory.store.ancestor? m'.memory.scope 0 = some holder ∧
        m'.memory.store.bound? holder name.lexeme = none ∧
        ∃ m'', Scriptlet.Eval.expr ctx (n + 1) (.assign name value) m = .ok x m'' ∧
          (m''.memory.store.bound? holder name.lexeme).isSome := by
  intro s r ctx
  have hload : (load 0 r.source).diagnostics = [] := by decide +kernel
  have hclean : (resolve s.table (load 0 r.source).statements).faults = [] := by decide +kernel
  have hstatements : (load 0 r.source).statements =
      [.block [.varDecl ⟨.identifier,utf8 "a",1,2⟩
          (some (.grouping (.assign ⟨.identifier,utf8 "a",1,5⟩ (.literal (.int 1))))),
        .print (.variable_ ⟨.identifier,utf8 "a",1,11⟩)]] := by
    with_unfolding_all rfl
  let m : Scriptlet.Machine :=
    { s.machine with memory := ⟨s.machine.memory.store.push ⟨some globalScope,.empty⟩,1⟩ }
  have hmakes : s.Makes r ⟨5,.expr (.assign ⟨.identifier,utf8 "a",1,5⟩ (.literal (.int 1))),m⟩ :=
    ⟨hload,hclean,[],_,[],_,hstatements,rfl,
      .call (.call (.call (.call .self (.block rfl)) .firstStmt) .initial) .grouping⟩
  have hentry : ctx.table[5]? = some 0 := by decide +kernel
  have hholder : Scriptlet.Eval.holder ctx ⟨.identifier,utf8 "a",1,5⟩ m = .ok 1 m :=
    Eval.holder_of_ancestor hentry rfl
  exact ⟨by decide +kernel,4,_,_,m,m,_,1,hmakes,rfl,hentry,rfl,rfl,_,Eval.expr_assign rfl hholder,rfl⟩

end Lexical

end Scriptlet
