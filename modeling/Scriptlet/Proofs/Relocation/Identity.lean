import Scriptlet.Proofs.Relocation.Evaluation

/-! # Lines printed earlier

What was printed before makes no difference to a run. This is the case of a relocation that moves
nothing: trees and values stay as they are, and only the earlier lines are added.
-/
namespace Scriptlet

@[simp] theorem Relocation.move_identity (t : Token) : identity.move t = t := rfl

mutual

theorem Expr.relocate_identity : ∀ e : Expr, e.relocate .identity = e
  | .literal _ | .variable_ _ | .self _ | .superMethod _ _ => rfl
  | .grouping inner => by simp only [Expr.relocate,inner.relocate_identity]
  | .unary op token operand => by
    simp only [Expr.relocate,Relocation.move_identity,operand.relocate_identity]
  | .binary op token left right => by
    simp only [Expr.relocate,Relocation.move_identity,left.relocate_identity,right.relocate_identity]
  | .logical op left right => by
    simp only [Expr.relocate,left.relocate_identity,right.relocate_identity]
  | .assign name value => by
    simp only [Expr.relocate,Relocation.move_identity,value.relocate_identity]
  | .get object name => by
    simp only [Expr.relocate,Relocation.move_identity,object.relocate_identity]
  | .set object name value => by
    simp only [Expr.relocate,Relocation.move_identity,object.relocate_identity,value.relocate_identity]
  | .call callee paren arguments => by
    simp only [Expr.relocate,Relocation.move_identity,callee.relocate_identity,
      Expr.relocateAll_identity arguments]

theorem Expr.relocateAll_identity : ∀ es : List Expr, Expr.relocateAll .identity es = es
  | [] => rfl
  | e :: rest => by
    simp only [Expr.relocateAll,e.relocate_identity,Expr.relocateAll_identity rest]

end

theorem Expr.map_relocate_identity (e : Option Expr) : e.map (Expr.relocate .identity) = e := by
  cases e with
  | none => rfl
  | some e => exact congrArg some e.relocate_identity

mutual

theorem Stmt.relocate_identity : ∀ s : Stmt, s.relocate .identity = s
  | .expression value => by simp only [Stmt.relocate,value.relocate_identity]
  | .print value => by simp only [Stmt.relocate,value.relocate_identity]
  | .varDecl name initial => by
    simp only [Stmt.relocate,Relocation.move_identity,Expr.map_relocate_identity]
  | .block body => by simp only [Stmt.relocate,Stmt.relocateAll_identity body]
  | .ifElse condition thenBranch none => by
    simp only [Stmt.relocate,condition.relocate_identity,thenBranch.relocate_identity]
  | .ifElse condition thenBranch (some elseBranch) => by
    simp only [Stmt.relocate,condition.relocate_identity,thenBranch.relocate_identity,
      elseBranch.relocate_identity]
  | .while_ condition body => by
    simp only [Stmt.relocate,condition.relocate_identity,body.relocate_identity]
  | .return_ keyword value => by
    simp only [Stmt.relocate,Relocation.move_identity,Expr.map_relocate_identity]
  | .funDecl decl => by simp only [Stmt.relocate,decl.relocate_identity]
  | .classDecl name superclass methods => by
    rw [Stmt.relocate,FunctionDecl.relocateAll_identity methods]
    cases superclass <;> rfl

theorem Stmt.relocateAll_identity : ∀ ss : List Stmt, Stmt.relocateAll .identity ss = ss
  | [] => rfl
  | s :: rest => by
    simp only [Stmt.relocateAll,s.relocate_identity,Stmt.relocateAll_identity rest]

theorem FunctionDecl.relocate_identity : ∀ decl : FunctionDecl, decl.relocate .identity = decl
  | ⟨name,params,body⟩ => by
    have hparams : params.map Relocation.identity.move = params := List.map_id params
    simp only [FunctionDecl.relocate,Relocation.move_identity,hparams,Stmt.relocateAll_identity body]

theorem FunctionDecl.relocateAll_identity :
    ∀ decls : List FunctionDecl, FunctionDecl.relocateAll .identity decls = decls
  | [] => rfl
  | decl :: rest => by
    simp only [FunctionDecl.relocateAll,decl.relocate_identity,FunctionDecl.relocateAll_identity rest]

end

theorem NameMap.map_eq_self {α : Type} {f : α → α} (hf : ∀ a, f a = a) (m : NameMap α) :
    m.map f = m := by
  have hentry : (fun e : Bytes × α => (e.1,f e.2)) = id := by
    funext e
    rw [hf]
    rfl
  rw [NameMap.map,hentry,List.map_id]

theorem Function.relocate_identity (f : Function) : f.relocate .identity = f := by
  rw [Function.relocate,FunctionDecl.relocate_identity]

theorem ClassBody.relocate_identity (b : ClassBody) : b.relocate .identity = b := by
  rw [ClassBody.relocate,NameMap.map_eq_self Function.relocate_identity]

theorem Class.relocate_identity (c : Class) : c.relocate .identity = c := by
  have hbodies : ClassBody.relocate .identity = id := funext ClassBody.relocate_identity
  rw [Class.relocate,ClassBody.relocate_identity,hbodies,List.map_id]

theorem Value.relocate_identity (v : Value) : v.relocate .identity = v := by
  cases v with
  | scalar | builtin | uninitialized => rfl
  | function id f => exact congrArg (Value.function id) f.relocate_identity
  | class_ c => exact congrArg Value.class_ c.relocate_identity
  | object c id => exact congrArg (Value.object · id) c.relocate_identity

/-- Only the earlier lines are added. -/
theorem Machine.relocate_identity (m : Machine) (earlier : List Bytes) :
    m.relocate .identity earlier = { m with printed := m.printed ++ earlier } := by
  have hbindings : NameMap.map (Value.relocate .identity) = id :=
    funext (NameMap.map_eq_self Value.relocate_identity)
  have henvs : Env.relocate .identity = id := by
    funext env
    rw [Env.relocate,hbindings]
    rfl
  simp [Machine.relocate,Store.relocate,hbindings,henvs]

theorem Abort.relocate_identity (e : Abort) : e.relocate .identity = e := by
  cases e <;> rfl

/-- A statement that ends with an error ends with the same one after earlier lines, and adds its
lines to them. -/
theorem Eval.stmt_error_earlier {ctx : Context} {n : Nat} {s : Stmt} {m m' : Machine} {e : Abort}
    (h : Eval.stmt ctx n s m = .error e m') :
    ∃ alone, Eval.stmt ctx n s { m with printed := [] } = .error e alone ∧
      m' = { alone with printed := alone.printed ++ m.printed } := by
  have hctx : Carries .identity ctx ctx := ⟨fun _ => rfl,rfl⟩
  have hmoves := (Moving.all hctx m.printed n).stmt s { m with printed := [] }
  rw [Stmt.relocate_identity,Machine.relocate_identity] at hmoves
  have hsame : Eval.stmt ctx n s m = _ := hmoves
  rw [h] at hsame
  cases halone : Eval.stmt ctx n s { m with printed := [] } with
  | ok outcome alone =>
    rw [halone] at hsame
    cases hsame
  | error e' alone =>
    rw [halone,relocateResult,Abort.relocate_identity,Machine.relocate_identity] at hsame
    cases hsame
    exact ⟨alone,rfl,rfl⟩

end Scriptlet
