import Scriptlet.Proofs.Lexical.Distances
import Scriptlet.Proofs.Relocation.Identity

/-! # How a run can end

Four stages can report something, and all that they report is put in one list. Still a run that ends
has one of four shapes only: all is well, the source can not be read, its names can not be resolved,
or one error ends the evaluation. A rejected source has no effect. An error keeps what was done up to
it, and the statements that follow might as well not be there.
-/
namespace Scriptlet

/-! ## Verdicts -/

inductive Verdict where
  | completed
  | unreadable
  | unresolved
  | failed
  deriving DecidableEq, Repr

/-- What a user sees of a run with a verdict. -/
def Verdict.Fits (a : Answer) : Verdict → Prop
  | .completed => a.ending = .completed ∧ a.diagnostics = []
  | .unreadable => a.ending = .rejected ∧ a.diagnostics ≠ [] ∧
      ∃ lexical syntactic, a.diagnostics = lexical ++ syntactic ∧
        (∀ d ∈ lexical, d.stage = .lexical) ∧ ∀ d ∈ syntactic, d.stage = .syntactic
  | .unresolved => a.ending = .rejected ∧ a.diagnostics ≠ [] ∧ ∀ d ∈ a.diagnostics, d.stage = .static
  | .failed => a.ending = .failed ∧ ∃ d, a.diagnostics = [d] ∧ d.stage = .runtime

/-- What the scanner and the parser report is not what the resolver reports. -/
theorem Verdict.not_unreadable_and_unresolved {a : Answer} (h : Verdict.unreadable.Fits a)
    (h' : Verdict.unresolved.Fits a) : False := by
  obtain ⟨-,hne,lexical,syntactic,hsplit,hlexical,hsyntactic⟩ := h
  obtain ⟨d,hd⟩ := List.exists_mem_of_ne_nil _ hne
  have hstatic : d.stage = .static := h'.2.2 d hd
  rw [hsplit] at hd
  rcases List.mem_append.1 hd with hd | hd
  · have hstage := hlexical d hd
    rw [hstatic] at hstage
    cases hstage
  · have hstage := hsyntactic d hd
    rw [hstatic] at hstage
    cases hstage

/-- No two verdicts fit one answer. -/
theorem Verdict.Fits.unique {a : Answer} {v v' : Verdict} (h : v.Fits a) (h' : v'.Fits a) :
    v = v' := by
  have hending : ∀ {e e' : Ending}, a.ending = e → a.ending = e' → e = e' :=
    fun he he' => he.symm.trans he'
  cases v with
  | completed =>
    cases v' with
    | completed => rfl
    | unreadable | unresolved | failed => cases hending h.1 h'.1
  | unreadable =>
    cases v' with
    | unreadable => rfl
    | unresolved => exact (not_unreadable_and_unresolved h h').elim
    | completed | failed => cases hending h.1 h'.1
  | unresolved =>
    cases v' with
    | unresolved => rfl
    | unreadable => exact (not_unreadable_and_unresolved h' h).elim
    | completed | failed => cases hending h.1 h'.1
  | failed =>
    cases v' with
    | failed => rfl
    | completed | unreadable | unresolved => cases hending h.1 h'.1

/-! ## Errors in a program -/

section

variable {ctx : Context} {budget : Nat} {m m' : Machine} {e : Abort}

/-- A program that ends with an error has a first statement that does. -/
theorem Eval.exists_of_program_error {ss : List Stmt} (h : Eval.program ctx budget ss m = .error e m') :
    ∃ before failing rest m₁, ss = before ++ failing :: rest ∧
      Eval.program ctx budget before m = .ok () m₁ ∧
      Eval.stmt ctx budget failing m₁ = .error e m' := by
  induction ss generalizing m with
  | nil => cases h
  | cons s rest ih =>
    cases hs : Eval.stmt ctx budget s m with
    | error e₁ m₁ =>
      have hprogram : Eval.program ctx budget (s :: rest) m = .error e₁ m₁ := by
        simp [Eval.program,Bind.bind,EStateM.bind,hs]
      rw [h] at hprogram
      cases hprogram
      exact ⟨[],s,rest,m,rfl,rfl,hs⟩
    | ok outcome m₁ =>
      have hprogram : ∀ ss, Eval.program ctx budget (s :: ss) m = Eval.program ctx budget ss m₁ := by
        intro ss
        simp [Eval.program,Bind.bind,EStateM.bind,hs]
      rw [hprogram] at h
      obtain ⟨before,failing,rest',m₂,rfl,hbefore,hfailing⟩ := ih h
      exact ⟨s :: before,failing,rest',m₂,rfl,(hprogram before).trans hbefore,hfailing⟩

/-- Nothing that follows on an error makes a difference. -/
theorem Eval.program_of_stmt_error {before : List Stmt} {failing : Stmt} {m₁ : Machine}
    (hbefore : Eval.program ctx budget before m = .ok () m₁)
    (hfailing : Eval.stmt ctx budget failing m₁ = .error e m') (others : List Stmt) :
    Eval.program ctx budget (before ++ failing :: others) m = .error e m' := by
  rw [Eval.program_append]
  simp only [Bind.bind,EStateM.bind,hbefore,Eval.program,hfailing]

end

/-! ## Runs -/

theorem stage_ofParse (endLine : Nat) (fault : ParseFault) :
    (Diagnostic.ofParse endLine fault).stage = .syntactic := by
  unfold Diagnostic.ofParse
  split <;> rfl

namespace Session

variable {s : Session} {r : Request}

theorem unreadable_fits (h : (load s.nextIndex r.source).diagnostics ≠ []) :
    Verdict.unreadable.Fits (s.perform r).1.answer := by
  rw [(perform_of_unreadable h).1]
  refine ⟨rfl,h,_,_,rfl,?_,?_⟩
  · intro d hd
    obtain ⟨fault,-,rfl⟩ := List.mem_map.1 hd
    rfl
  · intro d hd
    obtain ⟨fault,-,rfl⟩ := List.mem_map.1 hd
    exact stage_ofParse _ fault

theorem unresolved_fits (h : (load s.nextIndex r.source).diagnostics = [])
    (hfaults : (resolve s.table (load s.nextIndex r.source).statements).faults ≠ []) :
    Verdict.unresolved.Fits (s.perform r).1.answer := by
  rw [(perform_of_unresolved h hfaults).1]
  refine ⟨rfl,?_,?_⟩
  · intro hnil
    exact hfaults (List.map_eq_nil_iff.1 hnil)
  · intro d hd
    obtain ⟨fault,-,rfl⟩ := List.mem_map.1 hd
    rfl

/-- A run that ends and does not lose its way has a verdict. -/
theorem exists_fits (hlost : (s.perform r).1.answer.ending ≠ .lost)
    (hends : (s.perform r).1.answer.ending ≠ .exhausted) :
    ∃ v : Verdict, v.Fits (s.perform r).1.answer := by
  by_cases hload : (load s.nextIndex r.source).diagnostics = []
  · by_cases hclean : (resolve s.table (load s.nextIndex r.source).statements).faults = []
    · rw [(perform_of_resolved hload hclean).1] at hlost hends ⊢
      cases hresult : s.evaluation r with
      | ok _ m => exact ⟨.completed,rfl,rfl⟩
      | error e m =>
        rw [hresult] at hlost hends
        cases e with
        | fault error token => exact ⟨.failed,rfl,_,rfl,rfl⟩
        | lost => exact absurd rfl hlost
        | exhausted => exact absurd rfl hends
    · exact ⟨.unresolved,unresolved_fits hload hclean⟩
  · exact ⟨.unreadable,unreadable_fits hload⟩

theorem rejected_has_no_effect (h : (s.perform r).1.ending = .rejected) :
    (s.perform r).1.printed = [] ∧ (s.perform r).2.machine = s.machine := by
  have hprinted : (s.perform r).1.printed = (s.perform r).1.answer.printed := rfl
  by_cases hload : (load s.nextIndex r.source).diagnostics = []
  · by_cases hclean : (resolve s.table (load s.nextIndex r.source).statements).faults = []
    · have hending : (s.perform r).1.answer.ending = .rejected := h
      rw [(perform_of_resolved hload hclean).1] at hending
      exact absurd hending (Report.ending_ofResult_ne_rejected _)
    · rw [hprinted,(perform_of_unresolved hload hclean).1,(perform_of_unresolved hload hclean).2]
      exact ⟨rfl,rfl⟩
  · rw [hprinted,(perform_of_unreadable hload).1,(perform_of_unreadable hload).2]
    exact ⟨rfl,rfl⟩

/-- A run that fails is an evaluation that ends with an error. -/
theorem evaluation_of_failed (h : (s.perform r).1.ending = .failed) :
    ∃ error token m, s.evaluation r = .error (.fault error token) m ∧
      (s.perform r).1.answer = ⟨.failed,[⟨.runtime,token.line,[],error.message⟩],m.printed.reverse⟩ ∧
      (s.perform r).2.machine = m ∧
      (s.perform r).2.table = (resolve s.table (load s.nextIndex r.source).statements).table := by
  have hending : (s.perform r).1.answer.ending = .failed := h
  by_cases hload : (load s.nextIndex r.source).diagnostics = []
  · by_cases hclean : (resolve s.table (load s.nextIndex r.source).statements).faults = []
    · obtain ⟨hreport,hafter⟩ := perform_of_resolved hload hclean
      rw [hreport] at hending
      cases hresult : s.evaluation r with
      | ok _ m =>
        rw [hresult] at hending
        cases hending
      | error e m =>
        rw [hresult] at hending hreport hafter
        cases e with
        | fault error token =>
          exact ⟨error,token,m,rfl,hreport,by rw [hafter]; rfl,by rw [hafter]⟩
        | lost => cases hending
        | exhausted => cases hending
    · rw [(perform_of_unresolved hload hclean).1] at hending
      cases hending
  · rw [(perform_of_unreadable hload).1] at hending
    cases hending

/-- Status, diagnostics and output of a run that ends always agree. Exactly one verdict fits what the
user sees. A rejected source prints nothing and leaves the machine as it was. If the run fails, it has
printed what the statements before the first failing one print, and then what that one prints up to
its error; any other statements behind it would have given the same. -/
theorem exactly_one_verdict (clock : Clock) (calls : List Call) (r : Request) :
    let s := (start clock).afterCalls calls
    let report := (s.perform r).1
    let after := (s.perform r).2
    let ctx : Context := ⟨after.table,r.processVars⟩
    let cleared : Machine := { s.machine with printed := [] }
    report.ending ≠ .exhausted →
      (∃! v : Verdict, v.Fits report.answer) ∧
      (report.ending = .rejected → report.printed = [] ∧ after.machine = s.machine) ∧
      (report.ending = .failed → ∃ before failing rest m alone error token,
        (load s.nextIndex r.source).statements = before ++ failing :: rest ∧
        Eval.program ctx r.budget before cleared = .ok () m ∧
        Eval.stmt ctx r.budget failing { m with printed := [] } =
          .error (.fault error token) alone ∧
        report.diagnostics = [⟨.runtime,token.line,[],error.message⟩] ∧
        report.printed = m.printed.reverse ++ alone.printed.reverse ∧
        after.machine = { alone with printed := alone.printed ++ m.printed } ∧
        ∀ others, Eval.program ctx r.budget (before ++ failing :: others) cleared =
          .error (.fault error token) after.machine) := by
  intro s report after ctx cleared hends
  obtain ⟨t,hagrees⟩ := Lexical.exists_agrees_afterCalls clock calls
  obtain ⟨hlost,-⟩ := Lexical.other_perform hagrees r
  obtain ⟨v,hfits⟩ := exists_fits hlost hends
  refine ⟨⟨v,hfits,fun v' hfits' => hfits'.unique hfits⟩,rejected_has_no_effect,?_⟩
  intro hfailed
  obtain ⟨error,token,m',hresult,hanswer,hmachine,htable⟩ := evaluation_of_failed hfailed
  have hctx : ctx = ⟨(resolve s.table (load s.nextIndex r.source).statements).table,r.processVars⟩ :=
    congrArg (Context.mk · r.processVars) htable
  have hprogram : Eval.program ctx r.budget (load s.nextIndex r.source).statements cleared =
      .error (.fault error token) m' := by
    rw [hctx]
    exact hresult
  obtain ⟨before,failing,rest,m,hsplit,hbefore,hfailing⟩ := Eval.exists_of_program_error hprogram
  -- What the failing statement prints does not depend on the lines before.
  obtain ⟨alone,halone,rfl⟩ := Eval.stmt_error_earlier hfailing
  have hprinted : report.printed = (alone.printed ++ m.printed).reverse :=
    congrArg Answer.printed hanswer
  refine ⟨before,failing,rest,m,alone,error,token,hsplit,hbefore,halone,
    congrArg Answer.diagnostics hanswer,?_,hmachine,?_⟩
  · rw [hprinted,List.reverse_append]
  · intro others
    rw [Eval.program_of_stmt_error hbefore hfailing others]
    exact congrArg _ hmachine.symm

/-- The second of three statements fails after it has printed a line. -/
theorem exactly_one_verdict_failed :
    let s := start {}
    let r : Request := ⟨utf8 "print 1; \x7b print 2; print -nil; \x7d print 3;",9,.empty⟩
    let report := (s.perform r).1
    report.ending ≠ .exhausted ∧ report.printed = [utf8 "1",utf8 "2"] ∧
      (∃! v : Verdict, v.Fits report.answer) ∧
      ∃ before failing rest, ∃ m alone : Machine, ∃ (error : EvalError) (token : Token),
        (load s.nextIndex r.source).statements = before ++ failing :: rest ∧
        report.diagnostics = [⟨.runtime,token.line,[],error.message⟩] ∧
        report.printed = m.printed.reverse ++ alone.printed.reverse ∧
        (s.perform r).2.machine = { alone with printed := alone.printed ++ m.printed } := by
  intro s r report
  have hends : report.ending ≠ .exhausted := by decide +kernel
  have hfailed : report.ending = .failed := by decide +kernel
  obtain ⟨hverdict,-,hfails⟩ := exactly_one_verdict {} [] r hends
  obtain ⟨before,failing,rest,m,alone,error,token,hsplit,-,-,hdiagnostics,hprinted,hmachine,-⟩ :=
    hfails hfailed
  exact ⟨hends,by decide +kernel,hverdict,before,failing,rest,m,alone,error,token,hsplit,hdiagnostics,
    hprinted,hmachine⟩

end Session

end Scriptlet
