import Scriptlet.Proofs.Blame
import Scriptlet.Proofs.Pieces
import Scriptlet.Proofs.Verdicts

/-! # The sources that errors point at

A machine holds no tokens but those of the sources that were run, so the token of an error is one of
these. It need not be of the last source, as a function keeps the tokens of its declaration.
-/
namespace Scriptlet

/-! ## Tokens of a machine -/

/-- All tokens in the values of a machine are known: it does not notice that another one is moved. -/
def Machine.MadeOf (known : Token → Prop) (m : Machine) : Prop :=
  ∀ t, ¬known t → m.relocate (.down [t] 1) [] = m

namespace Machine.MadeOf

variable {known more : Token → Prop} {m : Machine}

theorem mono (h : m.MadeOf known) (hmore : ∀ t, known t → more t) : m.MadeOf more :=
  fun t ht => h t fun hknown => ht (hmore t hknown)

theorem clear (h : m.MadeOf known) : MadeOf known { m with printed := [] } := by
  intro t ht
  have hmoved : ({ m with printed := [] } : Machine).relocate (.down [t] 1) [] =
      { m.relocate (.down [t] 1) [] with printed := [] } := rfl
  rw [hmoved,h t ht]

section

variable {tokens : List Token} {ss : List Stmt}

/-- A program of known tokens does not notice that another one is moved. -/
theorem program (ctx : Context) (budget : Nat) (h : m.MadeOf known) (hss : Grammar.IsProgram tokens ss)
    (htokens : ∀ t ∈ tokens, known t) {t : Token} (ht : ¬known t) :
    Eval.program ctx budget ss m =
      relocateResult (.down [t] 1) [] id (Eval.program ctx budget ss m) := by
  have hctx : Carries (.down [t] 1) ctx ctx := ⟨fun x => by rw [Relocation.index_down],rfl⟩
  have hfixed : ∀ x ∈ tokens, (Relocation.down [t] 1).move x = x := by
    refine fun x hx => if_neg fun hmem => ht ?_
    obtain rfl : x = t := List.mem_singleton.1 hmem
    exact htokens x hx
  have hmoves := moves_program hctx [] budget ss m
  rwa [hss.relocateAll_eq _ hfixed,h t ht] at hmoves

variable {ctx : Context} {budget : Nat}

theorem machineAfter_program (h : m.MadeOf known) (hss : Grammar.IsProgram tokens ss)
    (htokens : ∀ t ∈ tokens, known t) : (machineAfter (Eval.program ctx budget ss m)).MadeOf known := by
  intro t ht
  have hresult := congrArg machineAfter (program ctx budget h hss htokens ht)
  rwa [machineAfter_relocate,eq_comm] at hresult

/-- The token of an error is known, since a moved one would be reported further down. -/
theorem known_of_fault (h : m.MadeOf known) (hss : Grammar.IsProgram tokens ss)
    (htokens : ∀ t ∈ tokens, known t) {error : EvalError} {token : Token} {m' : Machine}
    (hrun : Eval.program ctx budget ss m = .error (.fault error token) m') : known token := by
  by_contra hunknown
  have hmoved := program ctx budget h hss htokens hunknown
  rw [hrun] at hmoved
  simp only [relocateResult,Abort.relocate] at hmoved
  injection hmoved with habort
  injection habort with _ htoken
  have hline := congrArg Token.line htoken
  simp [Relocation.line_down] at hline

end

end Machine.MadeOf

theorem Machine.madeOf_start (clock : Clock) (known : Token → Prop) : (start clock).MadeOf known := by
  intro t _
  have hfixes : (Relocation.down [t] 1).Fixes 0 :=
    ⟨fun _ h => absurd h (Nat.not_lt_zero _),fun _ _ => Nat.zero_le _⟩
  exact below_start clock _ hfixes

/-! ## Tokens of a session -/

/-- Lines are counted from the first one on. -/
theorem line_of_mem_locate {line index : Nat} {parts : List Segment} {t : Token}
    (h : t ∈ (locate line index parts).tokens) : line ≤ t.line := by
  induction parts generalizing line index with
  | nil => cases h
  | cons s rest ih =>
    have hline : line ≤ line + newlines s.text := Nat.le_add_right _ _
    cases s with
    | token kind lexeme =>
      rcases List.mem_cons.1 h with rfl | h
      · exact hline
      · exact Nat.le_trans hline (ih h)
    | _ => exact Nat.le_trans hline (ih h)

namespace Session

/-- The token is one of a source that is run by one of the calls. -/
def Ran (s : Session) (calls : List Call) (t : Token) : Prop :=
  ∃ front r rest, calls = front ++ .run r :: rest ∧
    t ∈ (load (s.afterCalls front).nextIndex r.source).tokens

theorem Ran.line {s : Session} {calls : List Call} {t : Token} (h : s.Ran calls t) : 1 ≤ t.line := by
  obtain ⟨front,r,rest,-,ht⟩ := h
  exact line_of_mem_locate ht

theorem madeOf_perform {s : Session} {known : Token → Prop} (h : s.machine.MadeOf known) (r : Request)
    (hknown : ∀ t ∈ (load s.nextIndex r.source).tokens, known t) :
    (s.perform r).2.machine.MadeOf known := by
  by_cases hload : (load s.nextIndex r.source).diagnostics = []
  · by_cases hclean : (resolve s.table (load s.nextIndex r.source).statements).faults = []
    · rw [(perform_of_resolved hload hclean).2]
      exact h.clear.machineAfter_program (isProgram_of_load hload) hknown
    · rw [(perform_of_unresolved hload hclean).2]
      exact h
  · rw [(perform_of_unreadable hload).2]
    exact h

/-- A machine gets its tokens from the sources that are run. -/
theorem madeOf_afterCalls {s : Session} {known : Token → Prop} (h : s.machine.MadeOf known)
    (calls : List Call) :
    (s.afterCalls calls).machine.MadeOf fun t => known t ∨ s.Ran calls t := by
  induction calls generalizing s known with
  | nil => exact h.mono fun _ => .inl
  | cons c rest ih =>
    have hlater : ∀ t, (s.obey c).2.Ran rest t → s.Ran (c :: rest) t := by
      rintro t ⟨front,r,behind,rfl,ht⟩
      exact ⟨c :: front,r,behind,rfl,ht⟩
    cases c with
    | run r =>
      have hnow : (s.perform r).2.machine.MadeOf fun t =>
          known t ∨ t ∈ (load s.nextIndex r.source).tokens :=
        madeOf_perform (h.mono fun _ => .inl) r fun _ => .inr
      refine (ih hnow).mono ?_
      rintro t ((hknown | ht) | hran)
      · exact .inl hknown
      · exact .inr ⟨[],r,rest,rfl,ht⟩
      · exact .inr (hlater t hran)
    | showTree source =>
      have hnext : (s.obey (.showTree source)).2 = _ := showTree_snd source
      have hsame : (s.obey (.showTree source)).2.machine.MadeOf known := by
        rw [hnext]
        exact h
      exact (ih hsame).mono fun t => Or.imp_right (hlater t)

/-- The token of an error is one of the source that is run, or of an earlier one. -/
theorem ran_of_fault (clock : Clock) (before : List Call) {r : Request} {error : EvalError}
    {token : Token} {m : Machine} (hload :
      (load ((start clock).afterCalls before).nextIndex r.source).diagnostics = [])
    (h : ((start clock).afterCalls before).evaluation r = .error (.fault error token) m) :
    (start clock).Ran (before ++ [.run r]) token := by
  have hnone : (start clock).machine.MadeOf fun _ => False := Machine.madeOf_start clock _
  have hmade : ((start clock).afterCalls before).machine.MadeOf
      ((start clock).Ran (before ++ [.run r])) := by
    refine (madeOf_afterCalls hnone before).mono ?_
    rintro t (hfalse | ⟨front,r',rest,rfl,ht⟩)
    · exact hfalse.elim
    · exact ⟨front,r',rest ++ [.run r],by simp,ht⟩
  exact hmade.clear.known_of_fault (isProgram_of_load hload) (fun t ht => ⟨before,r,[],rfl,ht⟩) h

/-! ## Errors of a run -/

variable {s : Session} {r : Request}

theorem readable_of_failed (h : (s.perform r).1.ending = .failed) :
    (load s.nextIndex r.source).diagnostics = [] ∧
      (resolve s.table (load s.nextIndex r.source).statements).faults = [] := by
  have hending : (s.perform r).1.answer.ending = .failed := h
  have hload : (load s.nextIndex r.source).diagnostics = [] := by
    by_contra hload
    rw [(perform_of_unreadable hload).1] at hending
    cases hending
  refine ⟨hload,?_⟩
  by_contra hclean
  rw [(perform_of_unresolved hload hclean).1] at hending
  cases hending

/-- A run that fails has a statement that does. -/
theorem exists_failing_statement (h : (s.perform r).1.ending = .failed) :
    ∃ error token v, s.Makes r v ∧ v.task.IsNode ∧
      v.Fails ⟨(s.perform r).2.table,r.processVars⟩ (.fault error token) := by
  obtain ⟨error,token,m,hresult,-,-,htable⟩ := evaluation_of_failed h
  obtain ⟨hload,hclean⟩ := readable_of_failed h
  obtain ⟨before,failing,rest,m₁,hsplit,hbefore,hfailing⟩ := Eval.exists_of_program_error hresult
  refine ⟨error,token,⟨r.budget,.stmt failing,m₁⟩,?_,trivial,m,?_⟩
  · exact ⟨hload,hclean,before,failing,rest,m₁,hsplit,hbefore,.self⟩
  · rw [htable]
    exact hfailing

/-- What a failing visit does to its run. -/
theorem Makes.diagnostics {v : Visit} {error : EvalError} {token : Token} (h : s.Makes r v)
    (hv : v.Fails ⟨(s.perform r).2.table,r.processVars⟩ (.fault error token)) :
    (s.perform r).1.ending = .failed ∧
      (s.perform r).1.diagnostics = [⟨.runtime,token.line,[],error.message⟩] := by
  obtain ⟨m,hresult⟩ := h.fails hv
  have hanswer := (perform_of_resolved h.1 h.2.1).1
  rw [hresult] at hanswer
  exact ⟨congrArg Answer.ending hanswer,congrArg Answer.diagnostics hanswer⟩

/-- Runtime errors point at sources. A run that fails reports the line of one token, of a source that
was run, and some node fails with this error. Whatever node fails while an accepted source is run, at
any depth of calls: its error is tied to a token of the innermost node that fails, and is the same
from there up to the report. Only a budget that is used up has no token. -/
theorem runtime_errors_point_at_sources (clock : Clock) (before : List Call) (r : Request) :
    let s := (start clock).afterCalls before
    let report := (s.perform r).1
    let ctx : Context := ⟨(s.perform r).2.table,r.processVars⟩
    (report.ending = .failed → ∃ error token v,
      report.diagnostics = [⟨.runtime,token.line,[],error.message⟩] ∧
      (start clock).Ran (before ++ [.run r]) token ∧ 1 ≤ token.line ∧
      s.Makes r v ∧ v.task.IsNode ∧ v.Fails ctx (.fault error token)) ∧
    ∀ v, s.Makes r v → v.task.IsNode → ∀ e, v.Fails ctx e → e ≠ .exhausted →
      ∃ error token w, e = .fault error token ∧
        report.ending = .failed ∧ report.diagnostics = [⟨.runtime,token.line,[],error.message⟩] ∧
        (start clock).Ran (before ++ [.run r]) token ∧ 1 ≤ token.line ∧
        Visit.FailsAt ctx v w error token := by
  intro s report ctx
  have hpoints : ∀ {v error token}, s.Makes r v → v.Fails ctx (.fault error token) →
      report.ending = .failed ∧ report.diagnostics = [⟨.runtime,token.line,[],error.message⟩] ∧
      (start clock).Ran (before ++ [.run r]) token ∧ 1 ≤ token.line := by
    intro v error token hmakes hfails
    obtain ⟨m,hresult⟩ := hmakes.fails hfails
    obtain ⟨hending,hdiagnostics⟩ := hmakes.diagnostics hfails
    have hran := ran_of_fault clock before hmakes.1 hresult
    exact ⟨hending,hdiagnostics,hran,hran.line⟩
  constructor
  · intro hfailed
    obtain ⟨error,token,v,hmakes,hnode,hfails⟩ := exists_failing_statement hfailed
    obtain ⟨-,hdiagnostics,hran,hline⟩ := hpoints hmakes hfails
    exact ⟨error,token,v,hdiagnostics,hran,hline,hmakes,hnode,hfails⟩
  · intro v hmakes hnode e hfails hends
    obtain ⟨t,hagrees⟩ := Lexical.exists_agrees_afterCalls clock before
    cases e with
    | lost => exact absurd hfails (Lexical.not_lost_of_makes hagrees hmakes)
    | exhausted => exact absurd rfl hends
    | fault error token =>
      obtain ⟨hending,hdiagnostics,hran,hline⟩ := hpoints hmakes hfails
      obtain ⟨w,hat⟩ := hfails.exists_failsAt hnode
      exact ⟨error,token,w,rfl,hending,hdiagnostics,hran,hline,hat⟩

/-- An initializer of an earlier source calls a built-in function with a wrong argument. -/
example :
    let s := (start {}).afterCalls [.run ⟨utf8 "class A \x7b\n  init() \x7b env(1); \x7d\n\x7d",20,.empty⟩]
    (s.perform ⟨utf8 "A();",20,.empty⟩).1.diagnostics.map Diagnostic.line = [2] := by
  decide +kernel

end Session

end Scriptlet
