import Scriptlet.Session

/-! # Histories of a session

A history is a list of sources that one session runs one after the other. How a single run goes is
said once, in three cases: the source can not be read, its names can not be resolved, or its
statements are evaluated.
-/
namespace Scriptlet

/-- Statements are run in order, each with the whole budget. -/
theorem Eval.program_append (ctx : Context) (budget : Nat) (ss ss' : List Stmt) :
    Eval.program ctx budget (ss ++ ss') =
      (do Eval.program ctx budget ss; Eval.program ctx budget ss') := by
  induction ss with
  | nil => simp [Eval.program]
  | cons s rest ih => simp [Eval.program,ih]

/-- A source to run, the budget for each of its statements, and the variables of the process. -/
structure Request where
  source : Bytes
  budget : Nat
  processVars : NameMap Bytes := .empty

/-- What a user sees of a run: how it ended, the diagnostics and the printed lines. -/
structure Answer where
  ending : Ending
  diagnostics : List Diagnostic
  printed : List Bytes
  deriving DecidableEq, Repr

def Report.answer (r : Report) : Answer := ⟨r.ending,r.diagnostics,r.printed⟩

/-- An evaluation does not end with a rejection. -/
theorem Report.ending_ofResult_ne_rejected {α : Type} (result : EStateM.Result Abort Machine α) :
    (Report.ofResult result).ending ≠ .rejected := by
  rcases result with _ | ⟨_ | _ | _,_⟩ <;> exact Ending.noConfusion

namespace Session

def perform (s : Session) (r : Request) : Report × Session :=
  s.run r.budget r.processVars r.source

/-- The session after a history. -/
def after (s : Session) : List Request → Session
  | [] => s
  | r :: rest => (s.perform r).2.after rest

/-- What a user sees of a history. -/
def answers (s : Session) : List Request → List Answer
  | [] => []
  | r :: rest => (s.perform r).1.answer :: (s.perform r).2.answers rest

/-- The result of evaluating the statements of a source whose names are resolved. -/
def evaluation (s : Session) (r : Request) : EStateM.Result Abort Machine Unit :=
  let loaded := load s.nextIndex r.source
  Eval.program ⟨(resolve s.table loaded.statements).table,r.processVars⟩ r.budget loaded.statements
    { s.machine with printed := [] }

variable {s : Session} {r : Request}

theorem perform_of_unreadable (h : (load s.nextIndex r.source).diagnostics ≠ []) :
    (s.perform r).1.answer = ⟨.rejected,(load s.nextIndex r.source).diagnostics,[]⟩ ∧
      (s.perform r).2 = s.past (load s.nextIndex r.source).tokens := by
  simp [perform,run,h,Report.answer]

theorem perform_of_unresolved (h : (load s.nextIndex r.source).diagnostics = [])
    (hfaults : (resolve s.table (load s.nextIndex r.source).statements).faults ≠ []) :
    (s.perform r).1.answer = ⟨.rejected,
        (resolve s.table (load s.nextIndex r.source).statements).faults.map .ofStatic,[]⟩ ∧
      (s.perform r).2 = { s.past (load s.nextIndex r.source).tokens with
        table := (resolve s.table (load s.nextIndex r.source).statements).table } := by
  have hmap : (resolve s.table (load s.nextIndex r.source).statements).faults.map
      Diagnostic.ofStatic ≠ [] := by simpa using hfaults
  simp [perform,run,h,past,hmap,Report.answer]

theorem perform_of_resolved (h : (load s.nextIndex r.source).diagnostics = [])
    (hfaults : (resolve s.table (load s.nextIndex r.source).statements).faults = []) :
    (s.perform r).1.answer = (Report.ofResult (s.evaluation r)).answer ∧
      (s.perform r).2 = { s.past (load s.nextIndex r.source).tokens with
        table := (resolve s.table (load s.nextIndex r.source).statements).table
        machine := machineAfter (s.evaluation r) } := by
  simp [perform,run,evaluate,h,past,hfaults,Report.answer,evaluation]

/-- A property of sessions that every run keeps holds after every history. -/
theorem after_induction {P : Session → Prop} (hstart : P s)
    (hstep : ∀ s r, P s → P (s.perform r).2) (history : List Request) : P (s.after history) := by
  induction history generalizing s with
  | nil => exact hstart
  | cons r rest ih => exact ih (hstep s r hstart)

end Session

end Scriptlet
