import Scriptlet.Proofs.Histories

/-! # Calls of a session

A session runs sources and shows the trees of sources. Showing a tree takes the places of its tokens
and changes nothing else, as does a run whose source can not be read. So what every run keeps, and
what can do with later places, holds after all calls.
-/
namespace Scriptlet

namespace Session

/-- What a session can be asked to do. -/
inductive Call where
  | run (r : Request)
  | showTree (source : Bytes)

def obey (s : Session) : Call → Report × Session
  | .run r => s.perform r
  | .showTree source => s.showTree source

/-- The session after some calls. -/
def afterCalls (s : Session) : List Call → Session
  | [] => s
  | c :: rest => (s.obey c).2.afterCalls rest

/-- Each call with what a user sees of it. -/
def transcript (s : Session) : List Call → List (Call × Answer)
  | [] => []
  | c :: rest => (c,(s.obey c).1.answer) :: (s.obey c).2.transcript rest

variable {s : Session}

theorem showTree_snd (source : Bytes) :
    (s.showTree source).2 = s.past (load s.nextIndex source).tokens := by
  simp only [showTree]
  split <;> rfl

/-- A property of sessions that every run keeps, and that does not mind later places, holds after
all calls. -/
theorem afterCalls_induction {P : Session → Prop} (hstart : P s)
    (hrun : ∀ s r, P s → P (s.perform r).2)
    (hpast : ∀ s source, P s → P (s.past (load s.nextIndex source).tokens)) (calls : List Call) :
    P (s.afterCalls calls) := by
  induction calls generalizing s with
  | nil => exact hstart
  | cons c rest ih =>
    apply ih
    cases c with
    | run r => exact hrun s r hstart
    | showTree source =>
      have hnext : (s.obey (.showTree source)).2 = _ := showTree_snd source
      rw [hnext]
      exact hpast s source hstart

end Session

end Scriptlet
