import Scriptlet.Proofs.Lexical.Simulation
import Scriptlet.Proofs.Relocation.Resolution
import Scriptlet.Proofs.Scoping.Sources

/-! # Sessions with lexical scope

A session that runs its sources with the lexical evaluator. It resolves a source only to learn of
its static errors, and forgets the distances. Whatever sources are run, with errors or without, both
kinds of session give the same answers.
-/
namespace Scriptlet.Lexical

structure Session where
  machine : Machine
  nextIndex : Nat := 0

namespace Session

def start (clock : Clock) : Session := { machine := .start clock }

def perform (s : Session) (r : Request) : Answer × Session :=
  let loaded := load s.nextIndex r.source
  let s := { s with nextIndex := s.nextIndex + loaded.tokens.length }
  let faults := (resolve ∅ loaded.statements).faults
  if loaded.diagnostics ≠ [] then (⟨.rejected,loaded.diagnostics,[]⟩,s)
  else if faults ≠ [] then (⟨.rejected,faults.map .ofStatic,[]⟩,s)
  else
    let result := Eval.program r.processVars r.budget loaded.statements { s.machine with printed := [] }
    ((Report.ofResult result).answer,{ s with machine := machineAfter result })

/-- What a user sees of a history. -/
def answers (s : Session) : List Request → List Answer
  | [] => []
  | r :: rest => (s.perform r).1 :: (s.perform r).2.answers rest

end Session

/-! ## Linked sessions -/

/-- The machines are linked, and the table has entries only for places that are taken. -/
structure Agrees (s : Scriptlet.Session) (t : Session) : Prop where
  nextIndex : t.nextIndex = s.nextIndex
  free : s.PlacesFree
  linked : ∃ w, Linked ⟨s.table,s.nextIndex⟩ w globalScope s.machine t.machine

/-- All there is at first are the built-in functions. -/
theorem linked_start (p : Places) (clock : Clock) :
    ∃ w, Linked p w globalScope (.start clock) (.start clock) := by
  let w : World := ⟨(Scriptlet.Machine.start clock).memory.store,[]⟩
  have hglobals : ∀ name, Option.Rel (SameValue p w)
      ((NameMap.ofList (Builtin.all.map fun b => (b.name,Value.builtin b))).get? name)
      ((NameMap.ofList (Builtin.all.map fun b => (b.name,Value.builtin b))).get? name) :=
    rel_insertAll Builtin.all Builtin.name _ _ (fun b _ => .builtin b) fun _ => .none
  refine ⟨w,?_⟩
  exact {
    current := rfl
    store := rfl
    root := ⟨_,rfl⟩
    globals := hglobals
    distinct := .nil
    nested := by simp [w]
    owned := fun id name hid hbound => by
      obtain ⟨value,hvalue⟩ := Option.isSome_iff_exists.1 hbound
      have hlt : id < 1 := by
        obtain ⟨env,henv,-⟩ := Option.bind_eq_some_iff.1 hvalue
        exact Store.lt_size_of_get? henv
      exact absurd (Nat.lt_one_iff.1 hlt) hid
    size := rfl
    cells := by simp [w]
    objects := rfl
    fields := fun _ _ => .none
    fresh := rfl
    clock := rfl
    printed := rfl }

theorem agrees_start (clock : Clock) : Agrees (.start clock) (.start clock) where
  nextIndex := rfl
  free := Scriptlet.Session.placesFree_start clock
  linked := linked_start _ clock

theorem ofResult_of_simulates {p : Places} {w : World} {current : Option EnvId} {scope : EnvId}
    {α β : Type} {Q : World → α → β → Prop} {r : EStateM.Result Abort Scriptlet.Machine α}
    {r' : EStateM.Result Abort Machine β} (h : Simulates p w current scope Q r r') :
    Report.ofResult r' = Report.ofResult r ∧
      ∃ w', Linked p w' scope (machineAfter r) (machineAfter r') := by
  cases r with
  | ok a m =>
    cases r' with
    | ok b l =>
      obtain ⟨w',-,hlinked,-⟩ := h
      refine ⟨?_,w',hlinked⟩
      simp [Report.ofResult,Ending.ofResult,machineAfter,hlinked.printed]
    | error e l => exact h.elim
  | error e m =>
    cases r' with
    | ok b l => exact h.elim
    | error e' l =>
      obtain ⟨rfl,-,w',-,hlinked⟩ := h
      refine ⟨?_,w',hlinked⟩
      cases e' <;> simp [Report.ofResult,Ending.ofResult,machineAfter,hlinked.printed]

section

variable {s : Scriptlet.Session} {t : Session} {r : Request}

/-- Places of the next source are not used yet. -/
theorem Agrees.fresh (h : Agrees s t) (hload : (load s.nextIndex r.source).diagnostics = []) :
    Resolver.Fresh (Stmt.allRefs (load s.nextIndex r.source).statements) s.table where
  distinct := (sound_load hload).distinct
  unused x hx := h.free x.index ((sound_load hload).range x hx).1

/-- Resolving a source leaves the entries of earlier ones as they are. -/
theorem later_resolve (hload : (load s.nextIndex r.source).diagnostics = []) :
    Places.Later ⟨s.table,s.nextIndex⟩
      ⟨(resolve s.table (load s.nextIndex r.source).statements).table,
        s.nextIndex + (load s.nextIndex r.source).tokens.length⟩ where
  limit := Nat.le_add_right _ _
  table _ hi := resolve_load_getElem? s.table hload (.inl hi)

/-- Evaluating a resolved source gives the same on both machines. -/
theorem Agrees.evaluation (h : Agrees s t) (hload : (load s.nextIndex r.source).diagnostics = [])
    (hclean : (resolve s.table (load s.nextIndex r.source).statements).faults = []) :
    ∃ w, Simulates ⟨(resolve s.table (load s.nextIndex r.source).statements).table,
        s.nextIndex + (load s.nextIndex r.source).tokens.length⟩ w (some globalScope) globalScope
      (fun _ _ _ => True) (s.evaluation r)
      (Eval.program r.processVars r.budget (load s.nextIndex r.source).statements
        { t.machine with printed := [] }) := by
  obtain ⟨w,hlinked⟩ := h.linked
  have hsound := sound_load hload
  exact ⟨w,simulates_program r.processVars r.budget _ (hlinked.later (later_resolve hload)).clear
    (allScoped_of_resolve hsound.regular (h.fresh hload) hclean) fun x hx => (hsound.range x hx).2⟩

/-- A run gives the same answer in both sessions, and keeps them linked. -/
theorem Agrees.perform (h : Agrees s t) (r : Request) :
    (t.perform r).1 = (s.perform r).1.answer ∧ Agrees (s.perform r).2 (t.perform r).2 := by
  obtain ⟨w,hlinked⟩ := h.linked
  have hfree := h.free.perform r
  by_cases hload : (load s.nextIndex r.source).diagnostics = []
  · have hresolve : (resolve ∅ (load s.nextIndex r.source).statements).faults =
        (resolve s.table (load s.nextIndex r.source).statements).faults :=
      resolve_faults s.table ∅ (isProgram_of_load hload)
    have hlater := hlinked.later (later_resolve hload)
    by_cases hclean : (resolve s.table (load s.nextIndex r.source).statements).faults = []
    · obtain ⟨hanswer,hafter⟩ := Session.perform_of_resolved hload hclean
      obtain ⟨w',hsim⟩ := h.evaluation hload hclean
      obtain ⟨hreport,hlinked'⟩ := ofResult_of_simulates hsim
      rw [hafter] at hfree
      rw [hanswer,hafter]
      simp only [Session.perform,h.nextIndex,hload,hresolve,hclean,ne_eq,not_true_eq_false,if_false]
      exact ⟨congrArg Report.answer hreport,rfl,hfree,hlinked'⟩
    · obtain ⟨hanswer,hafter⟩ := Session.perform_of_unresolved hload hclean
      rw [hafter] at hfree
      rw [hanswer,hafter]
      simp only [Session.perform,h.nextIndex,hload,hresolve,hclean,ne_eq,not_true_eq_false,
        not_false_eq_true,if_false,if_true]
      exact ⟨trivial,rfl,hfree,w,hlater⟩
  · obtain ⟨hanswer,hafter⟩ := Session.perform_of_unreadable hload
    rw [hafter] at hfree
    rw [hanswer,hafter]
    simp only [Session.perform,h.nextIndex,hload,ne_eq,not_false_eq_true,if_true]
    exact ⟨trivial,rfl,hfree,w,hlinked.later ⟨Nat.le_add_right _ _,fun _ _ => rfl⟩⟩

theorem Agrees.answers (h : Agrees s t) (history : List Request) :
    t.answers history = s.answers history := by
  induction history generalizing s t with
  | nil => rfl
  | cons r rest ih =>
    obtain ⟨hanswer,hnext⟩ := h.perform r
    rw [Session.answers,Scriptlet.Session.answers,hanswer,ih hnext]

end

/-- Distances implement lexical scope: for every history of sources, each run ends in the same way,
reports the same diagnostics and prints the same lines as with the lexical evaluator. -/
theorem answers_eq_lexical (clock : Clock) (history : List Request) :
    (Scriptlet.Session.start clock).answers history = (Session.start clock).answers history :=
  ((agrees_start clock).answers history).symm

end Scriptlet.Lexical
