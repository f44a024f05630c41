import Scriptlet.Proofs.Grammar.Reading

/-! # How a run of the parser ends

With a budget for the tokens that are left, a statement is read or skipped and takes at least one
token, and the whole program is read up to the end.
-/
namespace Scriptlet

namespace Parse

open Grammar

variable {n : Nat} {c : Cursor}

theorem recovering_ne_failed {p : Parse Stmt} {d : Cursor} : recovering p c ≠ .error .failed d := by
  unfold recovering
  split <;> simp

/-- The first statement is read or skipped, and the program goes on behind it. -/
theorem program_cons (hc : c.rest ≠ []) :
    program (n + 1) c = (do
      let first ← recovering (declaration n)
      let rest ← program n
      return first.toList ++ rest) c := by
  obtain ⟨_ | ⟨t,rest⟩,faults⟩ := c
  · exact absurd rfl hc
  · rfl

theorem program_ne_failed {d : Cursor} : program n c ≠ .error .failed d := by
  induction n generalizing c with
  | zero => exact fun h => by cases h
  | succ n ih =>
    by_cases hc : c.rest = []
    · obtain ⟨rest,faults⟩ := c
      subst hc
      exact fun h => by cases h
    · rw [program_cons hc]
      change EStateM.bind _ (fun first => EStateM.bind _ _) c ≠ _
      simp only [EStateM.bind]
      cases hfirst : recovering (declaration n) c with
      | error e c' =>
        rintro ⟨⟩
        exact recovering_ne_failed hfirst
      | ok first c' =>
        dsimp only
        cases hrest : program n c' with
        | error e c'' => exact fun h => ih (hrest.trans h)
        | ok rest c'' => exact fun h => by cases h

/-- A statement takes at least one token, also if it is skipped. -/
theorem recovering_declaration (hc : c.rest ≠ []) (hn : 3 * c.rest.length + 5 ≤ n) :
    ∃ s d used, recovering (declaration n) c = .ok s d ∧ used ≠ [] ∧ c.rest = used ++ d.rest := by
  have hreads := reads_recovering hc (reads_declaration n c hn)
  cases hrun : recovering (declaration n) c with
  | ok s d =>
    rw [hrun] at hreads
    obtain ⟨extra,used,hrest,-,hused,-⟩ := hreads
    exact ⟨s,d,used,rfl,hused,hrest⟩
  | error e d =>
    rw [hrun] at hreads
    cases e with
    | exhausted => exact hreads.elim
    | failed => exact absurd hrun recovering_ne_failed

theorem program_ends (hn : 3 * c.rest.length + 6 ≤ n) :
    ∃ statements faults, program n c = .ok statements ⟨[],faults⟩ := by
  have hreads := reads_program n c hn
  cases hrun : program n c with
  | ok statements d =>
    rw [hrun] at hreads
    obtain ⟨extra,used,-,-,hrest,-⟩ := hreads
    exact ⟨statements,d.faults,by rw [← hrest]⟩
  | error e d =>
    rw [hrun] at hreads
    cases e with
    | exhausted => exact hreads.elim
    | failed => exact absurd hrun program_ne_failed

end Parse

theorem parse_eq (tokens : List Token) :
    ∃ faults, Parse.program (Parse.budget tokens) (⟨tokens,[]⟩ : Cursor) =
      .ok (parse tokens).statements ⟨[],faults⟩ ∧ (parse tokens).faults = faults.reverse := by
  obtain ⟨statements,faults,hrun⟩ := Parse.program_ends (c := ⟨tokens,[]⟩)
    (n := Parse.budget tokens) (by simp only [Parse.budget]; omega)
  refine ⟨faults,?_,?_⟩
  · rw [hrun]
    simp [parse,hrun]
  · simp [parse,hrun]

end Scriptlet
