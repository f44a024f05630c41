import Scriptlet.Proofs.Grammar.Outcomes
import Scriptlet.Proofs.Readers

/-! # Reading at a position

The parser over a fixed list of tokens and a position in it. Behind the last token stands the end of
the list, which can be looked at but not passed. Each use of the list is written down with the
position it was made from, so it can be said of a whole run that it stays inside the list and never
goes back. The list of tokens that gets shorter is what the position stands in front of, so the run
ends like the one of the parser.
-/
namespace Scriptlet

/-- A use of the token at a position, or of the one in front of it. -/
inductive Access where
  | peek (position : Nat)
  | previous (position : Nat)
  deriving DecidableEq, Repr

namespace Access

def position : Access → Nat
  | .peek position | .previous position => position

/-- The list has what is asked for: one of `count` tokens, or the end behind them. -/
def Within (count : Nat) : Access → Prop
  | .peek position => position ≤ count
  | .previous position => 0 < position ∧ position ≤ count

/-- The accesses, the latest one first, are all in the list, and none is made in front of an earlier
one. They are made between two positions. -/
def Onward (count low high : Nat) (made : List Access) : Prop :=
  (∀ access ∈ made, access.Within count ∧ low ≤ access.position ∧ access.position ≤ high) ∧
    made.Pairwise fun later earlier => earlier.position ≤ later.position

end Access

/-- A position in a list of tokens, with the problems reported so far and the accesses made so far,
the latest one first. -/
structure Position (tokens : List Token) where
  current : Nat
  faults : List ParseFault
  trail : List Access

namespace Position

variable {tokens : List Token}

def start (tokens : List Token) : Position tokens := ⟨0,[],[]⟩

def peek (p : Position tokens) : Option Token × Position tokens :=
  (tokens[p.current]?,{ p with trail := .peek p.current :: p.trail })

def previous (p : Position tokens) : Option Token × Position tokens :=
  (tokens[p.current - 1]?,{ p with trail := .previous p.current :: p.trail })

/-- Passes the next token, unless the end is reached, and reads the token in front. -/
def advance (p : Position tokens) : Position tokens :=
  match p.peek.1 with
  | none => p.peek.2.previous.2
  | some _ => { p.peek.2 with current := p.current + 1 }.previous.2

/-- Passes tokens up to the end of a statement or the start of one. -/
def skip (p : Position tokens) : Position tokens :=
  match _h : p.peek.1 with
  | none => p.peek.2
  | some next =>
    let seen := p.peek.2.previous.2
    if p.previous.1.any (·.isSymbol .semicolon) then seen
    else if next.opensStatement then seen.peek.2
    else skip seen.peek.2.advance
termination_by tokens.length - p.current
decreasing_by
  have hnext : tokens[p.current]? = some next := _h
  have hlt : p.current < tokens.length := (List.getElem?_eq_some_iff.1 hnext).1
  simp only [advance,peek,previous,hnext]
  omega

instance reader : Reader (Position tokens) where
  look := peek
  pass := advance
  report error p := { p.peek.2 with faults := ⟨error,p.peek.1⟩ :: p.faults }
  reportAt error token p := { p with faults := ⟨error,some token⟩ :: p.faults }
  resume p := p.advance.skip

/-- From one position on, another one is reached: nothing is read outside of the list on the way, and
the position never decreases. -/
structure Reached (q p : Position tokens) : Prop where
  later : q.current ≤ p.current
  inside : p.current ≤ tokens.length
  trail : ∃ made, p.trail = made ++ q.trail ∧ Access.Onward tokens.length q.current p.current made

variable {p q : Position tokens}

namespace Reached

theorem refl (hp : p.current ≤ tokens.length) : Reached p p :=
  ⟨Nat.le_refl _,hp,[],rfl,by simp [Access.Onward]⟩

theorem access (h : Reached q p) {access : Access} (hwithin : access.Within tokens.length)
    (hposition : access.position = p.current) :
    Reached q { p with trail := access :: p.trail } := by
  obtain ⟨hlater,hinside,made,htrail,hmade,hordered⟩ := h
  refine ⟨hlater,hinside,access :: made,by simp [htrail],?_,?_⟩
  · intro other hother
    rcases List.mem_cons.1 hother with rfl | hother
    · exact ⟨hwithin,hposition ▸ hlater,Nat.le_of_eq hposition⟩
    · exact hmade other hother
  · refine List.pairwise_cons.2 ⟨fun other hother => ?_,hordered⟩
    rw [hposition]
    exact (hmade other hother).2.2

theorem move (h : Reached q p) (hlt : p.current < tokens.length) :
    Reached q { p with current := p.current + 1 } := by
  obtain ⟨hlater,hinside,made,htrail,hmade,hordered⟩ := h
  refine ⟨Nat.le_succ_of_le hlater,hlt,made,htrail,fun access haccess => ?_,hordered⟩
  obtain ⟨hwithin,hlow,hhigh⟩ := hmade access haccess
  exact ⟨hwithin,hlow,Nat.le_succ_of_le hhigh⟩

theorem report (h : Reached q p) (faults : List ParseFault) :
    Reached q { p with faults := faults } :=
  ⟨h.later,h.inside,h.trail⟩

theorem peek (h : Reached q p) : Reached q p.peek.2 :=
  h.access h.inside rfl

theorem previous (h : Reached q p) (hpos : 0 < p.current) :
    Reached q p.previous.2 :=
  h.access ⟨hpos,h.inside⟩ rfl

/-- The one step that could look in front of the list is the one over the end; there is a token in
front of it. -/
theorem advance (h : Reached q p) (htokens : tokens ≠ []) :
    Reached q p.advance := by
  unfold Position.advance
  split
  · next hnone =>
    have hend : tokens.length ≤ p.current := List.getElem?_eq_none_iff.1 hnone
    have hlength : 0 < tokens.length := List.length_pos_iff.2 htokens
    exact h.peek.previous (show 0 < p.current by omega)
  · next t hsome =>
    have hlt : p.current < tokens.length := (List.getElem?_eq_some_iff.1 hsome).1
    exact (h.peek.move hlt).previous p.current.succ_pos

end Reached

/-- The position stands in front of what is left to read. -/
structure Stands (q p : Position tokens) (d : Cursor) : Prop where
  reached : Reached q p
  rest : d.rest = tokens.drop p.current
  faults : d.faults = p.faults

@[simp] theorem peek_current : p.peek.2.current = p.current := rfl

@[simp] theorem previous_current : p.previous.2.current = p.current := rfl

theorem advance_of_lt (hlt : p.current < tokens.length) :
    p.advance.current = p.current + 1 := by
  have hnext : p.peek.1 = some tokens[p.current] := List.getElem?_eq_getElem hlt
  simp [advance,hnext]

theorem advance_of_le (hle : tokens.length ≤ p.current) : p.advance.current = p.current := by
  have hnext : p.peek.1 = none := List.getElem?_eq_none_iff.2 hle
  simp [advance,hnext]

@[simp] theorem advance_faults : p.advance.faults = p.faults := by
  unfold advance
  split <;> rfl

/-- The token in front of a position is the first one of what is left from there on. -/
theorem previous_eq (hpos : 0 < p.current) (hle : p.current ≤ tokens.length) :
    ∃ t, p.previous.1 = some t ∧
      tokens.drop (p.current - 1) = t :: tokens.drop p.current := by
  have hlt : p.current - 1 < tokens.length := by omega
  refine ⟨tokens[p.current - 1],List.getElem?_eq_getElem hlt,?_⟩
  rw [List.drop_eq_getElem_cons hlt,Nat.sub_add_cancel hpos]

theorem peek_eq_some {next : Token} (hnext : p.peek.1 = some next) :
    p.current < tokens.length ∧ tokens.drop p.current = next :: tokens.drop (p.current + 1) := by
  obtain ⟨hlt,hget⟩ := List.getElem?_eq_some_iff.1 hnext
  exact ⟨hlt,hget ▸ List.drop_eq_getElem_cons hlt⟩

/-- What is skipped from a position on is what the parser skips when the token in front is its next
one. -/
theorem stands_skip (h : Reached q p) (hpos : 0 < p.current) :
    Stands q p.skip ⟨Parse.synchronize (tokens.drop (p.current - 1)),p.faults⟩ := by
  fun_induction skip p with
  | case1 p hnext =>
    obtain ⟨t,-,hdrop⟩ := previous_eq hpos h.inside
    have hend : tokens.drop p.current = [] :=
      List.drop_eq_nil_iff.2 (List.getElem?_eq_none_iff.1 hnext)
    refine ⟨h.peek,?_,rfl⟩
    change _ = tokens.drop p.current
    rw [hdrop,hend,Parse.synchronize_last]
  | case2 p next hnext seen hsemicolon =>
    obtain ⟨t,ht,hdrop⟩ := previous_eq hpos h.inside
    have hstop : t.isSymbol .semicolon = true := by simpa [ht] using hsemicolon
    refine ⟨h.peek.previous hpos,?_,rfl⟩
    change _ = tokens.drop p.current
    rw [hdrop,Parse.synchronize_semicolon hstop]
  | case3 p next hnext seen hsemicolon hopens =>
    obtain ⟨t,ht,hdrop⟩ := previous_eq hpos h.inside
    have hgo : ¬t.isSymbol .semicolon = true := by simpa [ht] using hsemicolon
    obtain ⟨hlt,hrest⟩ := peek_eq_some hnext
    refine ⟨(h.peek.previous hpos).peek,?_,rfl⟩
    change _ = tokens.drop p.current
    rw [hdrop,hrest,Parse.synchronize_opening hgo hopens]
  | case4 p next hnext seen hsemicolon hopens ih =>
    obtain ⟨t,ht,hdrop⟩ := previous_eq hpos h.inside
    have hgo : ¬t.isSymbol .semicolon = true := by simpa [ht] using hsemicolon
    obtain ⟨hlt,hrest⟩ := peek_eq_some hnext
    have hmoved : seen.peek.2.advance.current = p.current + 1 := advance_of_lt hlt
    have hskip := ih ((h.peek.previous hpos).peek.advance (List.ne_nil_of_length_pos (by omega)))
      (by omega)
    rw [hmoved,Nat.add_sub_cancel,advance_faults] at hskip
    refine ⟨hskip.reached,?_,hskip.faults⟩
    rw [← hskip.rest,hdrop,hrest,Parse.synchronize_other hgo hopens]

theorem Stands.peek {d : Cursor} (h : Stands q p d) :
    p.peek.1 = d.rest.head? ∧ Stands q p.peek.2 d := by
  refine ⟨?_,h.reached.peek,h.rest,h.faults⟩
  rw [h.rest,List.head?_drop]
  rfl

theorem reader_follows (htokens : tokens ≠ []) : Reader.Follows (Stands q) where
  look h := h.peek
  pass {p t rest faults} h _ := by
    have hcons : tokens.drop p.current = t :: rest := h.rest.symm
    have hlt : p.current < tokens.length := by
      refine Nat.lt_of_not_le fun hge => ?_
      simp [List.drop_eq_nil_iff.2 hge] at hcons
    refine ⟨h.reached.advance htokens,?_,h.faults.trans advance_faults.symm⟩
    change rest = tokens.drop p.advance.current
    rw [advance_of_lt hlt,← List.tail_drop,hcons,List.tail_cons]
  report error h := by
    refine ⟨h.peek.2.reached.report _,h.rest,?_⟩
    change _ :: _ = _ :: _
    rw [h.peek.1,h.faults]
  reportAt error token h := by
    refine ⟨h.reached.report _,h.rest,?_⟩
    change _ :: _ = _ :: _
    rw [h.faults]
  resume {p d} h := by
    have hadvance := h.reached.advance htokens
    by_cases hlt : p.current < tokens.length
    · have hmoved : p.advance.current = p.current + 1 := advance_of_lt hlt
      have hskip := stands_skip hadvance (by omega)
      rw [hmoved,Nat.add_sub_cancel,advance_faults] at hskip
      exact ⟨hskip.reached,h.rest ▸ hskip.rest,h.faults.trans hskip.faults⟩
    · -- At the end nothing is passed, but the token in front is there to be read.
      have hend : tokens.drop p.current = [] := List.drop_eq_nil_iff.2 (Nat.le_of_not_lt hlt)
      have hstays : p.advance.current = p.current := advance_of_le (Nat.le_of_not_lt hlt)
      have hlength : 0 < tokens.length := List.length_pos_iff.2 htokens
      obtain ⟨t,-,hdrop⟩ := previous_eq (p := p) (by omega) h.reached.inside
      have hskip := stands_skip hadvance (by omega)
      rw [hstays,hdrop,hend,advance_faults,Parse.synchronize_last] at hskip
      refine ⟨hskip.reached,?_,h.faults.trans hskip.faults⟩
      have hnothing : Parse.synchronize d.rest = [] := by rw [h.rest,hend]; rfl
      exact hnothing.trans hskip.rest

/-- How the run over a list with a token in it ends. -/
theorem program_reached (htokens : tokens ≠ []) (more : Nat) :
    ∃ p, Parse.program (Parse.budget tokens + more) (start tokens) =
        .ok (parse tokens).statements p ∧
      p.faults.reverse = (parse tokens).faults ∧ p.current = tokens.length ∧
      Reached (start tokens) p := by
  have hstart : Stands (start tokens) (start tokens) ⟨tokens,[]⟩ := ⟨.refl (Nat.zero_le _),rfl,rfl⟩
  have hagree : Agree False (Stands (start tokens)) (Stands (start tokens))
      (Parse.program (Parse.budget tokens + more) (start tokens))
      (Parse.program (Parse.budget tokens) (⟨tokens,[]⟩ : Cursor)) :=
    (reader_follows htokens).agree_program (fun hlt => absurd hlt (by omega)) hstart
  obtain ⟨faults,hrun,hfaults⟩ := parse_eq tokens
  rw [hrun] at hagree
  generalize Parse.program (Parse.budget tokens + more) (start tokens) = outcome at hagree
  cases hagree with
  | dry hshort => exact hshort.elim
  | @ok _ p _ hend =>
    refine ⟨p,rfl,by rw [hfaults,← hend.faults],?_,hend.reached⟩
    have hlength : tokens.length ≤ p.current := List.drop_eq_nil_iff.1 hend.rest.symm
    exact Nat.le_antisymm hend.reached.inside hlength

/-- A budget with which a statement can be read in front of the tokens that are left. -/
def budget (q : Position tokens) : Nat := 3 * (tokens.length - q.current) + 5

/-- Where the cursor of the parser stands. -/
def cursor (q : Position tokens) : Cursor := ⟨tokens.drop q.current,q.faults⟩

/-- A statement read from a position in front of the end leads to a later one. -/
theorem recovering_reached (n : Nat) (hq : q.current < tokens.length) :
    (n < q.budget ∧ ∃ p, Parse.recovering (Parse.declaration n) q = .error .exhausted p) ∨
    ∃ s p, Parse.recovering (Parse.declaration n) q = .ok s p ∧
      Parse.recovering (Parse.declaration q.budget) q.cursor = .ok s p.cursor ∧
      q.current < p.current ∧ Reached q p := by
  have hfollows : Reader.Follows (Stands q) :=
    reader_follows (List.ne_nil_of_length_pos (by omega))
  have hstart : Stands q q q.cursor := ⟨.refl (by omega),rfl,rfl⟩
  have hdeclaration : Agree (n < q.budget) (Stands q) (Stands q)
      (Parse.declaration n q) (Parse.declaration q.budget q.cursor) :=
    (hfollows.statements id).declaration _ _ hstart
  have hagree := hfollows.agree_recovering hdeclaration
  obtain ⟨s,d,used,hrun,hused,hrest⟩ := Parse.recovering_declaration
    (c := q.cursor) (n := q.budget) (by simpa [cursor] using hq) (by simp [budget,cursor])
  rw [hrun] at hagree
  generalize Parse.recovering (Parse.declaration n) q = outcome at hagree
  cases hagree with
  | dry hshort => exact .inl ⟨hshort,_,rfl⟩
  | @ok _ p _ hend =>
    refine .inr ⟨s,p,rfl,?_,?_,hend.reached⟩
    · rw [hrun,cursor,← hend.rest,← hend.faults]
    · have hlengths := congrArg List.length hrest
      have hpos : 0 < used.length := List.length_pos_iff.2 hused
      simp only [cursor,hend.rest,List.length_append,List.length_drop] at hlengths
      omega

end Position

/-- Over the tokens and a position in them, the parser ends with what `parse` gives, at the end of
the tokens. On the way it only asks for tokens that are there, and the position never decreases. A
statement read in front of the end, skipped or not, ends at a later position, where the cursor of the
parser stands too; the budget can only be used up if it is too small for the tokens that are left. -/
theorem parser_stays_inside (tokens : List Token) (more : Nat) :
    (∃ p, Parse.program (Parse.budget tokens + more) (Position.start tokens) =
        .ok (parse tokens).statements p ∧
      p.faults.reverse = (parse tokens).faults ∧ p.current = tokens.length ∧
      Position.Reached (Position.start tokens) p) ∧
    ∀ (n : Nat) (q : Position tokens), q.current < tokens.length →
      (n < q.budget ∧ ∃ p, Parse.recovering (Parse.declaration n) q = .error .exhausted p) ∨
      ∃ s p, Parse.recovering (Parse.declaration n) q = .ok s p ∧
        Parse.recovering (Parse.declaration q.budget) q.cursor = .ok s p.cursor ∧
        q.current < p.current ∧ Position.Reached q p := by
  refine ⟨?_,fun n q hq => Position.recovering_reached n hq⟩
  cases tokens with
  | nil =>
    -- No statement is read, so nothing is ever skipped and the token in front never asked for.
    have hbudget : Parse.budget [] + more = more + 15 + 1 := Nat.add_comm 16 more
    have hreached : Position.Reached (Position.start []) (Position.start []).peek.2 :=
      (Position.Reached.refl (Nat.le_refl 0)).peek
    rw [hbudget]
    exact ⟨⟨0,[],[.peek 0]⟩,rfl,rfl,rfl,hreached⟩
  | cons t rest => exact Position.program_reached (by simp) more

end Scriptlet
