import Scriptlet.Proofs.Calls
import Scriptlet.Proofs.Identities

/-! # Sessions that know nodes by their numbers

The table of a session has entries for the nodes of all its sources, and functions of earlier sources
are called by later ones. A session that numbers the nodes of its sources, instead of looking at places,
gives the same answers to all calls: the places of all nodes of a session are different, so one way of
numbering places does for all sources.
-/
namespace Scriptlet

open Relocation

/-- A session whose table is kept under numbers of nodes. It counts the nodes of all sources. -/
structure NodeSession extends Session where
  nodes : Nat := 0

namespace NodeSession

def start (clock : Clock) : NodeSession := ⟨.start clock,0⟩

/-- The session after a source was loaded, whose nodes are numbered whether it is run or not. -/
def past (s : NodeSession) (loaded : Loaded) : NodeSession :=
  ⟨s.toSession.past loaded.tokens,s.nodes + (Stmt.allRefs loaded.statements).length⟩

/-- Runs a source with numbered nodes. -/
def perform (s : NodeSession) (r : Request) : Answer × NodeSession :=
  let loaded := load s.nextIndex r.source
  let statements := Stmt.allNumbered (s.nodes + 1) loaded.statements
  let resolved := resolve s.table statements
  if loaded.diagnostics ≠ [] then
    (⟨.rejected,loaded.diagnostics,[]⟩,s.past loaded)
  else if resolved.diagnostics ≠ [] then
    (⟨.rejected,resolved.diagnostics,[]⟩,{ s.past loaded with table := resolved.table })
  else
    let (report,machine) := evaluate r.budget ⟨resolved.table,r.processVars⟩ statements s.machine
    (report.answer,{ s.past loaded with table := resolved.table, machine })

/-- A tree is shown as before, since no text of it shows a place or a number. -/
def obey (s : NodeSession) : Session.Call → Answer × NodeSession
  | .run r => s.perform r
  | .showTree source => ((s.toSession.showTree source).1.answer,s.past (load s.nextIndex source))

def afterCalls (s : NodeSession) : List Session.Call → NodeSession
  | [] => s
  | c :: rest => (s.obey c).2.afterCalls rest

def transcript (s : NodeSession) : List Session.Call → List (Session.Call × Answer)
  | [] => []
  | c :: rest => (c,(s.obey c).1) :: (s.obey c).2.transcript rest

end NodeSession

namespace Session

def Call.source : Call → Bytes
  | .run r => r.source
  | .showTree source => source

/-- The places of all nodes of the sources of some calls. -/
def nodePlaces (s : Session) : List Call → List Nat
  | [] => []
  | c :: rest => (Stmt.allRefs (load s.nextIndex c.source).statements).map Token.index ++
      (s.obey c).2.nodePlaces rest

/-! ## Places of nodes in a session -/

theorem nextIndex_obey (s : Session) (c : Call) :
    (s.obey c).2.nextIndex = s.nextIndex + (load s.nextIndex c.source).tokens.length := by
  cases c with
  | showTree source =>
    rw [obey,showTree_snd]
    rfl
  | run r =>
    rw [obey]
    by_cases hload : (load s.nextIndex r.source).diagnostics = []
    · by_cases hclean : (resolve s.table (load s.nextIndex r.source).statements).faults = []
      · rw [(perform_of_resolved hload hclean).2]
        rfl
      · rw [(perform_of_unresolved hload hclean).2]
        rfl
    · rw [(perform_of_unreadable hload).2]
      rfl

theorem nextIndex_le_afterCalls (s : Session) (calls : List Call) :
    s.nextIndex ≤ (s.afterCalls calls).nextIndex := by
  induction calls generalizing s with
  | nil => exact Nat.le_refl _
  | cons c rest ih =>
    have hnext := nextIndex_obey s c
    have hrest := ih (s.obey c).2
    rw [afterCalls]
    omega

theorem range_of_mem_places {index p : Nat} {source : Bytes}
    (h : p ∈ (Stmt.allRefs (load index source).statements).map Token.index) :
    index ≤ p ∧ p < index + (load index source).tokens.length := by
  obtain ⟨x,hx,rfl⟩ := List.mem_map.1 h
  exact range_of_mem_load (mem_load_of_mem_refs hx)

theorem range_of_mem_nodePlaces {s : Session} {calls : List Call} {p : Nat}
    (h : p ∈ s.nodePlaces calls) : s.nextIndex ≤ p ∧ p < (s.afterCalls calls).nextIndex := by
  induction calls generalizing s with
  | nil => cases h
  | cons c rest ih =>
    have hnext := nextIndex_obey s c
    rw [nodePlaces,List.mem_append] at h
    rw [afterCalls]
    rcases h with hfirst | hrest
    · have hrange := range_of_mem_places hfirst
      have hlater := nextIndex_le_afterCalls (s.obey c).2 rest
      omega
    · have hlater := ih hrest
      omega

/-- All nodes of a session have different places. -/
theorem nodup_nodePlaces (s : Session) (calls : List Call) : (s.nodePlaces calls).Nodup := by
  induction calls generalizing s with
  | nil => exact List.nodup_nil
  | cons c rest ih =>
    rw [nodePlaces,List.nodup_append]
    refine ⟨nodup_refs_load s.nextIndex c.source,ih _,fun p hp q hq => ?_⟩
    have hearly := range_of_mem_places hp
    have hlate := range_of_mem_nodePlaces hq
    rw [nextIndex_obey] at hlate
    omega

end Session

/-! ## Sessions in step -/

namespace NodeSession

/-- The two sessions are the same, but that one has numbers where the other has places. -/
structure Agrees (places : List Nat) (s : Session) (t : NodeSession) : Prop where
  nextIndex : t.nextIndex = s.nextIndex
  table : Table.Renumbers places s.table t.table
  machine : t.machine = s.machine.relocate (.numbering places) []

theorem nodes_obey (t : NodeSession) (c : Session.Call) :
    (t.obey c).2.nodes = t.nodes + (Stmt.allRefs (load t.nextIndex c.source).statements).length := by
  cases c with
  | showTree source => rfl
  | run r =>
    simp only [obey,perform]
    split
    · rfl
    · split <;> rfl

variable {places : List Nat} {s : Session} {t : NodeSession}

theorem agrees_start (places : List Nat) (clock : Clock) :
    Agrees places (.start clock) (start clock) where
  nextIndex := rfl
  table _ := rfl
  machine := by
    have hfixes : (numbering places).Fixes 0 :=
      ⟨fun _ ht => absurd ht (Nat.not_lt_zero _),fun _ _ => Nat.zero_le _⟩
    exact (Machine.below_start clock _ hfixes).symm

theorem Agrees.past (h : Agrees places s t) (source : Bytes) :
    Agrees places (s.past (load s.nextIndex source).tokens) (t.past (load t.nextIndex source)) where
  nextIndex := by
    have hindex := h.nextIndex
    simp only [NodeSession.past,Session.past,hindex]
  table := h.table
  machine := h.machine

theorem Agrees.perform (h : Agrees places s t) (r : Request)
    (hr : (numbering places).Numbers (t.nodes + 1) (load s.nextIndex r.source).statements) :
    (t.perform r).1 = (s.perform r).1.answer ∧ Agrees places (s.perform r).2 (t.perform r).2 := by
  have hpast := h.past r.source
  have hdiagnostics := hr.resolve_diagnostics s.table t.table
  have htable := h.table.resolve hr
  have hevaluate := hr.evaluate htable r.budget r.processVars s.machine
  rw [← h.machine] at hevaluate
  simp only [NodeSession.perform,h.nextIndex,hdiagnostics,hevaluate] at hpast ⊢
  by_cases hload : (load s.nextIndex r.source).diagnostics = []
  · by_cases hclean : (resolve s.table (load s.nextIndex r.source).statements).faults = []
    · have hnothing : (resolve s.table (load s.nextIndex r.source).statements).diagnostics = [] := by
        rw [Resolved.diagnostics,hclean,List.map_nil]
      obtain ⟨hanswer,hafter⟩ := Session.perform_of_resolved hload hclean
      rw [hanswer,hafter,if_neg (not_not_intro hload),if_neg (not_not_intro hnothing)]
      exact ⟨rfl,{ hpast with table := htable, machine := rfl }⟩
    · have hsome : (resolve s.table (load s.nextIndex r.source).statements).diagnostics ≠ [] := by
        simpa [Resolved.diagnostics] using hclean
      obtain ⟨hanswer,hafter⟩ := Session.perform_of_unresolved hload hclean
      rw [hanswer,hafter,if_neg (not_not_intro hload),if_pos hsome]
      exact ⟨rfl,{ hpast with table := htable }⟩
  · obtain ⟨hanswer,hafter⟩ := Session.perform_of_unreadable hload
    rw [hanswer,hafter,if_pos hload]
    exact ⟨rfl,hpast⟩

theorem Agrees.obey (h : Agrees places s t) (c : Session.Call)
    (hc : (numbering places).Numbers (t.nodes + 1) (load s.nextIndex c.source).statements) :
    (t.obey c).1 = (s.obey c).1.answer ∧ Agrees places (s.obey c).2 (t.obey c).2 := by
  cases c with
  | run r => exact h.perform r hc
  | showTree source =>
    have hpast := h.past source
    rw [← Session.showTree_snd] at hpast
    refine ⟨?_,hpast⟩
    simp only [NodeSession.obey,Session.obey,Session.showTree,h.nextIndex]
    split <;> rfl

/-- The two sessions stay in step through all calls, if the places of the nodes of these calls stand in
the list in order, behind those that were numbered already. -/
theorem Agrees.calls {calls : List Session.Call} {before after : List Nat} (h : Agrees places s t)
    (hplaces : places = before ++ (s.nodePlaces calls ++ after)) (hnodup : places.Nodup)
    (hnodes : t.nodes = before.length) (hbefore : ∀ p ∈ before, p < s.nextIndex)
    (hafter : ∀ p ∈ after, (s.afterCalls calls).nextIndex ≤ p) :
    t.transcript calls = s.transcript calls ∧ Agrees places (s.afterCalls calls) (t.afterCalls calls) ∧
      (t.afterCalls calls).nodes = (before ++ s.nodePlaces calls).length := by
  induction calls generalizing s t before with
  | nil =>
    refine ⟨rfl,h,?_⟩
    rw [Session.nodePlaces,List.append_nil]
    exact hnodes
  | cons c rest ih =>
    have hnext := Session.nextIndex_obey s c
    rw [Session.nodePlaces,List.append_assoc] at hplaces
    -- The nodes of this source are numbered as they stand between those of earlier and later ones.
    have hlater : ∀ p ∈ (s.obey c).2.nodePlaces rest ++ after,
        s.nextIndex + (load s.nextIndex c.source).tokens.length ≤ p := by
      intro p hp
      rcases List.mem_append.1 hp with hrest | hend
      · have hrange := Session.range_of_mem_nodePlaces hrest
        omega
      · have hrange := hafter p hend
        have hgrows := Session.nextIndex_le_afterCalls (s.obey c).2 rest
        rw [Session.afterCalls] at hrange
        omega
    have hsource := numbers_parse (index_load s.nextIndex c.source) hbefore hlater (hplaces ▸ hnodup)
    obtain ⟨hanswer,hstep⟩ := h.obey c (by rw [hplaces,hnodes]; exact hsource)
    have hearlier : ∀ p ∈ before ++ (Stmt.allRefs (load s.nextIndex c.source).statements).map Token.index,
        p < (s.obey c).2.nextIndex := by
      intro p hp
      rcases List.mem_append.1 hp with hold | hnew
      · have hrange := hbefore p hold
        omega
      · have hrange := Session.range_of_mem_places hnew
        omega
    have hcount := nodes_obey t c
    rw [h.nextIndex] at hcount
    obtain ⟨hrest,hend,hnodes⟩ := ih hstep (by rw [hplaces,List.append_assoc])
      (by rw [hcount,hnodes,List.length_append,List.length_map]) hearlier hafter
    refine ⟨?_,hend,?_⟩
    · rw [NodeSession.transcript,Session.transcript,hanswer,hrest]
    · rw [NodeSession.afterCalls,hnodes,Session.nodePlaces,List.append_assoc]

/-- After all calls, the nodes of any tokens that are read next can be numbered along with those of the
calls. -/
theorem exists_agrees (clock : Clock) (calls : List Session.Call) (tokens : List Token) :
    (start clock).transcript calls = (Session.start clock).transcript calls ∧
      ∃ places, Agrees places ((Session.start clock).afterCalls calls) ((start clock).afterCalls calls) ∧
        (numbering places).Numbers (((start clock).afterCalls calls).nodes + 1)
          (parse (placed ((Session.start clock).afterCalls calls).nextIndex tokens)).statements := by
  let first := ((Session.start clock).afterCalls calls).nextIndex
  let before := (Session.start clock).nodePlaces calls
  let last := (Stmt.allRefs (parse (placed first tokens)).statements).map Token.index
  have htokens : (placed first tokens).map Token.index =
      List.range' first (placed first tokens).length := by rw [index_placed,length_placed]
  have hbefore : ∀ p ∈ before, p < first := fun _ hp => (Session.range_of_mem_nodePlaces hp).2
  have hlast : ∀ p ∈ last, first ≤ p := by
    intro p hp
    obtain ⟨x,hx,rfl⟩ := List.mem_map.1 hp
    exact (getElem?_placed _ _ (mem_of_mem_parse (List.mem_append_left _ hx))).1
  have hnodup : (before ++ last).Nodup := by
    rw [List.nodup_append]
    refine ⟨Session.nodup_nodePlaces _ calls,nodup_refs_placed first tokens,fun p hp q hq => ?_⟩
    have hearly := hbefore p hp
    have hlate := hlast q hq
    omega
  have hplaces : before ++ last = [] ++ (before ++ last) := rfl
  obtain ⟨htranscript,hagrees,hnodes⟩ :=
    (agrees_start (before ++ last) clock).calls hplaces hnodup rfl (by simp) hlast
  have hnone : ∀ p ∈ ([] : List Nat), first + (placed first tokens).length ≤ p := by simp
  have hnumbers := numbers_parse htokens hbefore hnone (by rwa [List.append_nil])
  rw [List.append_nil] at hnumbers
  refine ⟨htranscript,before ++ last,hagrees,?_⟩
  rw [hnodes]
  exact hnumbers

end NodeSession

/-- The place of its token tells a node from all others. In any list of tokens, with syntax errors or
without, the nodes of the tree that is read refer to tokens at different places of the list. Nodes that
are numbered have different numbers, whatever the tree. And numbers do what places do: a session with
numbered nodes gives the same answers to all calls, and after them any tokens can be read next. Then the
tables have the same entries for the same nodes, the same is found wrong with the tree, and evaluating
it gives the same report. -/
theorem places_identify_nodes :
    (∀ (first : Nat) (tokens : List Token),
      let nodes := Stmt.allRefs (parse (placed first tokens)).statements
      (nodes.map Token.index).Nodup ∧
        ∀ x ∈ nodes, first ≤ x.index ∧ (placed first tokens)[x.index - first]? = some x) ∧
    (∀ (k : Nat) (program : List Stmt),
      (Stmt.allRefs (Stmt.allNumbered k program)).map Token.index =
        List.range' k (Stmt.allRefs program).length) ∧
    ∀ (clock : Clock) (calls : List Session.Call),
      let s := (Session.start clock).afterCalls calls
      let t := (NodeSession.start clock).afterCalls calls
      (NodeSession.start clock).transcript calls = (Session.start clock).transcript calls ∧
      ∀ (tokens : List Token) (budget : Nat) (processVars : NameMap Bytes),
        let program := (parse (placed s.nextIndex tokens)).statements
        let program' := Stmt.allNumbered (t.nodes + 1) program
        let resolved := resolve s.table program
        let resolved' := resolve t.table program'
        ((Stmt.allRefs program').map fun x => resolved'.table[x.index]?) =
          ((Stmt.allRefs program).map fun x => resolved.table[x.index]?) ∧
        resolved'.diagnostics = resolved.diagnostics ∧
        (evaluate budget ⟨resolved'.table,processVars⟩ program' t.machine).1 =
          (evaluate budget ⟨resolved.table,processVars⟩ program s.machine).1 := by
  refine ⟨fun first tokens => ⟨nodup_refs_placed first tokens,fun x hx => ?_⟩,fun k program => ?_,
    fun clock calls => ⟨(NodeSession.exists_agrees clock calls []).1,fun tokens budget processVars => ?_⟩⟩
  · exact getElem?_placed first tokens (mem_of_mem_parse (List.mem_append_left _ hx))
  · rw [Stmt.allRefs_allNumbered,index_placed]
  · intro program program' resolved resolved'
    obtain ⟨-,places,hagrees,hprogram⟩ := NodeSession.exists_agrees clock calls tokens
    have htable := hagrees.table.resolve hprogram
    refine ⟨?_,hprogram.resolve_diagnostics _ _,?_⟩
    · rw [Stmt.allRefs_allNumbered,← hprogram.nodes,List.map_map]
      exact List.map_congr_left fun x _ => htable x.index
    · rw [hagrees.machine,hprogram.evaluate htable]

end Scriptlet
