import Scriptlet.Proofs.Calls
import Scriptlet.Proofs.Pieces

/-! # Rejected sources leave no trace

A source that is rejected takes places, and its names may have got distances before its errors were
known. Nothing else is left of it. A session that has done such a call goes on like one that has
not: all that differs is that later tokens stand behind a gap, and the entries of the table inside
of the gap belong to no token that is ever evaluated.
-/
namespace Scriptlet

namespace Relocation

/-- Tokens from a place on are moved behind a gap. -/
def gap (place size : Nat) : Relocation where
  move t := if t.index < place then t else { t with index := t.index + size }
  kind t := by split <;> rfl
  lexeme t := by split <;> rfl

variable (place size : Nat) (t : Token)

@[simp] theorem line_gap : ((gap place size).move t).line = t.line := by
  simp only [gap]
  split <;> rfl

theorem index_gap : ((gap place size).move t).index =
    if t.index < place then t.index else t.index + size := by
  simp only [gap]
  split <;> rfl

/-- The gap keeps different places different. -/
theorem index_gap_inj (u : Token) :
    ((gap place size).move t).index = ((gap place size).move u).index ↔ t.index = u.index := by
  rw [index_gap,index_gap]
  constructor
  · intro h
    split at h <;> split at h <;> omega
  · intro h
    rw [h]

theorem fixes_gap : (gap place size).Fixes place where
  early _ ht := if_pos ht
  late u hu := by
    rw [index_gap,if_neg (Nat.not_lt.2 hu)]
    omega

end Relocation

/-! ## The same source at another place -/

section

variable {index place : Nat} {source : Bytes} (size : Nat)

theorem tokens_load_gap (hplace : place ≤ index) :
    (load (index + size) source).tokens =
      (load index source).tokens.map (Relocation.gap place size).move := by
  have hshift : (load (index + size) source).tokens =
      (load index source).tokens.map fun t => { t with index := t.index + size } :=
    congrArg Scan.tokens (locate_shift 1 index size (segments source))
  rw [hshift]
  refine List.map_congr_left fun t ht => ?_
  have hlate : ¬ t.index < place := by
    have hrange := range_of_mem_load ht
    omega
  exact (if_neg hlate).symm

theorem faults_scanFrom_add :
    (scanFrom (index + size) source).faults = (scanFrom index source).faults := by
  rw [scanFrom,locate_shift]
  rfl

/-- The source has the same tree, up to the places of its tokens. -/
theorem load_gap (hplace : place ≤ index) (h : (load index source).diagnostics = []) :
    (load (index + size) source).diagnostics = [] ∧
      (load (index + size) source).statements =
        Stmt.relocateAll (.gap place size) (load index source).statements := by
  apply load_of_isProgram
  · rw [faults_scanFrom_add]
    exact faults_of_load h
  · have hmoved := (isProgram_of_load h).relocate (.gap place size)
    rw [← tokens_load_gap size hplace] at hmoved
    exact hmoved

/-- A source that can be read at later places can be read where it was. -/
theorem readable_of_add (h : (load (index + size) source).diagnostics = []) :
    (load index source).diagnostics = [] := by
  let back : Relocation := ⟨fun t => { t with index := t.index - size },fun _ => rfl,fun _ => rfl⟩
  have htokens : (load (index + size) source).tokens.map back.move = (load index source).tokens := by
    rw [tokens_load_gap size (Nat.zero_le index),List.map_map]
    have hback : ∀ t, (back.move ∘ (Relocation.gap 0 size).move) t = t := by
      intro t
      simp [back,Relocation.gap]
    rw [List.map_congr_left fun t _ => hback t,List.map_id']
  have hmoved := (isProgram_of_load h).relocate back
  rw [htokens] at hmoved
  refine (load_of_isProgram ?_ hmoved).1
  rw [← faults_scanFrom_add size]
  exact faults_of_load h

end

/-! ## Sessions that differ by a gap -/

/-- An entry behind the gap for each entry in front of it. -/
def Resolver.TableRelation.gap (place size : Nat) : TableRelation (.gap place size) where
  holds table table' := ∀ x : Token,
    table'[((Relocation.gap place size).move x).index]? = table[x.index]?
  insert := by
    intro table table' h x distance y
    have hsame := Relocation.index_gap_inj place size x y
    by_cases heq : x.index = y.index
    · simp [heq,hsame.2 heq]
    · have hmoved : ¬ _ := fun hindex => heq (hsame.1 hindex)
      simp [Std.TreeMap.getElem?_insert,heq,hmoved,h y]

namespace Session

/-- The second session is the first one, with all tokens from a place on behind a gap. -/
structure Widens (place size : Nat) (s t : Session) : Prop where
  place_le : place ≤ s.nextIndex
  nextIndex : t.nextIndex = s.nextIndex + size
  table : (Resolver.TableRelation.gap place size).holds s.table t.table
  machine : t.machine = s.machine.relocate (.gap place size) []

namespace Widens

variable {place size : Nat} {s t : Session} {r : Request}

theorem readable_iff (h : Widens place size s t) (source : Bytes) :
    (load t.nextIndex source).diagnostics = [] ↔ (load s.nextIndex source).diagnostics = [] := by
  rw [h.nextIndex]
  exact ⟨readable_of_add size,fun hload => (load_gap size h.place_le hload).1⟩

theorem length_tokens (h : Widens place size s t) (source : Bytes) :
    (load t.nextIndex source).tokens.length = (load s.nextIndex source).tokens.length := by
  rw [h.nextIndex,tokens_load_gap size h.place_le,List.length_map]

/-- Places are taken on both sides. -/
theorem past (h : Widens place size s t) (source : Bytes) :
    Widens place size (s.past (load s.nextIndex source).tokens)
      (t.past (load t.nextIndex source).tokens) where
  place_le := Nat.le_trans h.place_le (Nat.le_add_right _ _)
  nextIndex := by
    have hlength := h.length_tokens source
    have hindex := h.nextIndex
    simp only [Session.past]
    omega
  table := h.table
  machine := h.machine

section

variable (h : Widens place size s t) (hload : (load s.nextIndex r.source).diagnostics = [])

include h hload

theorem statements : (load t.nextIndex r.source).statements =
    Stmt.relocateAll (.gap place size) (load s.nextIndex r.source).statements := by
  rw [h.nextIndex]
  exact (load_gap size h.place_le hload).2

theorem faults : (resolve t.table (load t.nextIndex r.source).statements).faults =
    (resolve s.table (load s.nextIndex r.source).statements).faults.map
      (StaticFault.relocate (.gap place size)) := by
  rw [h.statements hload]
  exact faults_relocate (.gap place size) s.table t.table _

theorem resolved : (Resolver.TableRelation.gap place size).holds
    (resolve s.table (load s.nextIndex r.source).statements).table
    (resolve t.table (load t.nextIndex r.source).statements).table := by
  rw [h.statements hload]
  have hstart : Resolver.Parallel (.gap place size) (.gap place size) { table := s.table }
      { table := t.table } := ⟨rfl,rfl,rfl,h.table,rfl⟩
  exact (Resolver.parallel_stmts (load s.nextIndex r.source).statements hstart).table

/-- The same evaluation, at the moved tokens. -/
theorem evaluation : t.evaluation r = relocateResult (.gap place size) [] id (s.evaluation r) := by
  have hctx : Carries (.gap place size)
      ⟨(resolve s.table (load s.nextIndex r.source).statements).table,r.processVars⟩
      ⟨(resolve t.table (load t.nextIndex r.source).statements).table,r.processVars⟩ :=
    ⟨h.resolved hload,rfl⟩
  have hmachine : { t.machine with printed := [] } =
      ({ s.machine with printed := [] } : Machine).relocate (.gap place size) [] := by
    rw [h.machine]
    rfl
  have hmoves := moves_program hctx [] r.budget (load s.nextIndex r.source).statements
    { s.machine with printed := [] }
  rw [← h.statements hload,← hmachine] at hmoves
  exact hmoves

end

/-- A run is rejected in both sessions, or gives the same answer in both, and keeps the gap. -/
theorem perform (h : Widens place size s t) (r : Request) :
    ((s.perform r).1.ending = .rejected ∧ (t.perform r).1.ending = .rejected ∨
      (t.perform r).1.answer = (s.perform r).1.answer) ∧
      Widens place size (s.perform r).2 (t.perform r).2 := by
  have hpast := h.past r.source
  by_cases hload : (load s.nextIndex r.source).diagnostics = []
  · have hload' := (h.readable_iff r.source).2 hload
    have hfaults := h.faults hload
    have hresolved := h.resolved hload
    by_cases hclean : (resolve s.table (load s.nextIndex r.source).statements).faults = []
    · rw [hclean,List.map_nil] at hfaults
      obtain ⟨hanswer,hafter⟩ := perform_of_resolved hload hclean
      obtain ⟨hanswer',hafter'⟩ := perform_of_resolved hload' hfaults
      have hresult := h.evaluation hload
      refine ⟨.inr ?_,?_⟩
      · rw [hanswer,hanswer',hresult,Report.ofResult_relocate _ _ (Relocation.line_gap place size)]
      · rw [hafter,hafter',hresult,machineAfter_relocate]
        exact { hpast with table := hresolved, machine := rfl }
    · have hunclean : (resolve t.table (load t.nextIndex r.source).statements).faults ≠ [] := by
        rw [hfaults]
        simpa using hclean
      obtain ⟨hanswer,hafter⟩ := perform_of_unresolved hload hclean
      obtain ⟨hanswer',hafter'⟩ := perform_of_unresolved hload' hunclean
      refine ⟨.inl ⟨congrArg Answer.ending hanswer,congrArg Answer.ending hanswer'⟩,?_⟩
      rw [hafter,hafter']
      exact { hpast with table := hresolved }
  · have hload' : (load t.nextIndex r.source).diagnostics ≠ [] := by
      rwa [ne_eq,h.readable_iff r.source]
    obtain ⟨hanswer,hafter⟩ := perform_of_unreadable hload
    obtain ⟨hanswer',hafter'⟩ := perform_of_unreadable hload'
    refine ⟨.inl ⟨congrArg Answer.ending hanswer,congrArg Answer.ending hanswer'⟩,?_⟩
    rw [hafter,hafter']
    exact hpast

end Widens

/-! ## Calls without a trace -/

/-- A run that was not rejected. -/
def counts : Call × Answer → Bool
  | (.run _,answer) => answer.ending ≠ .rejected
  | (.showTree _,_) => false

theorem Widens.transcript {place size : Nat} {s t : Session} (h : Widens place size s t)
    (calls : List Call) :
    (t.transcript calls).filter counts = (s.transcript calls).filter counts := by
  induction calls generalizing s t with
  | nil => rfl
  | cons c rest ih =>
    cases c with
    | showTree source =>
      have hnext := h.past source
      rw [← showTree_snd,← showTree_snd] at hnext
      exact ih hnext
    | run r =>
      obtain ⟨hsame,hnext⟩ := h.perform r
      have hrest := ih hnext
      rcases hsame with ⟨hs,ht⟩ | hanswer
      · have hskip : counts (.run r,(s.perform r).1.answer) = false := by simp [counts,Report.answer,hs]
        have hskip' : counts (.run r,(t.perform r).1.answer) = false := by simp [counts,Report.answer,ht]
        simpa [Session.transcript,obey,hskip,hskip'] using hrest
      · simp only [Session.transcript,obey,hanswer,List.filter_cons,hrest]

theorem Tidy.past {s : Session} (h : s.Tidy) (source : Bytes) :
    (s.past (load s.nextIndex source).tokens).Tidy where
  free i hi := h.free i (Nat.le_trans (Nat.le_add_right _ _) hi)
  below := h.below.mono (Nat.le_add_right _ _)

/-- A call that does not count leaves the session as it was, up to a gap. -/
theorem Tidy.widens {s : Session} (h : s.Tidy) {c : Call}
    (hc : counts (c,(s.obey c).1.answer) = false) :
    ∃ size, Widens s.nextIndex size s (s.obey c).2 := by
  have hmachine : ∀ size, s.machine = s.machine.relocate (.gap s.nextIndex size) [] :=
    fun size => (h.below _ (Relocation.fixes_gap s.nextIndex size)).symm
  -- Entries in front of the gap are the old ones, and behind it there are none.
  have hentries : ∀ size (table : Table), (∀ i, i < s.nextIndex ∨ s.nextIndex + size ≤ i →
      table[i]? = s.table[i]?) →
      (Resolver.TableRelation.gap s.nextIndex size).holds s.table table := by
    intro size table hsame x
    rw [Relocation.index_gap]
    split
    · next hearly => exact hsame _ (.inl hearly)
    · next hlate =>
      have hx : s.nextIndex ≤ x.index := Nat.not_lt.1 hlate
      rw [hsame _ (.inr (Nat.add_le_add_right hx size)),h.free _ hx]
      exact h.free _ (Nat.le_trans hx (Nat.le_add_right _ _))
  have hpast : ∀ source, Widens s.nextIndex (load s.nextIndex source).tokens.length s
      (s.past (load s.nextIndex source).tokens) := fun source =>
    ⟨Nat.le_refl _,rfl,hentries _ _ fun _ _ => rfl,hmachine _⟩
  cases c with
  | showTree source =>
    have hnext : (s.obey (.showTree source)).2 = _ := showTree_snd source
    rw [hnext]
    exact ⟨_,hpast source⟩
  | run r =>
    have hrejected : (s.perform r).1.answer.ending = .rejected :=
      Decidable.not_not.1 (of_decide_eq_false hc)
    have hnext : (s.obey (.run r)).2 = (s.perform r).2 := rfl
    rw [hnext]
    by_cases hload : (load s.nextIndex r.source).diagnostics = []
    · by_cases hclean : (resolve s.table (load s.nextIndex r.source).statements).faults = []
      · rw [(perform_of_resolved hload hclean).1] at hrejected
        exact absurd hrejected (Report.ending_ofResult_ne_rejected _)
      · rw [(perform_of_unresolved hload hclean).2]
        refine ⟨_,{ hpast r.source with table := hentries _ _ fun i hi => ?_ }⟩
        exact resolve_load_getElem? s.table hload hi
    · rw [(perform_of_unreadable hload).2]
      exact ⟨_,hpast r.source⟩

theorem Tidy.obey {s : Session} (h : s.Tidy) (c : Call) : (s.obey c).2.Tidy := by
  cases c with
  | run r => exact h.perform r
  | showTree source =>
    have hnext : (s.obey (.showTree source)).2 = _ := showTree_snd source
    rw [hnext]
    exact h.past source

theorem Tidy.transcript {s : Session} (h : s.Tidy) (calls : List Call) :
    s.transcript (((s.transcript calls).filter counts).map Prod.fst) =
      (s.transcript calls).filter counts := by
  induction calls generalizing s with
  | nil => rfl
  | cons c rest ih =>
    cases hcounts : counts (c,(s.obey c).1.answer) with
    | true =>
      have hrest := ih (h.obey c)
      simp only [Session.transcript,List.filter_cons,hcounts,if_true,List.map_cons,hrest]
    | false =>
      obtain ⟨size,hwidens⟩ := h.widens hcounts
      have hskip : (s.transcript (c :: rest)).filter counts = (s.transcript rest).filter counts := by
        rw [← hwidens.transcript rest]
        simp [Session.transcript,hcounts]
      rw [hskip]
      exact ih h

/-- Rejected sources leave no trace: take any calls of a session, runs of sources and requests to
show trees, and leave out all but the runs that are not rejected. What is left ends in the same way,
reports the same diagnostics and prints the same lines as before. -/
theorem transcript_of_counting (clock : Clock) (calls : List Call) :
    let counting := ((start clock).transcript calls).filter counts
    (start clock).transcript (counting.map Prod.fst) = counting :=
  Tidy.transcript ⟨placesFree_start clock,Machine.below_start clock⟩ calls

/-- A rejected source can leave distances behind, here that of the second `a`. -/
example : ((start {}).perform ⟨utf8 "\x7b var a = 1; print a; return; \x7d",9,.empty⟩).1.ending = .rejected ∧
    ((start {}).perform ⟨utf8 "\x7b var a = 1; print a; return; \x7d",9,.empty⟩).2.table[7]? = some 0 := by
  decide +kernel

end Session

end Scriptlet
