import Scriptlet.Command
import Scriptlet.Proofs.Histories

/-! # Entries of an interactive session

What the lines of an interactive session amount to, said of the list of events alone: lines are
collected up to the first one after which no brace is left open, an interrupt drops those collected so
far, and the word that ends the session counts only where nothing is pending. There is one way to
group events like this. The session runs the entries among the groups, one after the other, and
nothing else.
-/
namespace Scriptlet

/-- How many more braces some lines open than they close. -/
def balance (lines : List Bytes) : Int :=
  (lines.flatten.count Entry.openBrace : Int) - lines.flatten.count Entry.closeBrace

/-- Lines that wait for more: a brace is open after each of them. -/
def Waiting (lines : List Bytes) : Prop := ∀ front, front <+: lines → front ≠ [] → 0 < balance front

/-- A text of blank characters only. -/
def OnlyBlanks (text : Bytes) : Prop :=
  ∃ pieces : List Bytes, (∀ p ∈ pieces, p ∈ blankTexts) ∧ pieces.flatten = text

/-- What some events amount to. -/
inductive Group where
  | entry (lines : List Bytes)
  | blank (lines : List Bytes)
  | interrupted (lines : List Bytes)
  | exit (line : Bytes)
  | ended (lines : List Bytes)
  | waiting (lines : List Bytes)
  deriving DecidableEq, Repr

namespace Group

/-- The events that a group consists of. -/
def events : Group → List ReaderEvent
  | .entry lines | .blank lines | .waiting lines => lines.map .line
  | .interrupted lines => lines.map .line ++ [.interrupt]
  | .exit line => [.line line]
  | .ended lines => lines.map .line ++ [.endOfInput]

/-- The text that a group asks to run. -/
def source? : Group → Option Bytes
  | .entry lines => some (unlines lines)
  | _ => none

/-- Whether the session is over after a group. -/
def isLast : Group → Bool
  | .exit _ | .ended _ => true
  | _ => false

end Group

/-- The lines that are complete with `last`. Where nothing is pending, the word that ends the session
is no such line. -/
structure Completes (front : List Bytes) (last : Bytes) : Prop where
  waiting : Waiting front
  balanced : balance (front ++ [last]) ≤ 0
  ordinary : front = [] → trimBlanks last ≠ exitWord

/-- The events of an interactive session in groups. Nothing is read behind the end of the input or the
word that ends the session. -/
inductive Groups : List ReaderEvent → List Group → Prop
  | entry {front : List Bytes} {last : Bytes} {rest : List ReaderEvent} {groups : List Group} :
      Completes front last → ¬ OnlyBlanks (unlines (front ++ [last])) → Groups rest groups →
      Groups ((front ++ [last]).map .line ++ rest) (.entry (front ++ [last]) :: groups)
  | blank {front : List Bytes} {last : Bytes} {rest : List ReaderEvent} {groups : List Group} :
      Completes front last → OnlyBlanks (unlines (front ++ [last])) → Groups rest groups →
      Groups ((front ++ [last]).map .line ++ rest) (.blank (front ++ [last]) :: groups)
  | interrupted {lines : List Bytes} {rest : List ReaderEvent} {groups : List Group} :
      Waiting lines → Groups rest groups →
      Groups (lines.map .line ++ .interrupt :: rest) (.interrupted lines :: groups)
  | exit {line : Bytes} {rest : List ReaderEvent} :
      trimBlanks line = exitWord → Groups (.line line :: rest) [.exit line]
  | ended {lines : List Bytes} {rest : List ReaderEvent} :
      Waiting lines → Groups (lines.map .line ++ .endOfInput :: rest) [.ended lines]
  | waiting {lines : List Bytes} : Waiting lines → Groups (lines.map .line) [.waiting lines]

/-! ## Blank texts -/

section

variable {pieces : List Bytes} {text : Bytes} {limit : Nat}

/-- Only pieces are dropped. -/
theorem exists_dropped (pieces : List Bytes) (limit : Nat) (text : Bytes) :
    ∃ parts : List Bytes, (∀ p ∈ parts, p ∈ pieces) ∧
      text = parts.flatten ++ dropPieces pieces limit text := by
  fun_induction dropPieces pieces limit text with
  | case1 text => exact ⟨[],by simp,by simp⟩
  | case2 limit text piece hfind ih =>
    obtain ⟨parts,hparts,htext⟩ := ih
    have hmem := List.mem_of_find?_eq_some hfind
    have hbegin : piece.isPrefixOf text := by simpa using List.find?_some hfind
    have hfront := List.prefix_iff_eq_append.1 (List.isPrefixOf_iff_prefix.1 hbegin)
    refine ⟨piece :: parts,?_,?_⟩
    · simpa [hmem] using hparts
    · rw [List.flatten_cons,List.append_assoc,← htext,hfront]
  | case3 limit text hfind => exact ⟨[],by simp,by simp⟩

/-- Where no piece is the beginning of another one, all of a text of pieces is dropped. -/
theorem dropPieces_flatten (hne : [] ∉ pieces) (hfree : ∀ p ∈ pieces, ∀ q ∈ pieces, p <+: q → p = q)
    {parts : List Bytes} (hparts : ∀ p ∈ parts, p ∈ pieces) (hlimit : parts.flatten.length ≤ limit) :
    dropPieces pieces limit parts.flatten = [] := by
  induction parts generalizing limit with
  | nil =>
    have hnone : pieces.find? (·.isPrefixOf []) = none := by
      apply List.find?_eq_none.2
      intro p hp hbegin
      rw [List.isPrefixOf_iff_prefix,List.prefix_nil] at hbegin
      exact hne (hbegin ▸ hp)
    cases limit <;> simp [dropPieces,hnone]
  | cons part parts ih =>
    have hpart := hparts part List.mem_cons_self
    have hlength : 0 < part.length := List.length_pos_iff.2 fun h => hne (h ▸ hpart)
    rw [List.flatten_cons,List.length_append] at hlimit
    obtain ⟨limit,rfl⟩ : ∃ n, limit = n + 1 := ⟨limit - 1,by omega⟩
    -- Some piece is found, and it can only be the one that stands there.
    have hfind : pieces.find? (·.isPrefixOf (part ++ parts.flatten)) = some part := by
      cases h : pieces.find? (·.isPrefixOf (part ++ parts.flatten)) with
      | none =>
        have hno := List.find?_eq_none.1 h part hpart
        simp at hno
      | some p =>
        have hmem := List.mem_of_find?_eq_some h
        have hbegin : p.isPrefixOf (part ++ parts.flatten) := by simpa using List.find?_some h
        rcases List.prefix_or_prefix_of_prefix (List.isPrefixOf_iff_prefix.1 hbegin)
          (List.prefix_append part _) with hp | hp
        · rw [hfree p hmem part hpart hp]
        · rw [hfree part hpart p hmem hp]
    rw [List.flatten_cons,dropPieces,hfind]
    simp only [List.drop_left]
    exact ih (fun p hp => hparts p (List.mem_cons_of_mem part hp)) (by omega)

theorem trimBlanks_parts (text : Bytes) : ∃ front back, OnlyBlanks front ∧ OnlyBlanks back ∧
    text = front ++ trimBlanks text ++ back := by
  obtain ⟨front,hfront,htext⟩ := exists_dropped blankTexts text.length text
  let rest := dropPieces blankTexts text.length text
  obtain ⟨back,hback,hrest⟩ :=
    exists_dropped (blankTexts.map List.reverse) rest.length rest.reverse
  refine ⟨front.flatten,(back.map List.reverse).reverse.flatten,⟨front,hfront,rfl⟩,⟨_,?_,rfl⟩,?_⟩
  · intro p hp
    obtain ⟨q,hq,rfl⟩ := List.mem_map.1 (List.mem_reverse.1 hp)
    obtain ⟨r,hr,rfl⟩ := List.mem_map.1 (hback q hq)
    rwa [List.reverse_reverse]
  · have hreverse := congrArg List.reverse hrest
    rw [List.reverse_reverse,List.reverse_append,List.reverse_flatten] at hreverse
    rw [List.append_assoc]
    exact htext.trans (congrArg (front.flatten ++ ·) hreverse)

theorem trimBlanks_eq_nil_iff (text : Bytes) : trimBlanks text = [] ↔ OnlyBlanks text := by
  constructor
  · intro h
    obtain ⟨front,back,⟨fronts,hfronts,rfl⟩,⟨backs,hbacks,rfl⟩,htext⟩ := trimBlanks_parts text
    refine ⟨fronts ++ backs,?_,?_⟩
    · intro p hp
      exact (List.mem_append.1 hp).elim (hfronts p) (hbacks p)
    · rw [htext,h,List.append_nil,List.flatten_append]
  · rintro ⟨parts,hparts,rfl⟩
    have hall : dropPieces blankTexts parts.flatten.length parts.flatten = [] :=
      dropPieces_flatten (by decide) (by decide) hparts (Nat.le_refl _)
    simp only [trimBlanks,hall]
    rfl

theorem count_of_onlyBlanks {b : UInt8} (hb : ∀ p ∈ blankTexts, b ∉ p) (h : OnlyBlanks text) :
    text.count b = 0 := by
  obtain ⟨parts,hparts,rfl⟩ := h
  apply List.count_eq_zero.2
  rw [List.mem_flatten]
  rintro ⟨part,hpart,hmem⟩
  exact hb part (hparts part hpart) hmem

/-- Trimming drops no byte that no blank has. -/
theorem count_trimBlanks {b : UInt8} (hb : ∀ p ∈ blankTexts, b ∉ p) (text : Bytes) :
    (trimBlanks text).count b = text.count b := by
  obtain ⟨front,back,hfront,hback,htext⟩ := trimBlanks_parts text
  have hcount := congrArg (List.count b) htext
  rw [List.count_append,List.count_append,count_of_onlyBlanks hb hfront,
    count_of_onlyBlanks hb hback] at hcount
  omega

end

/-! ## Lines that wait -/

section

variable {lines more : List Bytes} {line : Bytes}

theorem balance_append (lines : List Bytes) (line : Bytes) :
    balance (lines ++ [line]) =
      balance lines + line.count Entry.openBrace - line.count Entry.closeBrace := by
  simp only [balance,List.flatten_append,List.flatten_cons,List.flatten_nil,List.append_nil,
    List.count_append]
  omega

theorem waiting_nil : Waiting [] := by
  intro front hfront hne
  exact absurd (List.prefix_nil.1 hfront) hne

theorem Waiting.append (h : Waiting lines) (hline : 0 < balance (lines ++ [line])) :
    Waiting (lines ++ [line]) := by
  intro front hfront hne
  rcases List.prefix_concat_iff.1 hfront with rfl | hfront
  · exact hline
  · exact h front hfront hne

theorem Waiting.balance_pos_iff (h : Waiting lines) : 0 < balance lines ↔ lines ≠ [] := by
  constructor
  · rintro hpos rfl
    exact absurd hpos (by decide)
  · exact h lines (List.prefix_refl lines)

theorem Waiting.balance_nonneg (h : Waiting lines) : 0 ≤ balance lines := by
  rcases List.eq_nil_or_concat lines with rfl | ⟨front,line,rfl⟩
  · decide
  · have hpos := h.balance_pos_iff.2 (by simp)
    omega

/-- The word that ends the session opens no brace. -/
theorem balance_of_exit (h : trimBlanks line = exitWord) : balance [line] = 0 := by
  have hopen := count_trimBlanks (b := Entry.openBrace) (by decide) line
  have hclose := count_trimBlanks (b := Entry.closeBrace) (by decide) line
  rw [h] at hopen hclose
  have hnone : exitWord.count Entry.openBrace = exitWord.count Entry.closeBrace := by decide
  simp only [balance,List.flatten_cons,List.flatten_nil,List.append_nil]
  omega

end

/-! ## There is one way to group events -/

/-- The groups of some events that are read while `lines` are pending. -/
def groupsFrom (lines : List Bytes) : List ReaderEvent → List Group
  | [] => [.waiting lines]
  | .endOfInput :: _ => [.ended lines]
  | .interrupt :: rest => .interrupted lines :: groupsFrom [] rest
  | .line line :: rest =>
    if lines = [] ∧ trimBlanks line = exitWord then [.exit line]
    else if 0 < balance (lines ++ [line]) then groupsFrom (lines ++ [line]) rest
    else if trimBlanks (unlines (lines ++ [line])) = [] then
      .blank (lines ++ [line]) :: groupsFrom [] rest
    else .entry (lines ++ [line]) :: groupsFrom [] rest

theorem Waiting.completes {lines : List Bytes} {line : Bytes} (h : Waiting lines)
    (hexit : ¬ (lines = [] ∧ trimBlanks line = exitWord)) (hpos : ¬ 0 < balance (lines ++ [line])) :
    Completes lines line :=
  ⟨h,Int.not_lt.1 hpos,fun hnil hline => hexit ⟨hnil,hline⟩⟩

theorem groups_groupsFrom {lines : List Bytes} (h : Waiting lines) (events : List ReaderEvent) :
    Groups (lines.map .line ++ events) (groupsFrom lines events) := by
  fun_induction groupsFrom lines events with
  | case1 lines => simpa using Groups.waiting h
  | case2 lines rest => exact .ended h
  | case3 lines rest ih => exact .interrupted h (ih waiting_nil)
  | case4 lines line rest hexit =>
    obtain ⟨rfl,hline⟩ := hexit
    exact .exit hline
  | case5 lines line rest hexit hpos ih => simpa using ih (h.append hpos)
  | case6 lines line rest hexit hpos hblank ih =>
    simpa using Groups.blank (h.completes hexit hpos) ((trimBlanks_eq_nil_iff _).1 hblank) (ih waiting_nil)
  | case7 lines line rest hexit hpos hblank ih =>
    simpa using Groups.entry (h.completes hexit hpos) (mt (trimBlanks_eq_nil_iff _).2 hblank) (ih waiting_nil)

/-- Lines that wait are collected. -/
theorem groupsFrom_append (lines : List Bytes) {more : List Bytes} (h : Waiting (lines ++ more))
    (rest : List ReaderEvent) :
    groupsFrom lines (more.map .line ++ rest) = groupsFrom (lines ++ more) rest := by
  induction more generalizing lines with
  | nil => simp
  | cons line more ih =>
    have hpos : 0 < balance (lines ++ [line]) := h _ (by simp) (by simp)
    have hexit : ¬ (lines = [] ∧ trimBlanks line = exitWord) := by
      rintro ⟨rfl,hline⟩
      rw [List.nil_append,balance_of_exit hline] at hpos
      exact absurd hpos (by decide)
    rw [List.map_cons,List.cons_append,groupsFrom,if_neg hexit,if_pos hpos,ih _ (by simpa using h)]
    simp

/-- The line that completes an entry is the last one of its group. -/
theorem groupsFrom_completes {front : List Bytes} {last : Bytes} (h : Completes front last)
    (rest : List ReaderEvent) :
    groupsFrom [] ((front ++ [last]).map .line ++ rest) =
      (if trimBlanks (unlines (front ++ [last])) = [] then .blank (front ++ [last])
        else .entry (front ++ [last])) :: groupsFrom [] rest := by
  have hexit : ¬ (front = [] ∧ trimBlanks last = exitWord) := by
    rintro ⟨hnil,hline⟩
    exact h.ordinary hnil hline
  rw [List.map_append,List.append_assoc,groupsFrom_append [] h.waiting]
  simp only [List.nil_append,List.map_cons,List.map_nil,List.cons_append,groupsFrom,if_neg hexit,
    if_neg (Int.not_lt.2 h.balanced)]
  split <;> rfl

theorem Groups.eq_groupsFrom {events : List ReaderEvent} {groups : List Group}
    (h : Groups events groups) : groups = groupsFrom [] events := by
  induction h with
  | entry hcompletes hblank _ ih =>
    rw [groupsFrom_completes hcompletes,if_neg (mt (trimBlanks_eq_nil_iff _).1 hblank),ih]
  | blank hcompletes hblank _ ih =>
    rw [groupsFrom_completes hcompletes,if_pos ((trimBlanks_eq_nil_iff _).2 hblank),ih]
  | interrupted hwaiting _ ih =>
    rw [groupsFrom_append [] hwaiting,List.nil_append,groupsFrom,ih]
  | exit hline => rw [groupsFrom,if_pos ⟨rfl,hline⟩]
  | ended hwaiting => rw [groupsFrom_append [] hwaiting,List.nil_append,groupsFrom]
  | @waiting lines hwaiting =>
    have hall := groupsFrom_append [] hwaiting []
    rw [List.append_nil,List.nil_append] at hall
    rw [hall,groupsFrom]

theorem groups_iff (events : List ReaderEvent) (groups : List Group) :
    Groups events groups ↔ groups = groupsFrom [] events := by
  constructor
  · exact Groups.eq_groupsFrom
  · rintro rfl
    exact groups_groupsFrom waiting_nil events

/-- Nothing is put into groups that was not read, in the order in which it was read. -/
theorem Groups.events_read {events : List ReaderEvent} {groups : List Group}
    (h : Groups events groups) : groups.flatMap Group.events <+: events := by
  induction h with
  | entry _ _ _ ih | blank _ _ _ ih => simpa [Group.events] using ih
  | interrupted _ _ ih => simpa [Group.events] using ih
  | exit _ => simp [Group.events]
  | ended _ => simp [Group.events]
  | waiting _ => simp [Group.events]

/-- Everything is read, unless the session is over before. -/
theorem Groups.all_read {events : List ReaderEvent} {groups : List Group} (h : Groups events groups) :
    groups.flatMap Group.events = events ∨ ∃ group ∈ groups, group.isLast := by
  induction h with
  | entry _ _ _ ih | blank _ _ _ ih => simpa [Group.events,Group.isLast] using ih
  | interrupted _ _ ih => simpa [Group.events,Group.isLast] using ih
  | exit _ => exact .inr ⟨_,List.mem_singleton_self _,rfl⟩
  | ended _ => exact .inr ⟨_,List.mem_singleton_self _,rfl⟩
  | waiting _ => exact .inl (by simp [Group.events])

/-! ## What the session makes of an event -/

/-- The entry that some waiting lines have become. -/
def Entry.ofLines (lines : List Bytes) : Entry := ⟨unlines lines,(balance lines).toNat⟩

section

variable {lines : List Bytes}

theorem Waiting.pending_iff (h : Waiting lines) : (Entry.ofLines lines).pending = true ↔ lines ≠ [] := by
  have hpos := h.balance_pos_iff
  rw [Entry.pending,decide_eq_true_iff,← hpos]
  exact Int.lt_toNat

theorem Waiting.respond_interrupt (h : Waiting lines) :
    (Entry.ofLines lines).respond .interrupt =
      (Entry.ofLines [],if lines = [] then .hint else .wait) := by
  by_cases hnil : lines = []
  · subst hnil
    rfl
  · rw [Entry.respond,if_pos (h.pending_iff.2 hnil),if_neg hnil]
    rfl

theorem Waiting.add (h : Waiting lines) (line : Bytes) :
    (Entry.ofLines lines).add line =
      if 0 < balance (lines ++ [line]) then (Entry.ofLines (lines ++ [line]),none)
      else (Entry.ofLines [],some (unlines (lines ++ [line]))) := by
  have hbalance := balance_append lines line
  have hnonneg := h.balance_nonneg
  have hlines : unlines lines ++ line ++ [newline] = unlines (lines ++ [line]) := by simp [unlines]
  simp only [Entry.add,Entry.ofLines,hlines]
  by_cases hpos : 0 < balance (lines ++ [line])
  · rw [if_pos hpos,if_pos (by omega)]
    congr 2
    omega
  · rw [if_neg hpos,if_neg (by omega)]
    rfl

theorem Waiting.respond_line (h : Waiting lines) (line : Bytes) :
    (Entry.ofLines lines).respond (.line line) =
      if lines = [] ∧ trimBlanks line = exitWord then (Entry.ofLines lines,.quit)
      else if 0 < balance (lines ++ [line]) then (Entry.ofLines (lines ++ [line]),.wait)
      else (Entry.ofLines [],if trimBlanks (unlines (lines ++ [line])) = [] then .wait
        else .run (unlines (lines ++ [line]))) := by
  have hpending : (!(Entry.ofLines lines).pending) = true ↔ lines = [] := by
    have hiff := h.pending_iff
    grind
  simp only [Entry.respond,hpending,h.add line]
  by_cases hpos : 0 < balance (lines ++ [line])
  · simp only [if_pos hpos]
  · simp only [if_neg hpos]

end

/-! ## The session runs the entries -/

theorem Palette.diagnostics_flatMap {α : Type} (p : Palette) (f : α → List Diagnostic) (xs : List α) :
    p.diagnostics (xs.flatMap f) = xs.flatMap fun x => p.diagnostics (f x) := by
  simp [Palette.diagnostics,unlines,List.flatMap_assoc,List.map_flatMap]

/-- The reports of the runs of some sources, one after the other. -/
def Session.reports (s : Session) : List Request → List Report
  | [] => []
  | r :: rest => (s.perform r).1 :: (s.perform r).2.reports rest

/-- A run makes something known. -/
theorem Session.events_perform_ne_nil (s : Session) (r : Request) : (s.perform r).1.events ≠ [] := by
  have hload : (load s.nextIndex r.source).events ≠ [] := by simp [load]
  simp only [perform,run]
  split
  · exact hload
  · split <;> simp

namespace ReplStep

/-- The step that runs an entry. -/
def ofReport (r : Report) : ReplStep :=
  { shown := r.printed, diagnostics := r.diagnostics, events := r.events }

/-- Whether a step runs anything. -/
def runs (s : ReplStep) : Bool := s.events ≠ []

/-- The steps that run nothing: a line that waits for more or an empty entry, an interrupt where
nothing is pending, the word that ends the session, and the end of the input. -/
def idle (p : Palette) : List ReplStep :=
  [{},{ shown := [Repl.hintLine p] },{ finished := true },{ shown := [[]], finished := true }]

end ReplStep

/-- Steps that follow some groups of events, where the first `pending` events of the groups took
steps before. The reports are those of the texts that are run. -/
structure Follows (p : Palette) (pending : Nat) (groups : List Group) (reports : List Report)
    (steps : List ReplStep) : Prop where
  length : pending + steps.length = (groups.flatMap Group.events).length
  runs : steps.filter ReplStep.runs = reports.map ReplStep.ofReport
  idle : ∀ step ∈ steps, step.runs = false → step ∈ ReplStep.idle p
  finished : (∃ step ∈ steps, step.finished) ↔ ∃ group ∈ groups, group.isLast

namespace Follows

variable {p : Palette} {pending : Nat} {group : Group} {groups : List Group} {report : Report}
  {reports : List Report} {step : ReplStep} {steps : List ReplStep}

/-- A line that waits for more takes one step. -/
theorem wait (h : Follows p (pending + 1) groups reports steps) :
    Follows p pending groups reports ({} :: steps) where
  length := by
    have hlength := h.length
    rw [List.length_cons]
    omega
  runs := h.runs
  idle := by
    rintro step (_ | ⟨_,hstep⟩) hruns
    · exact List.mem_cons_self
    · exact h.idle step hstep hruns
  finished := by simpa using h.finished

/-- The last event of a group that runs nothing. -/
theorem skip (h : Follows p 0 groups reports steps) (hlength : group.events.length = pending + 1)
    (hstep : step = {} ∨ step = { shown := [Repl.hintLine p] }) (hlast : group.isLast = false) :
    Follows p pending (group :: groups) reports (step :: steps) where
  length := by
    have hrest := h.length
    rw [List.length_cons,List.flatMap_cons,List.length_append]
    omega
  runs := by
    rw [List.filter_cons_of_neg (by rcases hstep with rfl | rfl <;> exact Bool.false_ne_true)]
    exact h.runs
  idle := by
    rintro step' (_ | ⟨_,hmem⟩) hruns
    · rcases hstep with rfl | rfl <;> simp [ReplStep.idle]
    · exact h.idle step' hmem hruns
  finished := by
    have hfinished : step.finished = false := by rcases hstep with rfl | rfl <;> rfl
    simpa [hfinished,hlast] using h.finished

/-- The last line of an entry. -/
theorem run (h : Follows p 0 groups reports steps) (hlength : group.events.length = pending + 1)
    (hevents : report.events ≠ []) (hlast : group.isLast = false) :
    Follows p pending (group :: groups) (report :: reports) (.ofReport report :: steps) where
  length := by
    have hrest := h.length
    rw [List.length_cons,List.flatMap_cons,List.length_append]
    omega
  runs := by
    have hruns : (ReplStep.ofReport report).runs = true := decide_eq_true hevents
    rw [List.filter_cons_of_pos hruns,h.runs,List.map_cons]
  idle := by
    rintro step (_ | ⟨_,hmem⟩) hruns
    · simp [ReplStep.runs,ReplStep.ofReport,hevents] at hruns
    · exact h.idle step hmem hruns
  finished := by simpa [ReplStep.ofReport,hlast] using h.finished

/-- The event that ends the session. -/
theorem last (hlength : group.events.length = pending + 1)
    (hstep : step = { finished := true } ∨ step = { shown := [[]], finished := true })
    (hlast : group.isLast = true) : Follows p pending [group] [] [step] where
  length := by simp [hlength]
  runs := by rcases hstep with rfl | rfl <;> rfl
  idle := by
    rintro step' (_ | ⟨_,⟨⟩⟩) _
    rcases hstep with rfl | rfl <;> simp [ReplStep.idle]
  finished := by
    have hfinished : step.finished = true := by rcases hstep with rfl | rfl <;> rfl
    simp [hfinished,hlast]

/-- Events may run out. -/
theorem nil (hlength : group.events.length = pending) (hlast : group.isLast = false) :
    Follows p pending [group] [] [] where
  length := by simp [hlength]
  runs := rfl
  idle := by simp
  finished := by simp [hlast]

/-- Only what is run has problems. -/
theorem diagnostics (h : Follows p pending groups reports steps) :
    steps.flatMap ReplStep.diagnostics = reports.flatMap Report.diagnostics := by
  have hidle : ∀ step ∈ steps, step.runs = false → step.diagnostics = [] := by
    intro step hmem hruns
    have hcases := h.idle step hmem hruns
    simp only [ReplStep.idle,List.mem_cons,List.not_mem_nil,or_false] at hcases
    rcases hcases with rfl | rfl | rfl | rfl <;> rfl
  have hfilter : steps.flatMap ReplStep.diagnostics =
      (steps.filter ReplStep.runs).flatMap ReplStep.diagnostics := by
    clear h
    induction steps with
    | nil => rfl
    | cons step steps ih =>
      have hrest := ih fun s hs => hidle s (List.mem_cons_of_mem step hs)
      cases hruns : step.runs with
      | true => rw [List.filter_cons_of_pos hruns,List.flatMap_cons,List.flatMap_cons,hrest]
      | false =>
        rw [List.filter_cons_of_neg (by simp [hruns]),List.flatMap_cons,hrest,
          hidle step List.mem_cons_self hruns,List.nil_append]
  rw [hfilter,h.runs,List.flatMap_map]
  rfl

end Follows

namespace Repl

/-- The runs that some groups ask for. -/
def requests (budget : Nat) (processVars : NameMap Bytes) (groups : List Group) : List Request :=
  (groups.filterMap Group.source?).map (⟨·,budget,processVars⟩)

theorem follows_groupsFrom {lines : List Bytes} (h : Waiting lines) (events : List ReaderEvent)
    (budget : Nat) (processVars : NameMap Bytes) (p : Palette) (session : Session) :
    Follows p lines.length (groupsFrom lines events)
      (session.reports (requests budget processVars (groupsFrom lines events)))
      (steps budget processVars p ⟨session,Entry.ofLines lines⟩ events) := by
  fun_induction groupsFrom lines events generalizing session with
  | case1 lines =>
    simp only [steps]
    exact .nil (by simp [Group.events]) rfl
  | case2 lines rest =>
    simp only [steps]
    exact .last (by simp [Group.events]) (.inr rfl) rfl
  | case3 lines rest ih =>
    simp only [steps,step,h.respond_interrupt]
    have hrest := ih waiting_nil session
    by_cases hnil : lines = []
    · rw [if_pos hnil]
      exact hrest.skip (by simp [Group.events]) (.inr rfl) rfl
    · rw [if_neg hnil]
      exact hrest.skip (by simp [Group.events]) (.inl rfl) rfl
  | case4 lines line rest hexit =>
    simp only [steps,step,h.respond_line,if_pos hexit]
    exact .last (by simp [Group.events,hexit.1]) (.inl rfl) rfl
  | case5 lines line rest hexit hpos ih =>
    simp only [steps,step,h.respond_line,if_neg hexit,if_pos hpos]
    have hrest := ih (h.append hpos) session
    rw [List.length_append] at hrest
    exact hrest.wait
  | case6 lines line rest hexit hpos hblank ih =>
    simp only [steps,step,h.respond_line,if_neg hexit,if_neg hpos,if_pos hblank]
    exact (ih waiting_nil session).skip (by simp [Group.events]) (.inl rfl) rfl
  | case7 lines line rest hexit hpos hblank ih =>
    simp only [steps,step,h.respond_line,if_neg hexit,if_neg hpos,if_neg hblank]
    let request : Request := ⟨unlines (lines ++ [line]),budget,processVars⟩
    have hrest := ih waiting_nil (session.perform request).2
    exact hrest.run (by simp [Group.events]) (session.events_perform_ne_nil request) rfl

/-- The events of an interactive session are grouped in one way, which does not depend on what is
run. The session runs the texts of the entries among the groups in this order, and no other step of
it runs anything; it is over exactly when a group says so. The command then ends well, having told
the problems of what was run. -/
theorem steps_follow_groups (events : List ReaderEvent) :
    ∃ groups, (∀ other, Groups events other ↔ other = groups) ∧
      groups.flatMap Group.events <+: events ∧
      (groups.flatMap Group.events = events ∨ ∃ group ∈ groups, group.isLast) ∧
      (∀ budget processVars p session,
        Follows p 0 groups (session.reports (requests budget processVars groups))
          (steps budget processVars p { session } events)) ∧
      ∀ budget host clock task input, ReaderEvent.ofInput input = events →
        let reports := (Session.start clock).reports (requests budget host.processVars groups)
        let result := Command.runRepl budget host clock task input
        result.code.number = 0 ∧
          result.complaints = task.palette.diagnostics (reports.flatMap Report.diagnostics) := by
  have hgroups := (groups_iff events _).2 rfl
  have hfollows := follows_groupsFrom waiting_nil events
  refine ⟨groupsFrom [] events,groups_iff events,hgroups.events_read,hgroups.all_read,hfollows,?_⟩
  rintro budget host clock task input rfl
  have hsteps := hfollows budget host.processVars task.palette (.start clock)
  refine ⟨rfl,?_⟩
  rw [← hsteps.diagnostics,Palette.diagnostics_flatMap]
  rfl

end Repl

end Scriptlet
