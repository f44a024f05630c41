import Scriptlet.Proofs.Relocation.Evaluation
import Scriptlet.Proofs.Relocation.Resolution
import Scriptlet.Proofs.Scanning
import Scriptlet.Proofs.Scoping.Sources

/-! # Running a source in pieces

Two sources can be run one after the other, or as one source with a line end between them. Both ways
print the same and leave the same state, but for the lines of the tokens of the second source. The
second run starts from a machine that knows only tokens of earlier places, so it does not notice
that those of the second source are moved; and the first part, run as part of the whole, can not
notice the entries that the table already has for the second.
-/
namespace Scriptlet

/-! ## Sources that can be run -/

/-- Scanning, parsing and resolving a source report nothing. -/
def Accepted (source : Bytes) : Prop :=
  (load 0 source).diagnostics = [] ∧ (resolve ∅ (load 0 source).statements).faults = []

instance (source : Bytes) : Decidable (Accepted source) := inferInstanceAs (Decidable (_ ∧ _))

theorem load_of_isProgram {index : Nat} {source : Bytes} {program : List Stmt}
    (hscan : (scanFrom index source).faults = [])
    (h : Grammar.IsProgram (scanFrom index source).tokens program) :
    (load index source).diagnostics = [] ∧ (load index source).statements = program := by
  simp [load,hscan,Grammar.parse_of_isProgram h]

theorem faults_of_load {index : Nat} {source : Bytes} (h : (load index source).diagnostics = []) :
    (scanFrom index source).faults = [] := by
  simpa [load] using (List.append_eq_nil_iff.1 h).1

theorem load_shift (index : Nat) {source : Bytes} (h : (load 0 source).diagnostics = []) :
    (load index source).diagnostics = [] ∧
      (load index source).statements = Stmt.relocateAll (.shift index) (load 0 source).statements := by
  have hscan := locate_shift 1 0 index (segments source)
  rw [Nat.zero_add] at hscan
  refine load_of_isProgram ?_ ?_
  · rw [scanFrom,hscan]
    exact faults_of_load h
  · rw [scanFrom,hscan]
    exact (isProgram_of_load h).relocate (.shift index)

/-- A source is accepted in every state of a session, or in none. -/
theorem Accepted.anywhere {source : Bytes} (h : Accepted source) (index : Nat) (table : Table) :
    (load index source).diagnostics = [] ∧
      (resolve table (load index source).statements).faults = [] := by
  obtain ⟨hload,hstatements⟩ := load_shift index h.1
  refine ⟨hload,?_⟩
  rw [hstatements,faults_relocate (.shift index) ∅ table,h.2,List.map_nil]

/-! ## Machines that know only earlier tokens -/

/-- Tokens of places before `place` stay where they are, and the others stay behind them. -/
structure Relocation.Fixes (ρ : Relocation) (place : Nat) : Prop where
  early : ∀ t, t.index < place → ρ.move t = t
  late : ∀ t, place ≤ t.index → place ≤ (ρ.move t).index

/-- All tokens in the values of a machine are of places before `place`. -/
def Machine.Below (place : Nat) (m : Machine) : Prop :=
  ∀ ρ : Relocation, ρ.Fixes place → m.relocate ρ [] = m

theorem Relocation.Fixes.mono {ρ : Relocation} {place place' : Nat} (h : ρ.Fixes place')
    (hle : place ≤ place') : ρ.Fixes place where
  early t ht := h.early t (Nat.lt_of_lt_of_le ht hle)
  late t ht := by
    rcases Nat.lt_or_ge t.index place' with hlt | hge
    · rwa [h.early t hlt]
    · exact Nat.le_trans hle (h.late t hge)

namespace Machine

variable {place place' : Nat} {m : Machine}

theorem Below.mono (h : m.Below place) (hle : place ≤ place') : m.Below place' :=
  fun ρ hρ => h ρ (hρ.mono hle)

/-- What was printed does not matter. -/
theorem Below.relocate {ρ : Relocation} (h : m.Below place) (hρ : ρ.Fixes place)
    (lines earlier : List Bytes) :
    ({ m with printed := lines } : Machine).relocate ρ earlier =
      { m with printed := lines ++ earlier } := by
  have hmoved : ({ m with printed := lines } : Machine).relocate ρ earlier =
      { m.relocate ρ [] with printed := lines ++ earlier } := rfl
  rw [hmoved,h ρ hρ]

theorem Below.clear (h : m.Below place) : Below place { m with printed := [] } :=
  fun _ hρ => h.relocate hρ [] []

theorem below_start (clock : Clock) : (start clock).Below place := by
  intro ρ _
  have hglobals : ((NameMap.ofList (Builtin.all.map fun b => (b.name,Value.builtin b))).map
      (Value.relocate ρ)) = NameMap.ofList (Builtin.all.map fun b => (b.name,Value.builtin b)) := by
    rw [NameMap.map_ofList]
    rfl
  simp [start,Machine.relocate,Store.relocate,Store.push,Env.relocate,hglobals]

end Machine

section

variable {place : Nat} {tokens : List Token} {ss : List Stmt} {m : Machine}

/-- A program of earlier tokens does not notice that other tokens are moved. -/
theorem program_of_carries {ρ : Relocation} {ctx ctx' : Context} (hctx : Carries ρ ctx ctx')
    (hρ : ρ.Fixes place) (hss : Grammar.IsProgram tokens ss) (hearly : ∀ t ∈ tokens, t.index < place)
    (hm : m.Below place) (budget : Nat) :
    Eval.program ctx' budget ss m = relocateResult ρ [] id (Eval.program ctx budget ss m) := by
  have hmoves := moves_program hctx [] budget ss m
  rwa [hss.relocateAll_eq ρ fun t ht => hρ.early t (hearly t ht),hm ρ hρ] at hmoves

theorem below_machineAfter {ctx : Context} (hfree : ∀ i, place ≤ i → ctx.table[i]? = none)
    (hss : Grammar.IsProgram tokens ss) (hearly : ∀ t ∈ tokens, t.index < place)
    (hm : m.Below place) (budget : Nat) :
    (machineAfter (Eval.program ctx budget ss m)).Below place := by
  intro ρ hρ
  have hctx : Carries ρ ctx ctx := by
    refine ⟨fun t => ?_,rfl⟩
    rcases Nat.lt_or_ge t.index place with hlt | hge
    · rw [hρ.early t hlt]
    · rw [hfree _ (hρ.late t hge),hfree _ hge]
  have hresult := congrArg machineAfter (program_of_carries hctx hρ hss hearly hm budget)
  cases hp : Eval.program ctx budget ss m <;> rw [hp] at hresult <;> exact hresult.symm

/-- A program of earlier tokens does not notice entries for later ones. -/
theorem program_of_table {ctx ctx' : Context} {budget : Nat} {m' : Machine}
    (h : Eval.program ctx budget ss m = .ok () m') (hvars : ctx'.processVars = ctx.processVars)
    (hsame : ∀ i, i < place → ctx'.table[i]? = ctx.table[i]?)
    (hfree : ∀ i, place ≤ i → ctx.table[i]? = none) {free : Nat} (hplace : place ≤ free)
    (hunused : ctx'.table[free]? = none) (hss : Grammar.IsProgram tokens ss)
    (hearly : ∀ t ∈ tokens, t.index < place) (hm : m.Below place) :
    Eval.program ctx' budget ss m = .ok () m' := by
  -- All later tokens are moved to one place for which there is no entry.
  let κ : Relocation :=
    ⟨fun t => if t.index < place then t else { t with index := free },
      fun t => by split <;> rfl,fun t => by split <;> rfl⟩
  have hκ : κ.Fixes place :=
    ⟨fun t ht => if_pos ht,fun t ht => by simpa [κ,Nat.not_lt.2 ht] using hplace⟩
  have hctx : Carries κ ctx ctx' := by
    refine ⟨fun t => ?_,hvars⟩
    rcases Nat.lt_or_ge t.index place with hlt | hge
    · rw [hκ.early t hlt,hsame _ hlt]
    · simp only [κ,Nat.not_lt.2 hge,if_false]
      rw [hunused,hfree _ hge]
  have hbelow := below_machineAfter hfree hss hearly hm budget
  rw [h] at hbelow
  have hfixed : m'.relocate κ [] = m' := hbelow κ hκ
  rw [program_of_carries hctx hκ hss hearly hm,h,relocateResult,hfixed]

end

/-! ## Sessions -/

namespace Session

/-- Table and machine know only places that are taken. -/
structure Tidy (s : Session) : Prop where
  free : s.PlacesFree
  below : s.machine.Below s.nextIndex

theorem Tidy.perform {s : Session} (h : s.Tidy) (r : Request) : (s.perform r).2.Tidy := by
  have hfree := h.free.perform r
  have hbelow : s.machine.Below (s.nextIndex + (load s.nextIndex r.source).tokens.length) :=
    h.below.mono (Nat.le_add_right _ _)
  refine ⟨hfree,?_⟩
  by_cases hload : (load s.nextIndex r.source).diagnostics = []
  · by_cases hclean : (resolve s.table (load s.nextIndex r.source).statements).faults = []
    · rw [(perform_of_resolved hload hclean).2] at hfree ⊢
      have hentries : ∀ i, s.nextIndex + (load s.nextIndex r.source).tokens.length ≤ i →
          (resolve s.table (load s.nextIndex r.source).statements).table[i]? = none := hfree
      exact below_machineAfter hentries (isProgram_of_load hload)
        (fun t ht => (range_of_mem_load ht).2) hbelow.clear r.budget
    · rw [(perform_of_unresolved hload hclean).2]
      exact hbelow
  · rw [(perform_of_unreadable hload).2]
    exact hbelow

theorem tidy_after (clock : Clock) (history : List Request) : ((start clock).after history).Tidy :=
  after_induction ⟨placesFree_start clock,Machine.below_start clock⟩ (fun _ r h => h.perform r) history

end Session

/-! ## Two sources as one -/

section

variable {index : Nat} {first second : Bytes}

theorem load_append {place : Nat} (hplace : place = index + (load index first).tokens.length)
    (hfirst : (load index first).diagnostics = [])
    (hsecond : (load place second).diagnostics = []) :
    let later := load place second
    let ρ := Relocation.down later.tokens (newlines first + 1)
    (load index (first ++ newline :: second)).diagnostics = [] ∧
      (load index (first ++ newline :: second)).tokens =
        (load index first).tokens ++ later.tokens.map ρ.move ∧
      (load index (first ++ newline :: second)).statements =
        (load index first).statements ++ Stmt.relocateAll ρ later.statements := by
  intro later ρ
  subst hplace
  have hclosed : ∀ f ∈ (scanFrom index first).faults, f.error ≠ .unterminatedString := by
    simp [faults_of_load hfirst]
  have hscan := scanFrom_append second hclosed
  have hmoved := (isProgram_of_load hsecond).relocate ρ
  have htokens : (scanFrom index (first ++ newline :: second)).tokens =
      (load index first).tokens ++ later.tokens.map ρ.move := by
    rw [hscan,Relocation.map_down]
    rfl
  have hfaults : (scanFrom index (first ++ newline :: second)).faults = [] := by
    rw [hscan]
    exact List.append_eq_nil_iff.2 ⟨faults_of_load hfirst,List.map_eq_nil_iff.2 (faults_of_load hsecond)⟩
  have hprogram := (isProgram_of_load hfirst).append hmoved
  rw [← htokens] at hprogram
  obtain ⟨hdiagnostics,hstatements⟩ := load_of_isProgram hfaults hprogram
  exact ⟨hdiagnostics,htokens,hstatements⟩

end

/-! ## Reports -/

/-- The error that ends an evaluation, and the token at which it happens. -/
def offence? {α : Type} : EStateM.Result Abort Machine α → Option (EvalError × Token)
  | .error (.fault error token) _ => some (error,token)
  | _ => none

theorem diagnostics_ofResult {α : Type} (result : EStateM.Result Abort Machine α) :
    (Report.ofResult result).diagnostics =
      (offence? result).toList.map fun (error,token) => ⟨.runtime,token.line,[],error.message⟩ := by
  rcases result with _ | ⟨_ | _ | _,_⟩ <;> rfl

section

variable (ρ : Relocation) (earlier : List Bytes) {α : Type} (result : EStateM.Result Abort Machine α)

theorem ending_relocate :
    (Report.ofResult (relocateResult ρ earlier id result)).ending = (Report.ofResult result).ending := by
  rcases result with _ | ⟨_ | _ | _,_⟩ <;> rfl

theorem diagnostics_relocate : (Report.ofResult (relocateResult ρ earlier id result)).diagnostics =
    (offence? result).toList.map fun (error,token) =>
      ⟨.runtime,(ρ.move token).line,[],error.message⟩ := by
  rcases result with _ | ⟨_ | _ | _,_⟩ <;> rfl

theorem machineAfter_relocate : machineAfter (relocateResult ρ earlier id result) =
    (machineAfter result).relocate ρ earlier := by
  cases result <;> rfl

theorem printed_relocate : (Report.ofResult (relocateResult ρ earlier id result)).printed =
    earlier.reverse ++ (Report.ofResult result).printed := by
  have hprinted : ((machineAfter result).relocate ρ earlier).printed =
      (machineAfter result).printed ++ earlier := rfl
  simp only [Report.ofResult,machineAfter_relocate,hprinted,List.reverse_append]

/-- A report does not show the places of tokens. -/
theorem Report.ofResult_relocate (hline : ∀ t, (ρ.move t).line = t.line) :
    Report.ofResult (relocateResult ρ [] id result) = Report.ofResult result := by
  have hending : Ending.ofResult (relocateResult ρ [] id result) = Ending.ofResult result := by
    rcases result with _ | ⟨⟨error,token⟩ | _ | _,_⟩
    case error.fault => simp only [relocateResult,Abort.relocate,Ending.ofResult,hline]
    all_goals rfl
  have hprinted : (machineAfter (relocateResult ρ [] id result)).printed =
      (machineAfter result).printed := by
    rw [machineAfter_relocate]
    exact List.append_nil _
  rw [Report.ofResult,Report.ofResult,hending,hprinted]

end

/-! ## Runs -/

namespace Session

/-- What is known of a run that ended well. -/
structure Completes (s : Session) (r : Request) : Prop where
  readable : (load s.nextIndex r.source).diagnostics = []
  resolved : (resolve s.table (load s.nextIndex r.source).statements).faults = []
  nextIndex : (s.perform r).2.nextIndex = s.nextIndex + (load s.nextIndex r.source).tokens.length
  table : (s.perform r).2.table = (resolve s.table (load s.nextIndex r.source).statements).table
  evaluation : s.evaluation r = .ok () (s.perform r).2.machine
  printed : (s.perform r).1.printed = (s.perform r).2.machine.printed.reverse

theorem completes {s : Session} {r : Request} (h : (s.perform r).1.ending = .completed) :
    s.Completes r := by
  have hanswer : (s.perform r).1.answer.ending = .completed := h
  by_cases hload : (load s.nextIndex r.source).diagnostics = []
  · by_cases hclean : (resolve s.table (load s.nextIndex r.source).statements).faults = []
    · obtain ⟨hreport,hafter⟩ := perform_of_resolved hload hclean
      rw [hreport] at hanswer
      refine ⟨hload,hclean,by rw [hafter]; rfl,by rw [hafter],?_,?_⟩
      · rw [hafter]
        cases hresult : s.evaluation r with
        | ok a m => rfl
        | error e m =>
          rw [hresult] at hanswer
          cases e <;> cases hanswer
      · rw [hafter]
        exact congrArg Answer.printed hreport
    · rw [(perform_of_unresolved hload hclean).1] at hanswer
      cases hanswer
  · rw [(perform_of_unreadable hload).1] at hanswer
    cases hanswer

section

variable {s : Session} {first second : Bytes} {budget : Nat} {processVars : NameMap Bytes}

/-- Entries for the places of a later source make no difference. -/
theorem Tidy.program_of_completes (h : s.Tidy) {r : Request} (hr : s.Completes r)
    (hsecond : (load (s.perform r).2.nextIndex second).diagnostics = []) :
    let t := (s.perform r).2
    Eval.program ⟨(resolve t.table (load t.nextIndex second).statements).table,r.processVars⟩ r.budget
        (load s.nextIndex r.source).statements { s.machine with printed := [] } =
      .ok () t.machine := by
  intro t
  have ht : t.Tidy := h.perform r
  have hplace : s.nextIndex ≤ t.nextIndex := by rw [hr.nextIndex]; exact Nat.le_add_right _ _
  have hearly : ∀ x ∈ (load s.nextIndex r.source).tokens, x.index < t.nextIndex := by
    rw [hr.nextIndex]
    exact fun x hx => (range_of_mem_load hx).2
  have hdone : Eval.program ⟨t.table,r.processVars⟩ r.budget (load s.nextIndex r.source).statements
      { s.machine with printed := [] } = .ok () t.machine := by
    rw [hr.table]
    exact hr.evaluation
  have hlimit : t.nextIndex ≤ t.nextIndex + (load t.nextIndex second).tokens.length :=
    Nat.le_add_right _ _
  exact program_of_table hdone rfl
    (fun i hi => resolve_load_getElem? t.table hsecond (.inl hi)) ht.free hlimit
    ((resolve_load_getElem? t.table hsecond (.inr (Nat.le_refl _))).trans (ht.free _ hlimit))
    (isProgram_of_load hr.readable) hearly (h.below.mono hplace).clear

theorem fixes_down (index lines : Nat) (source : Bytes) :
    (Relocation.down (load index source).tokens lines).Fixes index := by
  refine ⟨fun x hx => if_neg fun hmem => ?_,fun x hx => by rwa [Relocation.index_down]⟩
  exact Nat.not_le_of_lt hx (range_of_mem_load hmem).1

/-- The whole can be read and resolved, and the table is that of the second run. -/
theorem Completes.resolve_append (hfirst : s.Completes ⟨first,budget,processVars⟩)
    (hsecond : Accepted second) :
    let t := (s.perform ⟨first,budget,processVars⟩).2
    resolve s.table (load s.nextIndex (first ++ newline :: second)).statements =
      ⟨(resolve t.table (load t.nextIndex second).statements).table,[]⟩ := by
  intro t
  obtain ⟨hlater,hclean⟩ := hsecond.anywhere t.nextIndex t.table
  obtain ⟨-,-,hstatements⟩ := load_append hfirst.nextIndex hfirst.readable hlater
  have hkeeps := Relocation.index_down (load t.nextIndex second).tokens (newlines first + 1)
  rw [hstatements,Scriptlet.resolve_append _ (sound_load hfirst.readable).regular hfirst.resolved,
    resolve_relocate hkeeps,← hfirst.table,hclean,List.map_nil]

/-- The second source, run as part of the whole, does what it does alone. -/
theorem Tidy.evaluation_append (h : s.Tidy) (hfirst : s.Completes ⟨first,budget,processVars⟩)
    (hsecond : Accepted second) :
    let t := (s.perform ⟨first,budget,processVars⟩).2
    let later := load t.nextIndex second
    s.evaluation ⟨first ++ newline :: second,budget,processVars⟩ =
      relocateResult (.down later.tokens (newlines first + 1)) t.machine.printed id
        (t.evaluation ⟨second,budget,processVars⟩) := by
  intro t later
  have hlater : later.diagnostics = [] := (hsecond.anywhere t.nextIndex t.table).1
  have hpart := h.program_of_completes hfirst hlater
  have hresolve := hfirst.resolve_append hsecond
  have hbelow : t.machine.Below t.nextIndex := (h.perform ⟨first,budget,processVars⟩).below
  have hstart := hbelow.relocate (fixes_down t.nextIndex (newlines first + 1) second) []
    t.machine.printed
  have hkeeps := Relocation.index_down later.tokens (newlines first + 1)
  obtain ⟨-,-,hstatements⟩ := load_append hfirst.nextIndex hfirst.readable hlater
  have hctx : Carries (.down later.tokens (newlines first + 1))
      ⟨(resolve t.table later.statements).table,processVars⟩
      ⟨(resolve t.table later.statements).table,processVars⟩ := ⟨fun x => by rw [hkeeps],rfl⟩
  have hrest := moves_program hctx t.machine.printed budget later.statements
    { t.machine with printed := [] }
  rw [hstart] at hrest
  simp only [evaluation]
  rw [hresolve,hstatements,Eval.program_append]
  show EStateM.bind _ _ _ = _
  rw [EStateM.bind,hpart]
  exact hrest

/-- What a user sees of the whole, and the session after it. -/
theorem Tidy.whole (h : s.Tidy) (hfirst : s.Completes ⟨first,budget,processVars⟩)
    (hsecond : Accepted second) :
    let t := (s.perform ⟨first,budget,processVars⟩).2
    let ρ := Relocation.down (load t.nextIndex second).tokens (newlines first + 1)
    let whole := s.perform ⟨first ++ newline :: second,budget,processVars⟩
    let two := t.perform ⟨second,budget,processVars⟩
    whole.1.answer = (Report.ofResult (relocateResult ρ t.machine.printed id
      (t.evaluation ⟨second,budget,processVars⟩))).answer ∧
    whole.2 = ⟨two.2.machine.relocate ρ t.machine.printed,two.2.table,two.2.nextIndex⟩ := by
  intro t ρ whole two
  obtain ⟨hlater,hclean⟩ := hsecond.anywhere t.nextIndex t.table
  obtain ⟨hload,htokens,-⟩ := load_append hfirst.nextIndex hfirst.readable hlater
  have hresolve := hfirst.resolve_append hsecond
  have hfaults : (resolve s.table (load s.nextIndex (first ++ newline :: second)).statements).faults =
      [] := by rw [hresolve]
  obtain ⟨hanswer,hafter⟩ := perform_of_resolved
    (r := ⟨first ++ newline :: second,budget,processVars⟩) hload hfaults
  have htwo : two.2 = _ := (perform_of_resolved (r := ⟨second,budget,processVars⟩) hlater hclean).2
  rw [h.evaluation_append hfirst hsecond] at hanswer hafter
  refine ⟨hanswer,hafter.trans ?_⟩
  have hlength : s.nextIndex + (load s.nextIndex (first ++ newline :: second)).tokens.length =
      t.nextIndex + (load t.nextIndex second).tokens.length := by
    rw [htokens,List.length_append,List.length_map,← Nat.add_assoc]
    exact congrArg (· + (load t.nextIndex second).tokens.length) hfirst.nextIndex.symm
  rw [htwo,machineAfter_relocate,hresolve]
  show Session.mk _ _ (s.nextIndex + _) = _
  rw [hlength]
  rfl

end

/-- Running in pieces is running at once: after any history, a source that completes and an accepted
source after it print the same, end in the same way and leave the same state as the two in one
source, up to the lines of the tokens of the second. Such a token that offends is reported further
down by the lines of the first source. -/
theorem perform_append (clock : Clock) (history : List Request) (first second : Bytes) (budget : Nat)
    (processVars : NameMap Bytes) :
    let s := (start clock).after history
    let one := s.perform ⟨first,budget,processVars⟩
    let two := one.2.perform ⟨second,budget,processVars⟩
    let whole := s.perform ⟨first ++ newline :: second,budget,processVars⟩
    let lines := newlines first + 1
    let tokens := (load one.2.nextIndex second).tokens
    let offence := offence? (one.2.evaluation ⟨second,budget,processVars⟩)
    one.1.ending = .completed → Accepted second →
      whole.1.printed = one.1.printed ++ two.1.printed ∧
      whole.1.ending = two.1.ending ∧
      two.1.diagnostics = (offence.toList.map fun (error,token) =>
        ⟨.runtime,token.line,[],error.message⟩) ∧
      whole.1.diagnostics = (offence.toList.map fun (error,token) =>
        ⟨.runtime,if token ∈ tokens then token.line + lines else token.line,[],error.message⟩) ∧
      whole.2.table = two.2.table ∧
      whole.2.nextIndex = two.2.nextIndex ∧
      whole.2.machine = two.2.machine.relocate (.down tokens lines) one.2.machine.printed ∧
      ∀ name, whole.2.machine.memory.store.bound? globalScope name =
        (two.2.machine.memory.store.bound? globalScope name).map
          (Value.relocate (.down tokens lines)) := by
  intro s one two whole lines tokens offence hone hsecond
  have hfirst := completes hone
  obtain ⟨hanswer,hafter⟩ := (tidy_after clock history).whole hfirst hsecond
  obtain ⟨hlater,hclean⟩ := hsecond.anywhere one.2.nextIndex one.2.table
  have htwo := (perform_of_resolved (r := ⟨second,budget,processVars⟩) hlater hclean).1
  have hmachine : whole.2.machine = _ := congrArg Session.machine hafter
  have htable : whole.2.table = _ := congrArg Session.table hafter
  have hindex : whole.2.nextIndex = _ := congrArg Session.nextIndex hafter
  refine ⟨?_,?_,?_,?_,htable,hindex,hmachine,fun name => ?_⟩
  · calc
      whole.1.printed = _ := (congrArg Answer.printed hanswer).trans (printed_relocate ..)
      _ = one.1.printed ++ two.1.printed := by
        rw [← hfirst.printed]
        exact congrArg (one.1.printed ++ ·) (congrArg Answer.printed htwo).symm
  · calc
      whole.1.ending = _ := (congrArg Answer.ending hanswer).trans (ending_relocate ..)
      _ = two.1.ending := (congrArg Answer.ending htwo).symm
  · exact (congrArg Answer.diagnostics htwo).trans (diagnostics_ofResult _)
  · refine (congrArg Answer.diagnostics hanswer).trans ((diagnostics_relocate ..).trans ?_)
    simp only [Relocation.line_down]
    rfl
  · rw [hmachine]
    exact Store.bound?_relocate ..

/-- A function of the first source is called by the second, before a name that is not bound. -/
theorem perform_append_undefined :
    let s := (start {}).after [⟨utf8 "var x = 1;",20,.empty⟩]
    let first := utf8 "fun f(a) \x7b\n  return a - x;\n\x7d"
    let second := utf8 "print f(3);\nprint y;"
    let one := s.perform ⟨first,20,.empty⟩
    let two := one.2.perform ⟨second,20,.empty⟩
    let whole := s.perform ⟨first ++ newline :: second,20,.empty⟩
    one.1.ending = .completed ∧ Accepted second ∧ two.1.ending = .failed ∧
      whole.1.printed = one.1.printed ++ two.1.printed ∧ whole.1.ending = two.1.ending ∧
      (whole.1.printed,whole.1.diagnostics.map Diagnostic.line) = ([utf8 "2"],[5]) := by
  intro s first second one two whole
  have hone : one.1.ending = .completed := by decide +kernel
  have hsecond : Accepted second := by decide +kernel
  obtain ⟨hprinted,hending,-⟩ := perform_append {} [⟨utf8 "var x = 1;",20,.empty⟩] first second 20 .empty
    hone hsecond
  exact ⟨hone,hsecond,by decide +kernel,hprinted,hending,by decide +kernel⟩

end Session

end Scriptlet
