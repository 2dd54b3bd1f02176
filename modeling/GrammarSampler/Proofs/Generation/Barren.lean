import GrammarSampler.Proofs.Generation.Dependence
import GrammarSampler.Proofs.Generation.Optimal

/-!
Names that never end. Only exploration opens a leaf of infinite cost, and no step takes it away
again: a run stops where it takes such a leaf, and a run that has one does not close.
-/
namespace GrammarSampler

namespace Choice

section Faults
variable {ρ σ : Type} [Arithmetic ρ] [Draws σ ρ] {source : σ}

theorem leaf_ne_generation {policy : LeafPolicy} {growth : Growth} {fault : GenerationFault} :
    (leaf policy growth source).1 ≠ .error (.generation fault) := by
  unfold leaf
  split
  · nofun
  · cases policy with
    | leftmost => nofun
    | shallowest =>
      dsimp only
      split <;> nofun
    | random =>
      dsimp only
      cases spread (Draws.draw source).1 growth.openCount <;> nofun

theorem pick_ne_generation {alternatives : List Expansion} {indices : List Nat}
    {fault : GenerationFault} :
    (pick alternatives indices source).1 ≠ .error (.generation fault) := by
  unfold pick
  split
  · nofun
  · dsimp only
    split
    · nofun
    · split <;> nofun

theorem alternative_generation_iff {g : Grammar} {name : String} {phase : Phase}
    {fault : GenerationFault} : (alternative g name phase source).1 = .error (.generation fault) ↔
      fault = .nonTerminating name ∧ g.costs.get? name = some .infinite := by
  unfold alternative
  split
  · rename_i missing
    simp [missing]
  · rename_i cost
    simp [cost, eq_comm]
  · rename_i k cost
    simp only [cost, Option.some.injEq, reduceCtorEq, and_false, iff_false]
    split
    · rintro ⟨⟩
    · exact pick_ne_generation

end Faults

end Choice

namespace Run

section Steps
variable {ρ σ : Type} [Arithmetic ρ] [Draws σ ρ] {g : Grammar} {s : Settings} {run : Run σ}
  {name : String}

theorem stopped_of_barren {position : Int} {number : Nat} {source : σ}
    (unfinished : run.growth.isComplete = false) (below : stepLimit? s run = none)
    (leaf : Choice.leaf s.policy run.growth run.source = (.ok position, source))
    (place : run.growth.number? position = .ok number) (named : (run.growth.bud number).name = name)
    (cost : g.costs.get? name = some .infinite) :
    ∃ last, run.step g s = .stopped (.generation (.nonTerminating name)) last ∧
      last.growth = run.growth ∧ last.source = source := by
  subst named
  rw [step_of_open unfinished below, move, growth_enter, source_enter, leaf]
  dsimp only
  rw [place]
  dsimp only
  rw [Choice.alternative, cost]
  exact ⟨_, rfl, rfl, rfl⟩

/-- Generation stops a run at the step limit, or at a name that never ends. -/
theorem cases_of_stopped {fault : GenerationFault} {last : Run σ}
    (stopped : run.step g s = .stopped (.generation fault) last) :
    (∃ limit, fault = .stepLimit limit run.growth.openCount run.growth.steps) ∨
      ∃ position number, run.growth.isComplete = false ∧ stepLimit? s run = none ∧
        (Choice.leaf s.policy run.growth run.source).1 = .ok position ∧
        run.growth.number? position = .ok number ∧
        fault = .nonTerminating (run.growth.bud number).name ∧
        g.costs.get? (run.growth.bud number).name = some .infinite := by
  cases (fails_of_stopped stopped).1 with
  | limit _ reached =>
    unfold stepLimit? at reached
    split at reached
    · cases reached
    · split at reached
      · exact .inl ⟨_, (Option.some.inj reached).symm⟩
      · cases reached
  | leaf _ _ refused => exact absurd refused Choice.leaf_ne_generation
  | place _ _ _ absent =>
    unfold Growth.number? at absent
    split at absent <;> cases absent
  | alternative unfinished below leaf place refused =>
    obtain ⟨named, cost⟩ := Choice.alternative_generation_iff.mp refused
    exact .inr ⟨_, _, unfinished, below, leaf, place, named, cost⟩

theorem barren_of_stopped {last : Run σ}
    (stopped : run.step g s = .stopped (.generation (.nonTerminating name)) last) :
    ∃ position number, run.growth.isComplete = false ∧ stepLimit? s run = none ∧
      (Choice.leaf s.policy run.growth run.source).1 = .ok position ∧
      run.growth.number? position = .ok number ∧ (run.growth.bud number).name = name ∧
      g.costs.get? name = some .infinite := by
  rcases cases_of_stopped stopped with ⟨limit, other⟩ |
    ⟨position, number, unfinished, below, leaf, place, named, cost⟩
  · cases other
  · cases named
    exact ⟨position, number, unfinished, below, leaf, place, rfl, cost⟩

end Steps

variable {σ : Type} [Draws σ Float] {g : Grammar} {s : Settings} {source : σ} {run next : Run σ}
  {decision : Decision} {name : String}

theorem Expands.barren_mem (valid : Valid g run) (expands : Expands g run decision next)
    (inside : name ∈ run.growth.openNames) (cost : g.costs.get? name = some .infinite) :
    name ∈ next.growth.openNames := by
  obtain ⟨p, alternatives, e, place, -, ⟨k, finite⟩, -, -, -, names⟩ := expands.openNames_eq valid
  obtain ⟨q, found⟩ := List.mem_iff_getElem?.mp inside
  have apart : q ≠ p := by
    rintro rfl
    rw [found, Option.some.injEq] at place
    rw [← place, cost] at finite
    cases finite
  rw [names, List.mem_append, List.mem_append]
  rcases Nat.lt_or_gt_of_ne apart with before | behind
  · refine .inl (.inl (List.mem_iff_getElem?.mpr ⟨q, ?_⟩))
    rw [List.getElem?_take_of_lt before, found]
  · refine .inr (List.mem_iff_getElem?.mpr ⟨q - (p + 1), ?_⟩)
    rw [List.getElem?_drop, Nat.add_sub_cancel' behind, found]

theorem Valid.not_closed_of_barren (built : g.Built) (valid : Valid g run)
    (inside : name ∈ run.growth.openNames) (cost : g.costs.get? name = some .infinite) {fuel : Nat}
    {last : Run σ} : resume g s fuel run ≠ .closed last := by
  induction fuel generalizing run with
  | zero =>
    intro unfinished
    cases unfinished
  | succ fuel ih =>
    unfold Run.resume
    split
    · rename_i closed
      obtain ⟨-, complete⟩ := complete_of_closed closed
      rw [Growth.openNames, Growth.toList_of_isComplete complete] at inside
      cases inside
    · intro stopped
      cases stopped
    · rename_i moved
      have advance := advance_of_moved moved
      exact ih (valid.advance built advance)
        ((valid.expands built advance).barren_mem valid inside cost)

def Fruitful (g : Grammar) (run : Run σ) : Prop :=
  ∀ name ∈ run.growth.openNames, ∃ k, g.costs.get? name = some (.finite k)

theorem Fruitful.expand (valid : Valid g run) (fruitful : Fruitful g run)
    (expands : Expands g run decision next) (targeted : decision.phase ≠ .exploration) :
    Fruitful g next := by
  obtain ⟨p, alternatives, e, -, -, -, finite, candidate, chosen, names⟩ :=
    expands.openNames_eq valid
  intro name inside
  rw [names, List.mem_append, List.mem_append] at inside
  rcases inside with (before | new) | behind
  · exact fruitful name (List.mem_of_mem_take before)
  · exact Choice.finite_of_targeted targeted candidate chosen name new
  · exact fruitful name (List.mem_of_mem_drop behind)

theorem History.fruitful (built : g.Built) (unit : Draws.InUnit source) {k : Nat}
    (cost : g.costs.get? g.start = some (.finite k)) {decisions : List Decision}
    (history : History g s source decisions run)
    (targeted : ∀ decision ∈ decisions, decision.phase ≠ .exploration) : Fruitful g run := by
  induction history with
  | start =>
    intro name inside
    rw [List.mem_singleton.mp inside]
    exact ⟨k, cost⟩
  | step before moved ih =>
    have valid := before.reachable.valid built unit
    refine (ih fun d earlier => targeted d (List.mem_append_left _ earlier)).expand valid
      (valid.expands built (advance_of_moved moved)) (targeted _ ?_)
    exact List.mem_append_right _ (List.mem_singleton_self _)

omit [Draws σ Float] in
/-- A leaf that is open after a step of growth or closing and was not open before has a finite
cost. -/
theorem Expands.finite_of_new (expands : Expands g run decision next)
    (targeted : decision.phase ≠ .exploration) {number : Nat}
    (opened : number ∈ next.growth.worklist.toList) (new : number ∉ run.growth.worklist.toList) :
    ∃ k, g.costs.get? (next.growth.bud number).name = some (.finite k) := by
  obtain ⟨position, -, -, -, -, -, finite, candidate, chosen, grown⟩ := expands
  rename_i phase p old index b alternatives e
  have inside := Growth.lt_openCount position
  rw [grown, Growth.worklist_expand inside, List.mem_append, List.mem_append] at opened
  rcases opened with (before | here) | behind
  · exact absurd (List.mem_of_mem_take before) new
  · obtain ⟨low, high⟩ := List.mem_range'_1.mp here
    obtain ⟨i, rfl⟩ := Nat.exists_eq_add_of_le low
    have named := @Growth.names_expand_new run.growth old p index e i
    rw [List.getElem?_eq_getElem (by omega), Option.map_some] at named
    rw [grown, Growth.bud_eq named]
    exact Choice.finite_of_targeted targeted candidate chosen _ (List.getElem_mem _)
  · exact absurd (List.mem_of_mem_drop behind) new

/-- A name that a step stops at can be reached from the start and stands for a leaf that never
ends. -/
theorem Reachable.barren (reachable : Reachable g s source run) {last : Run σ}
    (stopped : run.step g s = .stopped (.generation (.nonTerminating name)) last) :
    g.rules.Reaches g.start name ∧ g.costs.get? name = some .infinite := by
  obtain ⟨position, number, -, -, -, place, rfl, cost⟩ := barren_of_stopped stopped
  obtain ⟨decisions, history⟩ := reachable.exists_history
  exact ⟨history.within.bud place, cost⟩

theorem Fruitful.step_ne (valid : Valid g run) (fruitful : Fruitful g run)
    {last : Run σ} : run.step g s ≠ .stopped (.generation (.nonTerminating name)) last := by
  intro stopped
  obtain ⟨position, number, unfinished, -, leaf, place, rfl, cost⟩ := barren_of_stopped stopped
  rcases @Choice.leaf_cases _ _ s.policy _ _ (openCount_pos unfinished) valid.unit with
    ⟨p, inside, value⟩ | ⟨-, value⟩
  · rw [value] at leaf
    cases leaf
    have opened := List.mem_of_getElem? (Growth.number?_natCast.mp place)
    obtain ⟨k, finite⟩ := fruitful _ (List.mem_map_of_mem opened)
    rw [cost] at finite
    cases finite
  · rw [value] at leaf
    cases leaf

/-- A start that never ends is refused by the first step, and nothing is drawn for it. -/
theorem start_stopped (accepted : s.Valid) (cost : g.costs.get? g.start = some .infinite) :
    ∃ last, (Run.start g.start source).step g s =
        .stopped (.generation (.nonTerminating g.start)) last ∧
      last.growth = .start g.start ∧ last.source = source := by
  have below : stepLimit? s (Run.start g.start source) = none := by
    unfold stepLimit?
    cases given : s.maxSteps with
    | none => rfl
    | some limit =>
      have positive := accepted.steps_positive limit given
      refine if_neg ?_
      intro reached
      rw [Number.lt_of_reachedBy reached Int.zero_lt_one] at positive
      cases positive
  exact stopped_of_barren rfl below rfl rfl rfl cost

end Run

namespace Grammar.Built
variable {g : Grammar} {name : String}

theorem infinite_iff (built : g.Built) (known : name ∈ g.rules.keys) :
    g.costs.get? name = some .infinite ↔ ¬ ∃ w, g.rules.Derives [.nonterminal name] w := by
  rw [built.cost known, Option.some.injEq, built.exact.eq_infinite_iff, Rules.exists_closesIn_iff]

theorem exists_finite (built : g.Built) (known : name ∈ g.rules.keys) {w : List Char}
    (derived : g.rules.Derives [.nonterminal name] w) :
    ∃ k, g.costs.get? name = some (.finite k) := by
  cases cost : Cost.ofName g.costs name with
  | finite k => exact ⟨k, by rw [built.cost known, cost]⟩
  | infinite =>
    have barren := (built.infinite_iff known).mp (by rw [built.cost known, cost])
    exact absurd ⟨w, derived⟩ barren

end Grammar.Built

namespace Generation
variable {σ : Type} [Draws σ Float] {g : Grammar} {s : Settings} {source : σ} {fuel : Nat}

theorem exists_stopped (built : g.Built) {fault : Fault} {last : Run σ}
    (stopped : runFor fuel g s source = .stopped fault last) :
    ∃ run, Run.Reachable g s source run ∧ run.step g s = .stopped fault last := by
  have reached : (runFor fuel g s source).Reached g s source fuel := reached_runFor built fuel
  rw [stopped] at reached
  exact reached

end Generation

/-- Generation stops with a name exactly where it takes a leaf that never ends, whatever the
settings and the draws are. The start is never refused as one without alternatives. Only steps of
exploration open leaves of infinite cost, and a run with such a leaf does not close. A name that a
run stops with can be reached from the start and derives no text; so none is met if all names that
can be reached derive a text, and one is met only after a step of exploration if the start does.
A start that derives no text is refused by the first step, and nothing is drawn for it. -/
theorem Generation.stops_at_barren {σ : Type} [Draws σ Float] {source : σ} {rules : Rules}
    {start : String} {g : Grammar} (mapping : rules.Distinct)
    (success : Grammar.build? rules start = .ok g) (s : Settings) (unit : Draws.InUnit source) :
    (∀ (run : Run σ) (name : String),
      (∃ last, run.step g s = .stopped (.generation (.nonTerminating name)) last) ↔
        ∃ position number, run.growth.isComplete = false ∧ Run.stepLimit? s run = none ∧
          (Choice.leaf s.policy run.growth run.source).1 = .ok position ∧
          run.growth.number? position = .ok number ∧ (run.growth.bud number).name = name ∧
          g.costs.get? name = some .infinite) ∧
    (∀ fuel name last, runFor fuel g s source ≠ .stopped (.generation (.startEmpty name)) last) ∧
    (∀ run decision next, Run.Reachable g s source run → run.step g s = .moved decision next →
      decision.phase ≠ .exploration → ∀ number ∈ next.growth.worklist.toList,
        number ∉ run.growth.worklist.toList →
          ∃ k, g.costs.get? (next.growth.bud number).name = some (.finite k)) ∧
    (∀ fuel name last,
      runFor fuel g s source = .stopped (.generation (.nonTerminating name)) last →
        name ∈ rules.reachable start ∧ ¬ ∃ w, rules.Derives [.nonterminal name] w) ∧
    (∀ run, Run.Reachable g s source run → ∀ number ∈ run.growth.worklist.toList,
      g.costs.get? (run.growth.bud number).name = some .infinite →
        ∀ fuel last, runFor fuel g s source ≠ .closed last) ∧
    ((∀ name ∈ rules.reachable start, ∃ w, rules.Derives [.nonterminal name] w) →
      ∀ fuel name last,
        runFor fuel g s source ≠ .stopped (.generation (.nonTerminating name)) last) ∧
    ((∃ w, rules.Derives [.nonterminal start] w) → ∀ fuel name last,
      runFor fuel g s source = .stopped (.generation (.nonTerminating name)) last →
        ∃ decisions run, Run.History g s source decisions run ∧
          run.step g s = .stopped (.generation (.nonTerminating name)) last ∧
          ∃ decision ∈ decisions, decision.phase = .exploration) ∧
    (s.Valid → (¬ ∃ w, rules.Derives [.nonterminal start] w) → ∀ fuel, 0 < fuel →
      ∃ last, runFor fuel g s source = .stopped (.generation (.nonTerminating start)) last ∧
        last.growth.steps = 0 ∧ last.source = source) := by
  obtain ⟨built, rfl, rfl⟩ := Grammar.built_of_build? mapping success
  have barren : ∀ fuel name last,
      runFor fuel g s source = .stopped (.generation (.nonTerminating name)) last →
        name ∈ g.rules.reachable g.start ∧ ¬ ∃ w, g.rules.Derives [.nonterminal name] w := by
    intro fuel name last stopped
    obtain ⟨run, reachable, same⟩ := exists_stopped built stopped
    obtain ⟨reached, cost⟩ := reachable.barren same
    exact ⟨(Rules.mem_reachable mapping).mpr reached,
      (built.infinite_iff (built.known_of_reaches reached)).mp cost⟩
  refine ⟨?_, ?_, ?_, barren, ?_, ?_, ?_, ?_⟩
  · intro run name
    constructor
    · rintro ⟨last, stopped⟩
      exact Run.barren_of_stopped stopped
    · rintro ⟨position, number, unfinished, below, leaf, place, named, cost⟩
      obtain ⟨last, stopped, -⟩ :=
        Run.stopped_of_barren unfinished below (Prod.ext leaf rfl) place named cost
      exact ⟨last, stopped⟩
  · intro fuel name last refused
    obtain ⟨run, -, same⟩ := exists_stopped built refused
    rcases Run.cases_of_stopped same with ⟨limit, other⟩ | ⟨_, _, _, _, _, _, other, _⟩
    · cases other
    · cases other
  · intro run decision next reachable moved targeted number opened new
    have valid := reachable.valid built unit
    exact (valid.expands built (Run.advance_of_moved moved)).finite_of_new targeted opened new
  · intro run reachable number opened cost fuel last closed
    rw [runFor_eq built] at closed
    obtain ⟨rest, later⟩ := reachable.resume_closed closed
    exact (reachable.valid built unit).not_closed_of_barren built (List.mem_map_of_mem opened) cost
      later
  · intro productive fuel name last stopped
    obtain ⟨reached, none⟩ := barren fuel name last stopped
    exact none (productive name reached)
  · rintro ⟨w, derived⟩ fuel name last stopped
    obtain ⟨run, reachable, same⟩ := exists_stopped built stopped
    obtain ⟨decisions, history⟩ := reachable.exists_history
    refine ⟨decisions, run, history, same, ?_⟩
    by_contra unexplored
    obtain ⟨k, cost⟩ := built.exists_finite built.present derived
    have fruitful := history.fruitful built unit cost fun decision inside explores =>
      unexplored ⟨decision, inside, explores⟩
    exact fruitful.step_ne (reachable.valid built unit) same
  · intro accepted fruitless fuel some
    obtain ⟨last, stopped, kept, undrawn⟩ :=
      @Run.start_stopped _ _ g s source accepted ((built.infinite_iff built.present).mpr fruitless)
    obtain ⟨fuel, rfl⟩ : ∃ f, fuel = f + 1 := ⟨fuel - 1, by omega⟩
    refine ⟨last, ?_, by rw [kept]; rfl, undrawn⟩
    rw [runFor_eq built, Run.resume, stopped]

/-- A name that may end, and one that it may be expanded to and that never does. -/
def trapRules : Rules :=
  [("free", [.unweighted [.nonterminal "trap"], .unweighted [.terminal "x"]]),
    ("trap", [.unweighted [.nonterminal "trap", .nonterminal "free"]])]

theorem Generation.stops_at_barren_trap : trapRules.Distinct ∧
    Draws.InUnit (Source.replaying #[0.25]) ∧
    (¬ ∃ w, trapRules.Derives [.nonterminal "trap"] w) ∧ ∀ fuel, 0 < fuel → ∃ last,
      runFor fuel ⟨trapRules, "trap", (Cost.estimate trapRules).table⟩ Settings.standard
        (Source.replaying #[0.25]) = .stopped (.generation (.nonTerminating "trap")) last ∧
      last.growth.steps = 0 ∧ last.source = Source.replaying #[0.25] := by
  have mapping : trapRules.Distinct := by decide
  have unit : Draws.InUnit (Source.replaying #[0.25]) := Source.replaying_inUnit (by decide)
  have success : Grammar.build? trapRules "trap" =
      .ok ⟨trapRules, "trap", (Cost.estimate trapRules).table⟩ :=
    Grammar.build?_eq_ok_iff.mpr ⟨⟨by decide, by decide, by decide⟩, rfl⟩
  have accepted : Settings.standard.Valid := by
    refine ⟨by decide, by decide, ?_, ?_⟩
    · intro limit given
      cases given
      decide
    · intro limit given
      cases given
  obtain ⟨-, -, -, barren, -, -, -, first⟩ :=
    Generation.stops_at_barren mapping success Settings.standard unit
  have fruitless : ¬ ∃ w, trapRules.Derives [.nonterminal "trap"] w := by
    obtain ⟨last, stopped⟩ : ∃ last, runFor 1 ⟨trapRules, "trap", (Cost.estimate trapRules).table⟩
      Settings.standard (Source.replaying #[0.25]) =
        .stopped (.generation (.nonTerminating "trap")) last := ⟨_, rfl⟩
    exact (barren 1 "trap" last stopped).2
  exact ⟨mapping, unit, fruitless, first accepted fruitless⟩

end GrammarSampler
