import GrammarSampler.Proofs.Cost.Passes
import GrammarSampler.Proofs.Generation.Closing
import GrammarSampler.Proofs.Generation.Soundness

/-!
Generation on a budget ends. Until closing begins there are at most as many steps as the budget
allows, each opening at most one leaf less than the width; from then on every step takes at least
one off the steps that closing still needs, whatever is drawn.
-/
namespace GrammarSampler
variable {σ : Type} [Draws σ Float] {g : Grammar} {s : Settings} {source : σ} {budget : Nat}

namespace Number

theorem compare?_of_split {a b : Number} {m n : Int} (left : a.split = .inl m)
    (right : b.split = .inl n) : a.compare? b = (int m).compare? (int n) := by
  rw [compare?, left, right]
  rfl

theorem lt_of_split {a b : Number} {m n : Int} (left : a.split = .inl m)
    (right : b.split = .inl n) : a.lt b = decide (m < n) := by
  rw [← lt_int, lt, lt, compare?_of_split left right]

theorem exceeds_of_split {limit : Number} {n : Int} (whole : limit.split = .inl n) (count : Nat) :
    limit.exceeds count = decide ((count : Int) < n) := lt_of_split rfl whole

theorem reachedBy_of_split {limit : Number} {n : Int} (whole : limit.split = .inl n) (count : Nat) :
    limit.reachedBy count = decide (n ≤ (count : Int)) := by
  rw [← reachedBy_int, reachedBy, reachedBy, le, le, lt, lt, compare?_of_split whole rfl]

end Number

namespace Phase

theorem not_spent_of_next {rules openCount steps stalled : Nat} {phase : Phase}
    (open_ : next s rules phase openCount steps stalled ≠ .closing) :
    phase ≠ .closing ∧ spent s steps = false := by
  unfold next at open_
  split at open_
  · exact absurd rfl open_
  · rename_i early
    split at open_
    · exact absurd rfl open_
    · rename_i within
      exact ⟨early, by simpa using within⟩

theorem lt_of_not_spent {limit : Number} (given : s.budget = some limit)
    (whole : limit.split = .inl (budget : Int)) {steps : Nat} (within : spent s steps = false) :
    steps < budget := by
  rw [spent, given, Option.any_some, Number.reachedBy_of_split whole] at within
  have := of_decide_eq_false within
  omega

end Phase

namespace Run

/-- Before closing begins the budget bounds the steps and, with them, the open leaves; after that
the steps done and those still to do stay within the bound. -/
structure Paced (g : Grammar) (budget : Nat) (run : Run σ) : Prop where
  open_ : run.phase ≠ .closing → run.growth.steps ≤ budget ∧
    run.growth.openCount ≤ 1 + run.growth.steps * (g.width - 1)
  closing : run.phase = .closing →
    run.growth.steps + g.stepsToClose run.growth.openNames ≤ g.budgetedSteps budget

omit [Draws σ Float] in
/-- As closing begins, all leaves opened so far can be closed within the bound. -/
theorem Paced.steps_add_le {run : Run σ} (paced : Paced g budget run) :
    run.growth.steps + g.stepsToClose run.growth.openNames ≤ g.budgetedSteps budget := by
  by_cases phase : run.phase = .closing
  · exact paced.closing phase
  · obtain ⟨few, leaves⟩ := paced.open_ phase
    have each := @Grammar.stepsToClose_le g run.growth.openNames g.closingSteps
      fun used _ => g.leafSteps_le used
    rw [Growth.length_openNames] at each
    have wide : run.growth.openCount ≤ 1 + budget * (g.width - 1) :=
      Nat.le_trans leaves (Nat.add_le_add_left (Nat.mul_le_mul_right _ few) 1)
    exact Nat.add_le_add few (Nat.le_trans each (Nat.mul_le_mul_right _ wide))

omit [Draws σ Float] in
theorem paced_start : Paced g budget (Run.start g.start source) := by
  refine ⟨fun _ => ⟨Nat.zero_le _, ?_⟩, nofun⟩
  exact Nat.le_add_right 1 _

section Expanding
variable {run next : Run σ} {decision : Decision}

theorem Expands.openCount_eq (valid : Valid g run) (expands : Expands g run decision next) :
    ∃ rule ∈ g.rules, ∃ e ∈ rule.2,
      next.growth.openCount + 1 = run.growth.openCount + e.references.length := by
  obtain ⟨p, alternatives, e, place, rule, -, -, -, chosen, names⟩ := expands.openNames_eq valid
  have inside := (List.getElem?_eq_some_iff.mp place).1
  have lengths := congrArg List.length names
  rw [List.length_append, List.length_append, List.length_take, List.length_drop] at lengths
  rw [Growth.length_openNames] at inside
  rw [Growth.length_openNames, Growth.length_openNames] at lengths
  refine ⟨_, Entries.mem_of_get? rule, e, List.mem_of_getElem? chosen, ?_⟩
  omega

theorem Expands.openCount (valid : Valid g run) (expands : Expands g run decision next) :
    next.growth.openCount + 1 ≤ run.growth.openCount + g.width := by
  obtain ⟨rule, inside, e, chosen, count⟩ := expands.openCount_eq valid
  have few := Grammar.length_references_le inside chosen
  omega

theorem Expands.stepsToClose (built : g.Built) (valid : Valid g run)
    (expands : Expands g run decision next) (closing : decision.phase = .closing) :
    g.stepsToClose next.growth.openNames + 1 ≤ g.stepsToClose run.growth.openNames := by
  obtain ⟨p, alternatives, e, place, rule, ⟨k, cost⟩, -, candidate, chosen, names⟩ :=
    expands.openNames_eq valid
  rw [closing] at candidate
  obtain ⟨e', taken, -, cheapest⟩ := Choice.mem_candidates_closing.mp candidate
  rw [chosen, Option.some.injEq] at taken
  subst taken
  have less := Grammar.stepsToClose_references built rule (List.mem_of_getElem? chosen) cost cheapest
  obtain ⟨inside, here⟩ := List.getElem?_eq_some_iff.mp place
  have split : run.growth.openNames =
      run.growth.openNames.take p ++ [decision.name] ++ run.growth.openNames.drop (p + 1) := by
    rw [← here, List.append_assoc, List.singleton_append, ← List.drop_eq_getElem_cons,
      List.take_append_drop]
  have whole := congrArg g.stepsToClose split
  rw [Grammar.stepsToClose_append, Grammar.stepsToClose_append] at whole
  rw [names, Grammar.stepsToClose_append, Grammar.stepsToClose_append]
  have single : g.stepsToClose [decision.name] = g.leafSteps decision.name := by
    simp [Grammar.stepsToClose]
  omega

end Expanding

theorem Paced.advance {run next : Run σ} {decision : Decision} {limit : Number}
    (given : s.budget = some limit) (whole : limit.split = .inl (budget : Int)) (built : g.Built)
    (valid : Valid g run) (paced : Paced g budget run) (advance : Advance g s run decision next) :
    Paced g budget next := by
  have expands := valid.expands built advance
  constructor
  · intro phase
    rw [advance.kept, advance.phase] at phase
    obtain ⟨early, within⟩ := Phase.not_spent_of_next phase
    have few := Phase.lt_of_not_spent given whole within
    obtain ⟨-, leaves⟩ := paced.open_ early
    have count := expands.openCount valid
    have wide := @Grammar.width_pos g
    rw [advance.steps, Nat.succ_mul]
    omega
  · intro phase
    rw [advance.kept] at phase
    have before := paced.steps_add_le
    have less := expands.stepsToClose built valid phase
    rw [advance.steps]
    omega

theorem Reachable.paced {limit : Number} (given : s.budget = some limit)
    (whole : limit.split = .inl (budget : Int)) (built : g.Built) (unit : Draws.InUnit source)
    {run : Run σ} (reachable : Reachable g s source run) : Paced g budget run := by
  induction reachable with
  | start => exact paced_start
  | step before moved ih =>
    exact ih.advance given whole built (before.valid built unit) (advance_of_moved moved)

theorem Reachable.steps_le {limit : Number} (given : s.budget = some limit)
    (whole : limit.split = .inl (budget : Int)) (built : g.Built) (unit : Draws.InUnit source)
    {run : Run σ} (reachable : Reachable g s source run) :
    run.growth.steps ≤ g.budgetedSteps budget :=
  Nat.le_trans (Nat.le_add_right _ _) (reachable.paced given whole built unit).steps_add_le

end Run

namespace Generation

theorem maxFinite?_eq (g : Grammar) : g.costs.maxFinite? = .ok (g.maxFiniteCost : Int) := by
  obtain ⟨m, value, highest, taken⟩ := CostTable.exists_highest g.costs
  have low : g.maxFiniteCost ≤ m := by
    refine List.foldlRecOn (motive := (· ≤ m)) _ max (Nat.zero_le m) fun kept below k inside => ?_
    obtain ⟨⟨name, c⟩, listed, finite⟩ := List.mem_filterMap.mp inside
    cases c with
    | finite n =>
      cases finite
      exact Nat.max_le.mpr ⟨below, highest name _ listed⟩
    | infinite => cases finite
  have high : m ≤ g.maxFiniteCost := by
    rcases taken with rfl | ⟨name, listed⟩
    · exact Nat.zero_le _
    · exact (Grammar.le_foldl_max _ 0).2 m (List.mem_filterMap.mpr ⟨_, listed, rfl⟩)
  rw [value, Nat.le_antisymm low high]

theorem finished_runFor {limit : Number} (given : s.budget = some limit)
    (whole : limit.split = .inl (budget : Int)) (built : g.Built) (unit : Draws.InUnit source)
    {fuel : Nat} (enough : g.budgetedSteps budget < fuel) :
    (∃ last, runFor fuel g s source = .closed last ∧
      last.growth.steps ≤ g.budgetedSteps budget) ∨
    ∃ fault last, runFor fuel g s source = .stopped fault last ∧
      last.growth.steps ≤ g.budgetedSteps budget := by
  have reached : (runFor fuel g s source).Reached g s source fuel := reached_runFor built fuel
  cases outcome : runFor fuel g s source with
  | closed last =>
    rw [outcome] at reached
    exact .inl ⟨last, rfl, reached.1.steps_le given whole built unit⟩
  | stopped fault last =>
    rw [outcome] at reached
    obtain ⟨run, reachable, stopped⟩ := reached
    refine .inr ⟨fault, last, rfl, ?_⟩
    rw [(Run.fails_of_stopped stopped).2]
    exact reachable.steps_le given whole built unit
  | unfinished last =>
    -- as many steps as there was fuel would be more than any reachable run has taken
    rw [outcome] at reached
    have few := reached.1.steps_le given whole built unit
    have many := reached.2
    omega

theorem budgetedSteps_mono {low high : Nat} (le : low ≤ high) :
    g.budgetedSteps low ≤ g.budgetedSteps high := by
  have leaves : 1 + low * (g.width - 1) ≤ 1 + high * (g.width - 1) :=
    Nat.add_le_add_left (Nat.mul_le_mul_right _ le) 1
  exact Nat.add_le_add le (Nat.mul_le_mul_right _ leaves)

theorem budgetedSteps_le_stepBound {limit : Number} (given : s.budget = some limit)
    (whole : limit.split = .inl (budget : Int)) (unlimited : s.maxSteps = none) :
    g.budgetedSteps budget ≤ s.stepBound g := by
  have steps : Settings.stepsTo? limit = some (budget + 1) := by
    simp [Settings.stepsTo?, Number.toInt, whole, Except.toOption]
  have bound : s.stepBound g = max Settings.patience (g.budgetedSteps (budget + 1)) := by
    simp [Settings.stepBound, unlimited, given, steps]
  have more : g.budgetedSteps budget ≤ g.budgetedSteps (budget + 1) :=
    budgetedSteps_mono (Nat.le_succ budget)
  omega

end Generation

/-- On a budget of whole steps generation ends, whatever is drawn. With `m` the greatest number of
names in an alternative, at least one, and `c` the highest finite cost, no run takes more than
`b + (1 + b * (m - 1)) * (m ^ 0 + … + m ^ (c - 1))` steps, whether it closes or stops. -/
theorem Generation.terminates {rules : Rules} {start : String} {g : Grammar}
    (mapping : rules.Distinct) (success : Grammar.build? rules start = .ok g) {limit : Number}
    (given : s.budget = some limit) (whole : limit.split = .inl (budget : Int))
    (unit : Draws.InUnit source) :
    ∃ m c bound : Nat,
      m = (rules.flatMap fun rule => rule.2.map fun e => e.references.length).foldl max 1 ∧
      g.costs.maxFinite? = .ok (c : Int) ∧
      bound = budget + (1 + budget * (m - 1)) * ((List.range c).map (m ^ ·)).sum ∧
      (∀ run, Run.Reachable g s source run → run.growth.steps ≤ bound) ∧
      (∀ fuel, bound < fuel →
        (∃ last, runFor fuel g s source = .closed last ∧ last.growth.steps ≤ bound) ∨
        ∃ fault last, runFor fuel g s source = .stopped fault last ∧ last.growth.steps ≤ bound) ∧
      (s.maxSteps = none → ∀ last, Generation.run g s source ≠ .unfinished last) := by
  obtain ⟨built, rfl, -⟩ := Grammar.built_of_build? mapping success
  refine ⟨g.width, g.maxFiniteCost, g.budgetedSteps budget, rfl, maxFinite?_eq g, rfl, ?_, ?_, ?_⟩
  · intro run reachable
    exact reachable.steps_le given whole built unit
  · intro fuel enough
    exact finished_runFor given whole built unit enough
  · intro unlimited last unfinished
    have enough : g.budgetedSteps budget < s.stepBound g + 1 :=
      Nat.lt_succ_of_le (budgetedSteps_le_stepBound given whole unlimited)
    rcases finished_runFor given whole built unit enough with ⟨_, closed, -⟩ | ⟨_, _, stopped, -⟩
    · rw [Generation.run, closed] at unfinished
      cases unfinished
    · rw [Generation.run, stopped] at unfinished
      cases unfinished

theorem Generation.terminates_list : listRules.Distinct ∧
    Settings.standard.budget = some (.int 1000) ∧
    (Number.int 1000).split = .inl ((1000 : Nat) : Int) ∧
    Draws.InUnit (Source.replaying #[0.5, 0.25]) ∧ ∀ fuel, 4003 < fuel →
      (∃ last, runFor fuel ⟨listRules, "list", (Cost.estimate listRules).table⟩ Settings.standard
        (Source.replaying #[0.5, 0.25]) = .closed last ∧ last.growth.steps ≤ 4003) ∨
      ∃ fault last, runFor fuel ⟨listRules, "list", (Cost.estimate listRules).table⟩
        Settings.standard (Source.replaying #[0.5, 0.25]) = .stopped fault last ∧
          last.growth.steps ≤ 4003 := by
  have mapping : listRules.Distinct := by decide
  have unit : Draws.InUnit (Source.replaying #[0.5, 0.25]) :=
    Source.replaying_inUnit (by decide)
  obtain ⟨m, c, bound, width, cost, value, -, finished, -⟩ :=
    @Generation.terminates _ _ Settings.standard _ 1000 _ _ _ mapping listRules_build
      (.int 1000) rfl rfl unit
  have two : m = 2 := width.trans (by decide)
  have low : (Cost.estimate listRules).table.maxFinite? = .ok (2 : Int) := by decide
  have same : c = 2 := by
    rw [low, Except.ok.injEq] at cost
    omega
  subst two same
  rw [show bound = 4003 from value.trans (by decide)] at finished
  exact ⟨mapping, rfl, rfl, unit, finished⟩

end GrammarSampler
