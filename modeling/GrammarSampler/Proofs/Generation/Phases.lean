import GrammarSampler.Proofs.Generation.History
import GrammarSampler.Proofs.Generation.Termination
import GrammarSampler.Proofs.Number.Limit

/-!
The phases of a run. They come in their order and none comes back, growth and exploration keep to
their limits and to the budget, and until closing begins the open leaves stay bounded.
-/
namespace GrammarSampler
variable {s : Settings}

namespace Phase
variable {phase : Phase} {rules openCount steps stalled : Nat}

theorem of_next_growth (grows : next s rules phase openCount steps stalled = .growth) :
    phase = .growth ∧ s.minimum.exceeds openCount = true := by
  unfold next at grows
  split at grows
  · cases grows
  · split at grows
    · cases grows
    · split at grows
      · rename_i both
        exact ⟨both.1, both.2.1⟩
      · split at grows <;> cases grows

theorem of_next_exploration (explores : next s rules phase openCount steps stalled = .exploration) :
    phase ≠ .closing ∧ s.maximum.exceeds openCount = true := by
  refine ⟨(not_spent_of_next (by rw [explores]; decide)).1, ?_⟩
  unfold next at explores
  split at explores
  · cases explores
  · split at explores
    · cases explores
    · split at explores
      · cases explores
      · split at explores
        · assumption
        · cases explores

end Phase

namespace Run

section Order
variable {ρ σ : Type} [Arithmetic ρ] [Draws σ ρ] {g : Grammar} {source : σ}
  {decisions : List Decision} {run next : Run σ} {decision : Decision}

/-- The phases of some decisions stand in their order, and the run is in none that comes before the
last of them. -/
def InOrder (decisions : List Decision) (run : Run σ) : Prop :=
  ∃ grown explored closed, decisions.map Decision.phase =
      List.replicate grown .growth ++ List.replicate explored .exploration ++
        List.replicate closed .closing ∧
    (run.phase ≠ .closing → closed = 0) ∧ (run.phase = .growth → explored = 0)

theorem InOrder.advance (order : InOrder decisions run) (advance : Advance g s run decision next) :
    InOrder (decisions ++ [decision]) next := by
  obtain ⟨grown, explored, closed, phases, early, first⟩ := order
  have phase : decision.phase = run.nextPhase g s := advance.phase
  rw [InOrder, List.map_append, phases, List.map_singleton, advance.kept]
  -- The decision joins the last block: by what may follow what, the blocks behind its own are empty.
  cases now : decision.phase with
  | growth =>
    rw [now] at phase
    have before := (Phase.of_next_growth phase.symm).1
    have none : closed = 0 := early (by rw [before]; decide)
    have unexplored : explored = 0 := first before
    subst none unexplored
    refine ⟨grown + 1, 0, 0, ?_, fun _ => rfl, fun _ => rfl⟩
    simp [List.replicate_succ']
  | exploration =>
    rw [now] at phase
    have none : closed = 0 := early (Phase.of_next_exploration phase.symm).1
    subst none
    refine ⟨grown, explored + 1, 0, ?_, fun _ => rfl, fun other => by cases other⟩
    simp [List.replicate_succ']
  | closing =>
    refine ⟨grown, explored, closed + 1, ?_, fun other => absurd rfl other, fun other => by cases other⟩
    simp [List.replicate_succ']

theorem History.inOrder (history : History g s source decisions run) : InOrder decisions run := by
  induction history with
  | start => exact ⟨0, 0, 0, rfl, fun _ => rfl, fun _ => rfl⟩
  | step _ moved ih => exact ih.advance (advance_of_moved moved)

/-- The steps of growth and exploration. -/
def earlySteps (decisions : List Decision) : Nat :=
  decisions.countP fun decision => decision.phase ≠ .closing

theorem History.earlySteps_le {limit : Number} (given : s.budget = some limit) {count : Nat}
    (spent : limit.reachedBy count = true) (history : History g s source decisions run) :
    earlySteps decisions ≤ count := by
  induction history with
  | start => exact Nat.zero_le count
  | @step decisions run next decision before moved ih =>
    have phase : decision.phase = run.nextPhase g s := (advance_of_moved moved).phase
    by_cases closing : decision.phase = .closing
    · simpa [earlySteps, closing] using ih
    · have within := (Phase.not_spent_of_next (phase ▸ closing)).2
      have few : run.growth.steps < count := by
        by_contra late
        rw [Phase.spent, given, Option.any_some,
          Number.reachedBy_mono spent (Nat.le_of_not_lt late)] at within
        cases within
      have all : earlySteps (decisions ++ [decision]) ≤ (decisions ++ [decision]).length :=
        List.countP_le_length
      rw [List.length_append, before.length_eq, List.length_singleton] at all
      omega

end Order

section Width
variable {σ : Type} [Draws σ Float] {g : Grammar} {source : σ} {decisions : List Decision}
  {run next : Run σ} {decision : Decision}

theorem Advance.openCount_lt (valid : s.Valid) {most : Int} (whole : s.maximum.split = .inl most)
    (advance : Advance g s run decision next) (early : decision.phase ≠ .closing) :
    (run.growth.openCount : Int) < most := by
  have phase : decision.phase = run.nextPhase g s := advance.phase
  have same : ∀ limit : Number, s.maximum.lt limit = (Number.int most).lt limit := by
    intro limit
    rw [Number.lt, Number.lt, Number.compare?, Number.compare?, whole]
    rfl
  cases now : decision.phase with
  | growth =>
    rw [now] at phase
    have below := (Phase.of_next_growth phase.symm).2
    have ordered := valid.minimum_le_maximum
    rw [same] at ordered
    exact Number.lt_of_exceeds below ordered
  | exploration =>
    rw [now] at phase
    have below := (Phase.of_next_exploration phase.symm).2
    rwa [Number.exceeds_of_split whole, decide_eq_true_eq] at below
  | closing => exact absurd now early

theorem History.openCount_le (built : g.Built) (unit : Draws.InUnit source) (valid : s.Valid)
    {most : Int} (whole : s.maximum.split = .inl most) {width : Nat}
    (widest : ∀ rule ∈ g.rules, ∀ e ∈ rule.2, e.references.length ≤ width)
    (history : History g s source decisions run)
    (early : ∀ decision ∈ decisions, decision.phase ≠ .closing) :
    (run.growth.openCount : Int) ≤ max 1 (most + width - 2) := by
  cases history with
  | start => exact le_max_left 1 _
  | @step decisions run next decision before moved =>
    have advance := advance_of_moved moved
    have bound := advance.openCount_lt valid whole (early decision (by simp))
    have followed := before.reachable.valid built unit
    obtain ⟨rule, inside, e, chosen, count⟩ :=
      (followed.expands built advance).openCount_eq followed
    have few := widest rule inside e chosen
    omega

end Width
end Run

/-- The phases of a run stand in their order, whatever the settings and the draws are: growth, then
exploration, then closing, and none comes back. Growth steps are taken only while fewer leaves than
the minimum are open, exploration steps only while fewer than the maximum are, and both together
are no more than the budget allows. With `width` the greatest number of names in an alternative, no
more than `most + width - 2` leaves are open until closing begins, or the single first one. -/
theorem Generation.phases_in_order {σ : Type} [Draws σ Float] {source : σ} {rules : Rules}
    {start : String} {g : Grammar} (mapping : rules.Distinct)
    (success : Grammar.build? rules start = .ok g) (valid : s.Valid) (unit : Draws.InUnit source)
    {decisions : List Decision} {run : Run σ} (history : Run.History g s source decisions run) :
    (∃ grown explored closed, decisions.map Decision.phase =
      List.replicate grown .growth ++ List.replicate explored .exploration ++
        List.replicate closed .closing) ∧
    (∀ decision next, run.step g s = .moved decision next →
      (decision.phase = .growth → s.minimum.exceeds run.growth.openCount = true) ∧
      (decision.phase = .exploration → s.maximum.exceeds run.growth.openCount = true)) ∧
    (∀ limit, s.budget = some limit → ∀ count : Nat, limit.reachedBy count = true →
      Run.earlySteps decisions ≤ count) ∧
    ∀ width, width = (rules.flatMap fun rule => rule.2.map fun e => e.references.length).foldl max 0 →
      ∀ most : Int, s.maximum.split = .inl most →
        (∀ decision ∈ decisions, decision.phase ≠ .closing) →
          (run.growth.openCount : Int) ≤ max 1 (most + width - 2) := by
  obtain ⟨built, rfl, rfl⟩ := Grammar.built_of_build? mapping success
  refine ⟨?_, ?_, ?_, ?_⟩
  · obtain ⟨grown, explored, closed, phases, -⟩ := history.inOrder
    exact ⟨grown, explored, closed, phases⟩
  · intro decision next moved
    have phase : decision.phase = run.nextPhase g s :=
      (Run.advance_of_moved moved).phase
    constructor
    · intro grows
      exact (Phase.of_next_growth (phase.symm.trans grows)).2
    · intro explores
      exact (Phase.of_next_exploration (phase.symm.trans explores)).2
  · intro limit given count spent
    exact history.earlySteps_le given spent
  · rintro width rfl most whole early
    refine history.openCount_le built unit valid whole ?_ early
    intro rule inside e chosen
    exact (Grammar.le_foldl_max _ 0).2 _
      (List.mem_flatMap.mpr ⟨rule, inside, List.mem_map_of_mem chosen⟩)

def spreadingSettings : Settings := ⟨.int 2, .int 3, .leftmost, some (.int 4), none⟩

theorem Generation.phases_in_order_list : listRules.Distinct ∧ spreadingSettings.Valid ∧
    Draws.InUnit (Source.replaying #[0.75]) ∧ ∃ decision run,
      Run.History ⟨listRules, "list", (Cost.estimate listRules).table⟩ spreadingSettings
        (Source.replaying #[0.75]) [decision] run ∧
      decision.phase = .growth ∧ (run.growth.openCount : Int) ≤ 3 := by
  have mapping : listRules.Distinct := by decide
  have unit : Draws.InUnit (Source.replaying #[0.75]) := Source.replaying_inUnit (by decide)
  have accepted : spreadingSettings.Valid := by
    refine ⟨by decide, by decide, ?_, ?_⟩
    · intro limit given
      cases given
      decide
    · intro limit given
      cases given
  obtain ⟨decision, run, moved, grows⟩ : ∃ decision run,
      (Run.start "list" (Source.replaying #[0.75])).step
        ⟨listRules, "list", (Cost.estimate listRules).table⟩ spreadingSettings =
          .moved decision run ∧ decision.phase = .growth := ⟨_, _, rfl, rfl⟩
  have history : Run.History _ _ _ [decision] run := .step .start moved
  have bounded := (Generation.phases_in_order mapping listRules_build accepted unit history).2.2.2
  refine ⟨mapping, accepted, unit, decision, run, history, grows, bounded 2 rfl 3 rfl ?_⟩
  intro other inside
  rw [List.mem_singleton.mp inside, grows]
  decide

end GrammarSampler
