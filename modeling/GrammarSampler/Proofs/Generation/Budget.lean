import GrammarSampler.Proofs.Generation.Optimal
import GrammarSampler.Proofs.Generation.Phases
import GrammarSampler.Proofs.Generation.Resume

/-!
Budgets agree until the smaller one is spent. Two runs with different budgets take the same steps
up to then, and the same ones for good if both close by then; from there on the run with the smaller
budget only closes.
-/
namespace GrammarSampler
variable {s : Settings} {low : Number} {high : Option Number} {k : Nat}

namespace Settings

def onBudget (s : Settings) (budget : Option Number) : Settings := { s with budget := budget }

/-- All whole steps up to `k` keep within a budget. -/
def Allows (budget : Option Number) (k : Nat) : Prop :=
  ∀ limit ∈ budget, ∃ c : Int, limit.split = .inl c ∧ (k : Int) < c

end Settings

namespace Phase
variable {steps : Nat}

theorem spent_of_allows {budget : Option Number} (allows : Settings.Allows budget k)
    (few : steps ≤ k) : spent (s.onBudget budget) steps = false := by
  unfold spent
  cases given : (s.onBudget budget).budget with
  | none => rfl
  | some limit =>
    obtain ⟨c, whole, above⟩ := allows limit given
    rw [Option.any_some, Number.reachedBy_of_split whole, decide_eq_false_iff_not]
    omega

theorem spent_of_le (whole : low.split = .inl (k : Int)) (many : k ≤ steps) :
    spent (s.onBudget (some low)) steps = true := by
  have given : (s.onBudget (some low)).budget = some low := rfl
  rw [spent, given, Option.any_some, Number.reachedBy_of_split whole, decide_eq_true_eq]
  exact Int.ofNat_le.mpr many

theorem spent_of_lt (whole : low.split = .inl (k : Int)) (few : steps < k) :
    spent (s.onBudget (some low)) steps = false := by
  refine spent_of_allows (k := steps) ?_ (Nat.le_refl _)
  rintro limit ⟨⟩
  exact ⟨k, whole, Int.ofNat_lt.mpr few⟩

end Phase

namespace Run
variable {ρ σ : Type} [Arithmetic ρ] [Draws σ ρ] {g : Grammar} {source : σ} {run : Run σ}

omit [Arithmetic ρ] [Draws σ ρ] in
theorem nextPhase_onBudget {budget other : Option Number}
    (same : Phase.spent (s.onBudget budget) run.growth.steps =
      Phase.spent (s.onBudget other) run.growth.steps) :
    run.nextPhase g (s.onBudget budget) = run.nextPhase g (s.onBudget other) := by
  unfold nextPhase Phase.next
  rw [same]
  rfl

theorem step_onBudget {budget other : Option Number}
    (same : run.nextPhase g (s.onBudget budget) = run.nextPhase g (s.onBudget other)) :
    run.step g (s.onBudget budget) = run.step g (s.onBudget other) := by
  cases unfinished : run.growth.isComplete with
  | true => rw [step_of_complete unfinished, step_of_complete unfinished]
  | false =>
    have equal : stepLimit? (s.onBudget budget) run = stepLimit? (s.onBudget other) run := rfl
    cases limit : stepLimit? (s.onBudget other) run with
    | some fault =>
      rw [step_of_limit unfinished limit, step_of_limit unfinished (equal.trans limit)]
    | none =>
      rw [step_of_open unfinished limit, step_of_open unfinished (equal.trans limit), same]
      rfl

section Early
variable (whole : low.split = .inl (k : Int)) (allows : Settings.Allows high k)
include whole allows

theorem step_early (few : run.growth.steps < k) :
    run.step g (s.onBudget (some low)) = run.step g (s.onBudget high) := by
  apply step_onBudget
  apply nextPhase_onBudget
  rw [Phase.spent_of_lt whole few, Phase.spent_of_allows allows few.le]

theorem step_closing (closing : run.nextPhase g (s.onBudget high) = .closing) :
    run.step g (s.onBudget (some low)) = run.step g (s.onBudget high) := by
  rcases Nat.lt_or_ge run.growth.steps k with few | many
  · exact step_early whole allows few
  · apply step_onBudget
    rw [closing, nextPhase, Phase.next, Phase.spent_of_le whole many]
    simp

theorem resume_early {fuel : Nat} (run : Run σ) (few : run.growth.steps + fuel ≤ k) :
    resume g (s.onBudget (some low)) fuel run = resume g (s.onBudget high) fuel run := by
  refine resume_of_same_steps (fun fuel run => run.growth.steps + fuel ≤ k) ?_ ?_ few
  · intro fuel run early
    exact step_early whole allows (by omega)
  · intro fuel run decision next early moved
    rw [(advance_of_moved moved).steps]
    omega

theorem resume_closing (fuel : Nat) (run : Run σ)
    (closing : run.nextPhase g (s.onBudget high) = .closing) :
    resume g (s.onBudget (some low)) fuel run = resume g (s.onBudget high) fuel run := by
  refine resume_of_same_steps
    (fun _ run => run.nextPhase g (s.onBudget high) = .closing) ?_ ?_ closing
  · intro fuel run closes
    exact step_closing whole allows closes
  · intro fuel run decision next closes moved
    have advance := advance_of_moved moved
    exact nextPhase_of_closing (advance.kept.trans (advance.phase.trans closes))

end Early

theorem Advance.cheapest {next : Run σ} {decision : Decision} (whole : low.split = .inl (k : Int))
    (many : k ≤ run.growth.steps)
    (advance : Advance g (s.onBudget (some low)) run decision next) :
    decision.phase = .closing ∧
      ∃ e, (g.alternatives decision.name)[decision.alternative]? = some e ∧
        ∀ d ∈ g.alternatives decision.name, ∀ n,
          (Cost.ofExpansion g.costs d).AtMost n → (Cost.ofExpansion g.costs e).AtMost n := by
  have phase : decision.phase = .closing := by
    rw [advance.phase, nextPhase, Phase.next, Phase.spent_of_le whole many]
    simp
  have candidate := (Choice.alternative_ok advance.chosen).1
  rw [phase] at candidate
  obtain ⟨e, found, -, cheapest⟩ := Choice.mem_candidates_closing.mp candidate
  refine ⟨phase, e, found, ?_⟩
  intro d own n bound
  rw [cheapest, Cost.atMost_best]
  exact ⟨_, List.mem_map_of_mem own, bound⟩

end Run

namespace Generation
variable {ρ σ : Type} [Arithmetic ρ] [Draws σ ρ] {g : Grammar} {source : σ}

section Agreement
variable (built : g.Built) (whole : low.split = .inl (k : Int)) (allows : Settings.Allows high k)
include built whole allows

theorem runFor_early {fuel : Nat} (few : fuel ≤ k) :
    runFor fuel g (s.onBudget (some low)) source = runFor fuel g (s.onBudget high) source := by
  rw [runFor_eq built, runFor_eq built]
  exact Run.resume_early whole allows _ ((Nat.zero_add fuel).trans_le few)

/-- Two runs that do the same where the first `k` steps have left them do the same throughout. -/
theorem runFor_of_left
    (further : ∀ mid rest, runFor k g (s.onBudget high) source = .unfinished mid →
      Run.resume g (s.onBudget (some low)) rest mid = Run.resume g (s.onBudget high) rest mid)
    (fuel : Nat) :
    runFor fuel g (s.onBudget (some low)) source = runFor fuel g (s.onBudget high) source := by
  rcases Nat.le_total fuel k with few | many
  · exact runFor_early built whole allows few
  · obtain ⟨rest, rfl⟩ := Nat.exists_eq_add_of_le many
    have same : runFor k g (s.onBudget (some low)) source = runFor k g (s.onBudget high) source :=
      runFor_early built whole allows (Nat.le_refl k)
    rw [runFor_eq built, runFor_eq built] at same ⊢
    rw [Run.resume_add, Run.resume_add, same]
    cases left : Run.resume g (s.onBudget high) k (Run.start g.start source) with
    | closed last => rfl
    | stopped fault last => rfl
    | unfinished mid => exact further mid rest (by rw [runFor_eq built, left])

theorem runFor_of_closed {n : Nat} {last : Run σ}
    (closed : runFor n g (s.onBudget high) source = .closed last) (few : last.growth.steps ≤ k)
    (fuel : Nat) :
    runFor fuel g (s.onBudget (some low)) source = runFor fuel g (s.onBudget high) source := by
  refine runFor_of_left built whole allows ?_ fuel
  intro mid rest left
  rw [runFor_eq built] at closed left
  rcases Run.ended_or_left (Outcome.ended_closed last) closed k with
    ended | ⟨mid', more, left', steps, later⟩
  · rw [ended] at left
    cases left
  · rw [left, Outcome.unfinished.injEq] at left'
    subst left'
    obtain ⟨rfl, complete⟩ := Run.complete_of_resume_closed later (few.trans steps.ge)
    cases rest with
    | zero => rfl
    | succ rest =>
      rw [Run.resume_of_closed (Run.step_of_complete complete),
        Run.resume_of_closed (Run.step_of_complete complete)]

theorem runFor_of_stopped {n : Nat} {fault : Fault} {last : Run σ}
    (stopped : runFor n g (s.onBudget high) source = .stopped fault last)
    (few : last.growth.steps < k) (fuel : Nat) :
    runFor fuel g (s.onBudget (some low)) source = runFor fuel g (s.onBudget high) source := by
  refine runFor_of_left built whole allows ?_ fuel
  intro mid rest left
  rw [runFor_eq built] at stopped left
  rcases Run.ended_or_left (Outcome.ended_stopped fault last) stopped k with
    ended | ⟨mid', more, left', steps, later⟩
  · rw [ended] at left
    cases left
  · rw [left, Outcome.unfinished.injEq] at left'
    subst left'
    have further := later ▸ Run.between_resume (g := g) (s := s.onBudget high) more mid
    exact absurd (steps.ge.trans further.1) (Nat.not_le_of_lt few)

theorem runFor_of_closing {decisions : List Decision} {run : Run σ}
    (history : Run.History g (s.onBudget high) source decisions run) (few : decisions.length ≤ k)
    (closing : run.nextPhase g (s.onBudget high) = .closing) (fuel : Nat) :
    runFor fuel g (s.onBudget (some low)) source = runFor fuel g (s.onBudget high) source := by
  rcases Nat.le_total fuel decisions.length with early | late
  · exact runFor_early built whole allows (early.trans few)
  · obtain ⟨rest, rfl⟩ := Nat.exists_eq_add_of_le late
    have other : Run.History g (s.onBudget (some low)) source decisions run :=
      history.of_same_steps (fun run early => (Run.step_early whole allows early).symm) few
    rw [runFor_eq built, runFor_eq built, history.resume_start, other.resume_start]
    exact Run.resume_closing whole allows rest run closing

end Agreement
end Generation

/-- Budgets agree until the smaller one is spent. Of two runs that differ only in the budget, `k`
steps for the one and more steps or no budget for the other, the first `k` steps are the same: the
same leaves, alternatives and draws, and the same end if they end before. If the run with the larger
budget has ended by then, or closes from then on, both do the same throughout. From `k` steps on the
run with the smaller budget takes only cheapest alternatives. -/
theorem Generation.budgets_agree {ρ σ : Type} [Arithmetic ρ] [Draws σ ρ] {rules : Rules}
    {start : String} {g : Grammar} (mapping : rules.Distinct)
    (success : Grammar.build? rules start = .ok g) (s : Settings)
    (whole : low.split = .inl (k : Int)) (allows : Settings.Allows high k) (source : σ) :
    (∀ decisions run, decisions.length ≤ k →
      (Run.History g (s.onBudget (some low)) source decisions run ↔
        Run.History g (s.onBudget high) source decisions run)) ∧
    (∀ fuel ≤ k,
      runFor fuel g (s.onBudget (some low)) source = runFor fuel g (s.onBudget high) source) ∧
    ((∃ n last, runFor n g (s.onBudget high) source = .closed last ∧ last.growth.steps ≤ k) ∨
      (∃ n fault last, runFor n g (s.onBudget high) source = .stopped fault last ∧
        last.growth.steps < k) ∨
      (∃ decisions run, Run.History g (s.onBudget high) source decisions run ∧
        decisions.length ≤ k ∧ run.nextPhase g (s.onBudget high) = .closing) →
      ∀ fuel,
        runFor fuel g (s.onBudget (some low)) source = runFor fuel g (s.onBudget high) source) ∧
    ∀ decisions run, Run.History g (s.onBudget (some low)) source decisions run →
      k ≤ decisions.length → ∀ decision next,
        run.step g (s.onBudget (some low)) = .moved decision next →
          decision.phase = .closing ∧
            ∃ e, (g.alternatives decision.name)[decision.alternative]? = some e ∧
              ∀ d ∈ g.alternatives decision.name, ∀ n,
                (Cost.ofExpansion g.costs d).AtMost n → (Cost.ofExpansion g.costs e).AtMost n := by
  obtain ⟨built, rfl, rfl⟩ := Grammar.built_of_build? mapping success
  refine ⟨?_, ?_, ?_, ?_⟩
  · intro decisions run few
    constructor
    · intro history
      exact history.of_same_steps (fun run early => Run.step_early whole allows early) few
    · intro history
      exact history.of_same_steps (fun run early => (Run.step_early whole allows early).symm) few
  · intro fuel few
    exact runFor_early built whole allows few
  · rintro (⟨n, last, closed, few⟩ | ⟨n, fault, last, stopped, few⟩ |
      ⟨decisions, run, history, few, closing⟩) fuel
    · exact runFor_of_closed built whole allows closed few fuel
    · exact runFor_of_stopped built whole allows stopped few fuel
    · exact runFor_of_closing built whole allows history few closing fuel
  · intro decisions run history many decision next moved
    rw [history.length_eq] at many
    exact (Run.advance_of_moved moved).cheapest whole many

theorem Generation.budgets_agree_list : listRules.Distinct ∧
    (Number.int 1).split = .inl ((1 : Nat) : Int) ∧ Settings.Allows none 1 ∧
    (∃ decision run,
      Run.History ⟨listRules, "list", (Cost.estimate listRules).table⟩
        (spreadingSettings.onBudget none) (Source.replaying #[0.75]) [decision] run ∧
      Run.History ⟨listRules, "list", (Cost.estimate listRules).table⟩
        (spreadingSettings.onBudget (some (.int 1))) (Source.replaying #[0.75]) [decision] run ∧
      decision.phase = .growth ∧ ∀ later next,
        run.step ⟨listRules, "list", (Cost.estimate listRules).table⟩
          (spreadingSettings.onBudget (some (.int 1))) = .moved later next →
            later.phase = .closing) ∧
    ∀ fuel, runFor fuel ⟨listRules, "list", (Cost.estimate listRules).table⟩
        (closingSettings.onBudget (some (.int 1))) (Source.replaying #[0.75]) =
      runFor fuel ⟨listRules, "list", (Cost.estimate listRules).table⟩
        (closingSettings.onBudget none) (Source.replaying #[0.75]) := by
  have mapping : listRules.Distinct := by decide
  have whole : (Number.int 1).split = .inl ((1 : Nat) : Int) := rfl
  have allows : Settings.Allows none 1 := by
    intro limit given
    cases given
  obtain ⟨histories, -, -, cheapest⟩ := Generation.budgets_agree mapping listRules_build
    spreadingSettings whole allows (Source.replaying #[0.75])
  obtain ⟨-, -, coincide, -⟩ := Generation.budgets_agree mapping listRules_build
    closingSettings whole allows (Source.replaying #[0.75])
  obtain ⟨decision, run, moved, grows⟩ : ∃ decision run,
      (Run.start "list" (Source.replaying #[0.75])).step
        ⟨listRules, "list", (Cost.estimate listRules).table⟩ (spreadingSettings.onBudget none) =
          .moved decision run ∧ decision.phase = .growth := ⟨_, _, rfl, rfl⟩
  have history : Run.History _ _ _ [decision] run := .step .start moved
  have other := (histories [decision] run (Nat.le_refl 1)).mpr history
  refine ⟨mapping, whole, allows, ⟨decision, run, history, other, grows, ?_⟩, ?_⟩
  · intro later next moved'
    exact (cheapest [decision] run other (Nat.le_refl 1) later next moved').1
  · exact coincide (.inr (.inr ⟨[], _, .start, Nat.zero_le 1, rfl⟩))

end GrammarSampler
