import GrammarSampler.Proofs.Generation.Optimal
import GrammarSampler.Proofs.Generation.Resume

/-!
The step limit only observes. A run under a limit does what the run without it does for as many
steps; what is complete then is closed, and all else stops there.
-/
namespace GrammarSampler
variable {ρ σ : Type} [Arithmetic ρ] [Draws σ ρ] {g : Grammar} {s : Settings} {source : σ}
  {limit : Number} {k : Nat}

namespace Settings

def limited (s : Settings) (limit : Number) : Settings := { s with maxSteps := some limit }

end Settings

namespace Run
variable {run : Run σ}

def cut (limit : Number) (run : Run σ) : Outcome σ :=
  if run.growth.isComplete then .closed run
  else .stopped (.generation (.stepLimit limit run.growth.openCount run.growth.steps)) run

theorem step_limited (unlimited : s.maxSteps = none) (whole : limit.split = .inl (k : Int))
    (few : run.growth.steps < k) : run.step g (s.limited limit) = run.step g s := by
  cases unfinished : run.growth.isComplete with
  | true => rw [step_of_complete unfinished, step_of_complete unfinished]
  | false =>
    have free : stepLimit? s run = none := by rw [stepLimit?, unlimited]
    have below : stepLimit? (s.limited limit) run = none := by
      refine if_neg ?_
      rw [Number.reachedBy_of_split whole, decide_eq_true_eq]
      omega
    rw [step_of_open unfinished free, step_of_open unfinished below]
    rfl

theorem resume_cut (whole : limit.split = .inl (k : Int)) (all : run.growth.steps = k) (fuel : Nat) :
    resume g (s.limited limit) (fuel + 1) run = run.cut limit := by
  unfold cut
  cases unfinished : run.growth.isComplete with
  | true =>
    rw [resume_of_closed (step_of_complete unfinished)]
    rfl
  | false =>
    have reached : stepLimit? (s.limited limit) run =
        some (.stepLimit limit run.growth.openCount run.growth.steps) := by
      refine if_pos ?_
      rw [Number.reachedBy_of_split whole, decide_eq_true_eq, all]
    rw [resume_of_stopped (step_of_limit unfinished reached)]
    rfl

theorem resume_limited (unlimited : s.maxSteps = none) (whole : limit.split = .inl (k : Int))
    {rest : Nat} (left : run.growth.steps + rest = k) (more : Nat) :
    resume g (s.limited limit) (rest + more + 1) run =
      (resume g s rest run).andThen (cut limit) := by
  induction rest generalizing run with
  | zero =>
    rw [resume_cut whole left]
    rfl
  | succ rest ih =>
    have same : run.step g (s.limited limit) = run.step g s :=
      step_limited unlimited whole (by omega)
    rw [Nat.add_right_comm rest 1 more]
    cases moved : run.step g s with
    | closed last =>
      rw [resume_of_closed (same.trans moved), resume_of_closed moved]
      rfl
    | stopped fault last =>
      rw [resume_of_stopped (same.trans moved), resume_of_stopped moved]
      rfl
    | moved decision next =>
      rw [resume_of_moved (same.trans moved), resume_of_moved moved]
      refine ih ?_
      rw [(advance_of_moved moved).steps]
      omega

end Run

namespace Generation
variable {fuel : Nat} {last : Run σ}

/-- From the start on, a run under a limit is the run without it, cut after as many steps. -/
theorem runFor_limited (built : g.Built) (unlimited : s.maxSteps = none)
    (whole : limit.split = .inl (k : Int)) (enough : k < fuel) :
    runFor fuel g (s.limited limit) source = (runFor k g s source).andThen (Run.cut limit) := by
  obtain ⟨more, rfl⟩ : ∃ more, fuel = k + more + 1 := ⟨fuel - k - 1, by omega⟩
  rw [runFor_eq built, runFor_eq built]
  exact Run.resume_limited unlimited whole (Nat.zero_add k) more

theorem limited_of_closed (built : g.Built) (unlimited : s.maxSteps = none)
    (whole : limit.split = .inl (k : Int)) (enough : k < fuel) {n : Nat}
    (closed : runFor n g s source = .closed last) (few : last.growth.steps ≤ k) :
    runFor fuel g (s.limited limit) source = .closed last := by
  rw [runFor_eq built] at closed
  rw [runFor_limited built unlimited whole enough, runFor_eq built]
  rcases Run.ended_or_left (Outcome.ended_closed last) closed k with
    ended | ⟨mid, rest, left, steps, later⟩
  · rw [ended]
    rfl
  · obtain ⟨rfl, complete⟩ := Run.complete_of_resume_closed later (few.trans steps.ge)
    rw [left]
    exact if_pos complete

theorem limited_of_stopped (built : g.Built) (unlimited : s.maxSteps = none)
    (whole : limit.split = .inl (k : Int)) (enough : k < fuel) {n : Nat} {fault : Fault}
    (stopped : runFor n g s source = .stopped fault last) (few : last.growth.steps < k) :
    runFor fuel g (s.limited limit) source = .stopped fault last := by
  rw [runFor_eq built] at stopped
  rw [runFor_limited built unlimited whole enough, runFor_eq built]
  rcases Run.ended_or_left (Outcome.ended_stopped fault last) stopped k with
    ended | ⟨mid, rest, left, steps, later⟩
  · rw [ended]
    rfl
  · have further := later ▸ Run.between_resume (g := g) (s := s) rest mid
    exact absurd (steps.ge.trans further.1) (Nat.not_le_of_lt few)

theorem limited_of_longer (built : g.Built) (unlimited : s.maxSteps = none)
    (whole : limit.split = .inl (k : Int)) (enough : k < fuel)
    (open_ : ∀ n last, runFor n g s source = .closed last → k < last.growth.steps)
    (sound : ∀ n fault last, runFor n g s source = .stopped fault last → k ≤ last.growth.steps) :
    ∃ decisions last, Run.History g s source decisions last ∧ decisions.length = k ∧
      runFor fuel g (s.limited limit) source =
        .stopped (.generation (.stepLimit limit last.growth.openCount k)) last ∧
      last.growth.steps = k := by
  have between : (runFor k g s source).Between 0 k := by
    rw [runFor_eq built]
    exact Run.between_start k
  rw [runFor_limited built unlimited whole enough]
  cases found : runFor k g s source with
  | closed last =>
    rw [found] at between
    exact absurd between.2 (Nat.not_lt_of_lt (open_ k last found))
  | stopped fault last =>
    rw [found] at between
    exact absurd between.2 (Nat.not_lt_of_le (sound k fault last found))
  | unfinished last =>
    rw [found] at between
    have steps : last.growth.steps = k := between
    rw [runFor_eq built] at found
    obtain ⟨decisions, history, count⟩ := Run.exists_history_of_unfinished found
    refine ⟨decisions, last, history, count, ?_, steps⟩
    have unfinished : ¬ last.growth.isComplete = true := by
      intro complete
      have closed : runFor (k + 1) g s source = .closed last := by
        rw [runFor_eq built, Run.resume_add, found]
        exact Run.resume_of_closed (Run.step_of_complete complete)
      have := open_ _ last closed
      omega
    refine (if_neg unfinished).trans ?_
    rw [steps]

/-- The bound on the steps of a run under a limit never cuts it off. -/
theorem lt_stepBound_limited (whole : limit.split = .inl (k : Int)) :
    k < (s.limited limit).stepBound g + 1 := by
  have steps : Settings.stepsTo? limit = some (k + 1) := by
    simp [Settings.stepsTo?, Number.toInt, whole, Except.toOption]
  have bound : (s.limited limit).stepBound g = k + 1 := by
    simp [Settings.stepBound, Settings.limited, steps]
  omega

end Generation

/-- A step limit only observes. Compare the run without a limit with the run under a limit of `k`
steps. If the former closes after at most `k` steps, the latter ends with the same tree and the same
source; if the former fails before `k` steps are done, the latter fails in the same way. In all other
cases, also if the former never ends, the latter stops after exactly `k` of its steps. -/
theorem Generation.limit_observes {rules : Rules} {start : String} (mapping : rules.Distinct)
    (success : Grammar.build? rules start = .ok g) (unlimited : s.maxSteps = none)
    (whole : limit.split = .inl (k : Int)) (source : σ) :
    (∀ fuel, k < fuel →
      (∀ n last, runFor n g s source = .closed last → last.growth.steps ≤ k →
        runFor fuel g (s.limited limit) source = .closed last) ∧
      (∀ n fault last, runFor n g s source = .stopped fault last → last.growth.steps < k →
        runFor fuel g (s.limited limit) source = .stopped fault last) ∧
      ((∀ n last, runFor n g s source = .closed last → k < last.growth.steps) →
        (∀ n fault last, runFor n g s source = .stopped fault last → k ≤ last.growth.steps) →
          ∃ decisions last, Run.History g s source decisions last ∧ decisions.length = k ∧
            runFor fuel g (s.limited limit) source =
              .stopped (.generation (.stepLimit limit last.growth.openCount k)) last ∧
            last.growth.steps = k)) ∧
    ∃ fuel, k < fuel ∧
      run g (s.limited limit) source = runFor fuel g (s.limited limit) source := by
  obtain ⟨built, rfl, rfl⟩ := Grammar.built_of_build? mapping success
  constructor
  · intro fuel enough
    refine ⟨?_, ?_, ?_⟩
    · intro n last closed few
      exact limited_of_closed built unlimited whole enough closed few
    · intro n fault last stopped few
      exact limited_of_stopped built unlimited whole enough stopped few
    · intro open_ sound
      exact limited_of_longer built unlimited whole enough open_ sound
  · exact ⟨_, lt_stepBound_limited whole, rfl⟩

/-- A tree that the last step within the limit completes is not cut. -/
theorem Generation.limit_observes_list : listRules.Distinct ∧ closingSettings.maxSteps = none ∧
    (Number.int 2).split = .inl ((2 : Nat) : Int) ∧ ∃ last,
      runFor 3 ⟨listRules, "list", (Cost.estimate listRules).table⟩ closingSettings
        (Source.replaying #[0.5]) = .closed last ∧ last.growth.steps = 2 ∧
      ∀ fuel, 2 < fuel → runFor fuel ⟨listRules, "list", (Cost.estimate listRules).table⟩
        (closingSettings.limited (.int 2)) (Source.replaying #[0.5]) = .closed last := by
  have mapping : listRules.Distinct := by decide
  have observed := (@Generation.limit_observes _ _ _ _ _ closingSettings (.int 2) 2 _ _ mapping
    listRules_build rfl rfl (Source.replaying #[0.5])).1
  obtain ⟨last, closed, steps⟩ : ∃ last,
      runFor 3 ⟨listRules, "list", (Cost.estimate listRules).table⟩ closingSettings
        (Source.replaying #[0.5]) = .closed last ∧ last.growth.steps = 2 := ⟨_, rfl, rfl⟩
  refine ⟨mapping, rfl, rfl, last, closed, steps, fun fuel enough => ?_⟩
  exact (observed fuel enough).1 3 last closed steps.le

end GrammarSampler
