import GrammarSampler.Proofs.Generation.Phases

/-!
Growth ends by itself. It is given up after as many steps without a new peak as there are rules, and
a peak at the minimum ends it at once. So each height below the minimum is worth as many steps as
there are rules, even without a budget.
-/
namespace GrammarSampler

namespace Phase

theorem stalled_lt_of_next {s : Settings} {phase : Phase} {rules openCount steps stalled : Nat}
    (grows : next s rules phase openCount steps stalled = .growth) : stalled < rules := by
  unfold next at grows
  split at grows
  · cases grows
  · split at grows
    · cases grows
    · split at grows
      · rename_i all
        exact all.2.2
      · split at grows <;> cases grows

end Phase

namespace Run

section Settling
variable {ρ σ : Type} [Arithmetic ρ] [Draws σ ρ] {g : Grammar} {s : Settings} {source : σ}
  {run next : Run σ} {decision : Decision} {decisions : List Decision}

/-- What a step does to the peak and to the steps counted since. -/
inductive Settles (run : Run σ) (decision : Decision) (next : Run σ) : Prop where
  | higher (grows : decision.phase = .growth) (above : run.peak < next.growth.openCount)
      (peak : next.peak = next.growth.openCount) (stalled : next.stalled = 0)
  | lower (grows : decision.phase = .growth) (within : next.growth.openCount ≤ run.peak)
      (peak : next.peak = run.peak) (stalled : next.stalled = run.stalled + 1)
  | other (phase : decision.phase ≠ .growth)

omit [Arithmetic ρ] [Draws σ ρ] in
theorem settles_settle {before : Run σ} (phase : before.phase = decision.phase)
    (peak : before.peak = run.peak) (stalled : before.stalled = run.stalled) :
    Settles run decision before.settle := by
  unfold settle
  split
  · rename_i grows
    split
    · rename_i above
      exact .higher (phase.symm.trans grows) (peak ▸ above) rfl rfl
    · rename_i within
      exact .lower (phase.symm.trans grows) (peak ▸ Nat.le_of_not_lt within) peak
        (congrArg (· + 1) stalled)
  · rename_i other
    exact .other fun grows => other (phase.trans grows)

omit [Arithmetic ρ] [Draws σ ρ] in
theorem enter_counts (run : Run σ) (phase : Phase) :
    (run.enter phase).peak = run.peak ∧ (run.enter phase).stalled = run.stalled := by
  unfold enter
  split <;> exact ⟨rfl, rfl⟩

theorem settles_of_moved (moved : run.step g s = .moved decision next) :
    Settles run decision next := by
  have advance := advance_of_moved moved
  rw [step_of_open advance.unfinished advance.below] at moved
  obtain ⟨peak, stalled⟩ := enter_counts run (run.nextPhase g s)
  unfold move at moved
  split at moved
  · cases moved
  · dsimp only at moved
    split at moved
    · cases moved
    · split at moved
      · cases moved
      · split at moved
        · cases moved
        · obtain ⟨rfl, rfl⟩ := Step.moved.inj moved
          exact settles_settle rfl peak stalled

/-- How many steps growth may still take: the rest until it stalls, and as many as there are rules for
each height that is left below the minimum. -/
def allowance (rules least : Nat) (run : Run σ) : Nat :=
  rules - run.stalled + rules * (least - 1 - run.peak)

/-- The growth steps of a run keep to the bound, and while it grows there is room for those allowed. -/
structure Bounded (rules least grown : Nat) (run : Run σ) : Prop where
  total : grown ≤ rules * (least - 1)
  room : run.phase = .growth → run.growth.openCount < least →
    grown + run.allowance rules least ≤ rules * (least - 1)

omit [Arithmetic ρ] [Draws σ ρ] in
theorem bounded_start (rules least : Nat) (name : String) :
    Bounded rules least 0 (start name source) := by
  refine ⟨Nat.zero_le _, ?_⟩
  intro _ below
  have one : (start name source).growth.openCount = 1 := rfl
  obtain ⟨more, rfl⟩ : ∃ more, least = more + 2 := ⟨least - 2, by omega⟩
  change 0 + (rules + rules * more) ≤ rules * (more + 1)
  rw [Nat.mul_succ]
  omega

def growthSteps (decisions : List Decision) : Nat :=
  decisions.countP fun decision => decision.phase = .growth

/-- A growth step takes one off the allowance, whether it reaches a new peak or not. -/
theorem Bounded.step {least : Nat} (enough : s.minimum.exceeds least = false)
    (bounded : Bounded g.rules.length least (growthSteps decisions) run)
    (moved : run.step g s = .moved decision next) :
    Bounded g.rules.length least (growthSteps (decisions ++ [decision])) next := by
  have advance := advance_of_moved moved
  have counted : growthSteps (decisions ++ [decision]) =
      growthSteps decisions + if decision.phase = .growth then 1 else 0 := by
    simp [growthSteps, List.countP_append, List.countP_singleton]
  by_cases grows : decision.phase = .growth
  · have phase : run.nextPhase g s = .growth := advance.phase.symm.trans grows
    obtain ⟨growing, short⟩ := Phase.of_next_growth phase
    have patient := Phase.stalled_lt_of_next phase
    have below : run.growth.openCount < least := Int.ofNat_lt.mp (Number.lt_of_exceeds short enough)
    have room := bounded.room growing below
    unfold allowance at room
    rw [counted, if_pos grows]
    cases settles_of_moved moved with
    | higher _ above peak stalled =>
      refine ⟨by omega, ?_⟩
      intro _ short
      rw [allowance, peak, stalled]
      -- The new peak lies below the minimum, so the old one left a whole height more.
      have heights : least - 1 - next.growth.openCount + 1 ≤ least - 1 - run.peak := by omega
      have worth := Nat.mul_le_mul_left g.rules.length heights
      rw [Nat.mul_succ] at worth
      omega
    | lower _ within peak stalled =>
      refine ⟨by omega, ?_⟩
      intro _ _
      rw [allowance, peak, stalled]
      omega
    | other apart => exact absurd grows apart
  · rw [counted, if_neg grows, Nat.add_zero]
    refine ⟨bounded.total, ?_⟩
    intro growing
    exact absurd (advance.kept.symm.trans growing) grows

theorem History.growthSteps_le {least : Nat} (enough : s.minimum.exceeds least = false)
    (history : History g s source decisions run) :
    growthSteps decisions ≤ g.rules.length * (least - 1) := by
  suffices bounded : Bounded g.rules.length least (growthSteps decisions) run from bounded.total
  induction history with
  | start => exact bounded_start _ _ _
  | step _ moved ih => exact ih.step enough moved

omit [Arithmetic ρ] [Draws σ ρ] in
theorem InOrder.split (order : InOrder decisions run) :
    ∃ grown later, decisions = grown ++ later ∧ (∀ decision ∈ grown, decision.phase = .growth) ∧
      (∀ decision ∈ later, decision.phase ≠ .growth) ∧ grown.length = growthSteps decisions := by
  obtain ⟨count, explored, closed, phases, -, -⟩ := order
  rw [List.append_assoc, List.map_eq_append_iff] at phases
  obtain ⟨grown, later, rfl, first, second⟩ := phases
  have growing : ∀ decision ∈ grown, decision.phase = .growth := by
    intro decision inside
    exact List.eq_of_mem_replicate (first ▸ List.mem_map_of_mem inside)
  have others : ∀ decision ∈ later, decision.phase ≠ .growth := by
    intro decision inside
    have phase := second ▸ List.mem_map_of_mem (f := Decision.phase) inside
    rcases List.mem_append.mp phase with explores | closes
    · rw [List.eq_of_mem_replicate explores]
      decide
    · rw [List.eq_of_mem_replicate closes]
      decide
  refine ⟨grown, later, rfl, growing, others, ?_⟩
  have all : growthSteps grown = grown.length := List.countP_eq_length.mpr (by simpa using growing)
  have none : growthSteps later = 0 := List.countP_eq_zero.mpr (by simpa using others)
  rw [growthSteps, List.countP_append]
  exact (all.symm.trans (Nat.add_zero _).symm).trans (congrArg _ none.symm)

end Settling
end Run

/-- Growth comes to an end without any budget, whatever the settings and the draws are. A run begins
with growth steps and never grows again after them, and with `L` rules and a least number `m` of leaves
they are no more than `L * max 0 (m - 1)`. A minimum that is no whole number counts as any whole number
that is not below it. -/
theorem Generation.growth_bounded {ρ σ : Type} [Arithmetic ρ] [Draws σ ρ] {s : Settings} {source : σ}
    {rules : Rules} {start : String} {g : Grammar} (success : Grammar.build? rules start = .ok g)
    {decisions : List Decision} {run : Run σ} (history : Run.History g s source decisions run) :
    ∃ grown later, decisions = grown ++ later ∧ (∀ decision ∈ grown, decision.phase = .growth) ∧
      (∀ decision ∈ later, decision.phase ≠ .growth) ∧
      (∀ least : Int, s.minimum.split = .inl least →
        (grown.length : Int) ≤ rules.length * max 0 (least - 1)) ∧
      ∀ least : Nat, s.minimum.exceeds least = false → grown.length ≤ rules.length * (least - 1) := by
  obtain ⟨-, rfl⟩ := Grammar.build?_eq_ok_iff.mp success
  obtain ⟨grown, later, parts, growing, others, count⟩ := history.inOrder.split
  refine ⟨grown, later, parts, growing, others, ?_, ?_⟩
  · intro least whole
    have enough : s.minimum.exceeds least.toNat = false := by
      rw [Number.exceeds_of_split whole, decide_eq_false_iff_not]
      omega
    have few : Run.growthSteps decisions ≤ rules.length * (least.toNat - 1) :=
      history.growthSteps_le enough
    have height : ((least.toNat - 1 : Nat) : Int) = max 0 (least - 1) := by omega
    rw [count, ← height, ← Int.natCast_mul]
    exact Int.ofNat_le.mpr few
  · intro least enough
    rw [count]
    exact history.growthSteps_le enough

/-- Every second step stalls, the others reach a new peak. -/
def doublingRules : Rules :=
  [("pair", [.unweighted [.nonterminal "half"]]),
    ("half", [.unweighted [.nonterminal "pair", .nonterminal "pair"], .unweighted [.terminal "x"]])]

def doublingGrammar : Grammar := ⟨doublingRules, "pair", [("pair", .finite 2), ("half", .finite 1)]⟩

def endlessSettings : Settings := ⟨.int 2, .int 3, .leftmost, none, none⟩

/-- The bound is reached: with two rules and a minimum of two, both steps still grow. -/
theorem Generation.growth_bounded_pairs :
    Grammar.build? doublingRules "pair" = .ok doublingGrammar ∧ ∃ first second run,
      Run.History doublingGrammar endlessSettings (Source.replaying #[0.5]) [first, second] run ∧
      first.phase = .growth ∧ second.phase = .growth ∧ run.growth.openCount = 2 ∧
      ∃ grown later, [first, second] = grown ++ later ∧ (grown.length : Int) ≤ 2 * max 0 (2 - 1) := by
  have table : (Cost.estimate doublingRules).table = [("pair", .finite 2), ("half", .finite 1)] := by
    decide
  have built : Grammar.build? doublingRules "pair" = .ok doublingGrammar := by
    refine Grammar.build?_eq_ok_iff.mpr ⟨⟨by decide, by decide, by decide⟩, ?_⟩
    rw [table]
    rfl
  obtain ⟨first, middle, second, run, moved, moved', grows, grows', wide⟩ :
      ∃ first middle second run, (Run.start "pair" (Source.replaying #[0.5])).step doublingGrammar
        endlessSettings = .moved first middle ∧
      middle.step doublingGrammar endlessSettings = .moved second run ∧
      first.phase = .growth ∧ second.phase = .growth ∧ run.growth.openCount = 2 :=
    ⟨_, _, _, _, rfl, rfl, rfl, rfl, rfl⟩
  have history : Run.History _ _ _ [first, second] run := .step (.step .start moved) moved'
  obtain ⟨grown, later, parts, -, -, few, -⟩ := Generation.growth_bounded built history
  exact ⟨built, first, second, run, history, grows, grows', wide, grown, later, parts, few 2 rfl⟩

end GrammarSampler
