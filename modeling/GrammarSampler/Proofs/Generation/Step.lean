import GrammarSampler.Generation.Run
import GrammarSampler.Proofs.Generation.Choice

/-!
What a step of a run does: it enters the phase that is next, chooses a leaf and an alternative for
it, and expands the leaf. All that is proved about runs starts from here.
-/
namespace GrammarSampler.Run
variable {σ : Type}

section Parts
variable (run : Run σ) (phase : Phase)

@[simp] theorem growth_enter : (run.enter phase).growth = run.growth := by
  unfold enter
  split <;> rfl

@[simp] theorem source_enter : (run.enter phase).source = run.source := by
  unfold enter
  split <;> rfl

@[simp] theorem phase_enter : (run.enter phase).phase = phase := by
  unfold enter
  split
  · rename_i same
    exact same.symm
  · rfl

theorem settle_parts : run.settle.growth = run.growth ∧ run.settle.phase = run.phase ∧
    run.settle.source = run.source := by
  unfold settle
  split
  · split <;> exact ⟨rfl, rfl, rfl⟩
  · exact ⟨rfl, rfl, rfl⟩

theorem expandNumber_parts (number : Nat) (position alternative : Int) (e : Expansion) :
    (run.expandNumber number position alternative e).growth =
        run.growth.expandNumber number position alternative e ∧
      (run.expandNumber number position alternative e).phase = run.phase ∧
      (run.expandNumber number position alternative e).source = run.source :=
  settle_parts _

end Parts

variable {ρ : Type} [Arithmetic ρ] [Draws σ ρ] {g : Grammar} {s : Settings} {run next : Run σ}
  {decision : Decision}

def nextPhase (g : Grammar) (s : Settings) (run : Run σ) : Phase :=
  Phase.next s g.rules.length run.phase run.growth.openCount run.growth.steps run.stalled

def leafSource (s : Settings) (run : Run σ) : σ := (Choice.leaf s.policy run.growth run.source).2

structure Advance (g : Grammar) (s : Settings) (run : Run σ) (decision : Decision) (next : Run σ) :
    Prop where
  unfinished : run.growth.isComplete = false
  below : stepLimit? s run = none
  phase : decision.phase = run.nextPhase g s
  kept : next.phase = decision.phase
  leaf : (Choice.leaf s.policy run.growth run.source).1 = .ok decision.position
  chosen : (Choice.alternative g decision.name decision.phase (run.leafSource s)).1 =
    .ok decision.alternative
  rest : next.source = (Choice.alternative g decision.name decision.phase (run.leafSource s)).2
  grown : ∃ number e, run.growth.number? decision.position = .ok number ∧
    decision.name = (run.growth.bud number).name ∧
    (g.alternatives decision.name)[decision.alternative]? = some e ∧
    next.growth = run.growth.expandNumber number decision.position decision.alternative e

theorem step_of_complete (complete : run.growth.isComplete = true) :
    run.step g s = .closed run := by
  rw [step, if_pos complete]

theorem step_of_limit {fault : GenerationFault} (unfinished : run.growth.isComplete = false)
    (limit : stepLimit? s run = some fault) : run.step g s = .stopped (.generation fault) run := by
  rw [step, if_neg (by simp [unfinished]), limit]

theorem step_of_open (unfinished : run.growth.isComplete = false) (below : stepLimit? s run = none) :
    run.step g s = (run.enter (run.nextPhase g s)).move g s := by
  rw [step, if_neg (by simp [unfinished]), below]
  rfl

/-- Why a step stops a run: the limit is reached, no leaf is taken, none stands at the place that is
taken, no alternative is chosen for its name, or there is none of that number. -/
inductive Fails (g : Grammar) (s : Settings) (run : Run σ) : Fault → Prop where
  | limit {fault : GenerationFault} (unfinished : run.growth.isComplete = false)
      (reached : stepLimit? s run = some fault) : Fails g s run (.generation fault)
  | leaf {fault : Fault} (unfinished : run.growth.isComplete = false)
      (below : stepLimit? s run = none)
      (refused : (Choice.leaf s.policy run.growth run.source).1 = .error fault) : Fails g s run fault
  | place {position : Int} {fault : Fault} (unfinished : run.growth.isComplete = false)
      (below : stepLimit? s run = none)
      (leaf : (Choice.leaf s.policy run.growth run.source).1 = .ok position)
      (absent : run.growth.number? position = .error fault) : Fails g s run fault
  | alternative {position : Int} {number : Nat} {fault : Fault}
      (unfinished : run.growth.isComplete = false) (below : stepLimit? s run = none)
      (leaf : (Choice.leaf s.policy run.growth run.source).1 = .ok position)
      (place : run.growth.number? position = .ok number)
      (refused : (Choice.alternative g (run.growth.bud number).name (run.nextPhase g s)
        (run.leafSource s)).1 = .error fault) : Fails g s run fault
  | missing {position : Int} {number index : Nat} (unfinished : run.growth.isComplete = false)
      (below : stepLimit? s run = none)
      (leaf : (Choice.leaf s.policy run.growth run.source).1 = .ok position)
      (place : run.growth.number? position = .ok number)
      (chosen : (Choice.alternative g (run.growth.bud number).name (run.nextPhase g s)
        (run.leafSource s)).1 = .ok index)
      (missing : (g.alternatives (run.growth.bud number).name)[index]? = none) :
      Fails g s run .outOfRange

inductive Takes (g : Grammar) (s : Settings) (run : Run σ) : Step σ → Prop where
  | closed (complete : run.growth.isComplete = true) : Takes g s run (.closed run)
  | stopped {fault : Fault} {last : Run σ} (fails : Fails g s run fault)
      (kept : last.growth = run.growth) : Takes g s run (.stopped fault last)
  | moved {decision : Decision} {next : Run σ} (advance : Advance g s run decision next) :
      Takes g s run (.moved decision next)

theorem takes_step (g : Grammar) (s : Settings) (run : Run σ) : Takes g s run (run.step g s) := by
  cases unfinished : run.growth.isComplete with
  | true =>
    rw [step_of_complete unfinished]
    exact .closed unfinished
  | false =>
  cases limit : stepLimit? s run with
  | some fault =>
    rw [step_of_limit unfinished limit]
    exact .stopped (.limit unfinished limit) rfl
  | none =>
  rw [step_of_open unfinished limit]
  unfold move
  rw [growth_enter, source_enter]
  split
  · rename_i fault source refused
    exact .stopped (.leaf unfinished limit (congrArg Prod.fst refused)) rfl
  · rename_i position source taken
    have leaf : (Choice.leaf s.policy run.growth run.source).1 = .ok position :=
      congrArg Prod.fst taken
    have drawn : run.leafSource s = source := congrArg Prod.snd taken
    dsimp only
    rw [phase_enter, ← drawn]
    split
    · rename_i fault absent
      exact .stopped (.place unfinished limit leaf absent) rfl
    · rename_i number place
      split
      · rename_i fault source' refused
        exact .stopped (.alternative unfinished limit leaf place (congrArg Prod.fst refused)) rfl
      · rename_i index source' chosen
        split
        · rename_i missing
          exact .stopped
            (.missing unfinished limit leaf place (congrArg Prod.fst chosen) missing) rfl
        · rename_i e found
          obtain ⟨grown, kept, rest⟩ := expandNumber_parts
            (⟨run.growth, run.nextPhase g s, (run.enter (run.nextPhase g s)).peak,
              (run.enter (run.nextPhase g s)).stalled, source',
              (run.enter (run.nextPhase g s)).notices⟩ : Run σ) number position index e
          exact .moved ⟨unfinished, limit, rfl, kept, leaf, congrArg Prod.fst chosen,
            rest.trans (congrArg Prod.snd chosen).symm, number, e, place, rfl, found, grown⟩

theorem advance_of_moved (moved : run.step g s = .moved decision next) :
    Advance g s run decision next := by
  have takes := takes_step g s run
  rw [moved] at takes
  cases takes with
  | moved advance => exact advance

theorem complete_of_closed {last : Run σ} (closed : run.step g s = .closed last) :
    last = run ∧ run.growth.isComplete = true := by
  have takes := takes_step g s run
  rw [closed] at takes
  cases takes with
  | closed complete => exact ⟨rfl, complete⟩

theorem fails_of_stopped {fault : Fault} {last : Run σ}
    (stopped : run.step g s = .stopped fault last) :
    Fails g s run fault ∧ last.growth = run.growth := by
  have takes := takes_step g s run
  rw [stopped] at takes
  cases takes with
  | stopped fails kept => exact ⟨fails, kept⟩

theorem Advance.steps (advance : Advance g s run decision next) :
    next.growth.steps = run.growth.steps + 1 := by
  obtain ⟨number, e, -, -, -, grown⟩ := advance.grown
  rw [grown]
  rfl

theorem Fails.unfinished {fault : Fault} (fails : Fails g s run fault) :
    run.growth.isComplete = false := by
  cases fails <;> assumption

theorem moved_of_parts {position : Int} {number index : Nat} {e : Expansion}
    (unfinished : run.growth.isComplete = false) (below : stepLimit? s run = none)
    (leaf : (Choice.leaf s.policy run.growth run.source).1 = .ok position)
    (place : run.growth.number? position = .ok number)
    (chosen : (Choice.alternative g (run.growth.bud number).name (run.nextPhase g s)
      (run.leafSource s)).1 = .ok index)
    (found : (g.alternatives (run.growth.bud number).name)[index]? = some e) :
    ∃ next, run.step g s = .moved ⟨run.nextPhase g s, position, (run.growth.bud number).name, index⟩ next := by
  rw [step_of_open unfinished below, move, growth_enter, source_enter]
  unfold leafSource at chosen
  split
  · rename_i other source value
    rw [value] at leaf
    cases leaf
  · rename_i position' source value
    rw [value] at leaf chosen
    cases leaf
    dsimp only
    rw [place]
    dsimp only
    rw [phase_enter]
    split
    · rename_i other source' value'
      rw [value'] at chosen
      cases chosen
    · rename_i index' source' value'
      rw [value'] at chosen
      cases chosen
      rw [found]
      exact ⟨_, rfl⟩

theorem stopped_of_leaf {fault : Fault} (unfinished : run.growth.isComplete = false)
    (below : stepLimit? s run = none)
    (leaf : (Choice.leaf s.policy run.growth run.source).1 = .error fault) :
    ∃ last, run.step g s = .stopped fault last ∧ last.growth = run.growth := by
  rw [step_of_open unfinished below, move, growth_enter, source_enter]
  split
  · rename_i other source value
    rw [value] at leaf
    cases leaf
    exact ⟨_, rfl, rfl⟩
  · rename_i position source value
    rw [value] at leaf
    cases leaf

theorem stopped_of_alternative {position : Int} {number : Nat} {fault : Fault}
    (unfinished : run.growth.isComplete = false) (below : stepLimit? s run = none)
    (leaf : (Choice.leaf s.policy run.growth run.source).1 = .ok position)
    (place : run.growth.number? position = .ok number)
    (refused : (Choice.alternative g (run.growth.bud number).name (run.nextPhase g s)
      (run.leafSource s)).1 = .error fault) :
    ∃ last, run.step g s = .stopped fault last ∧ last.growth = run.growth := by
  rw [step_of_open unfinished below, move, growth_enter, source_enter]
  unfold leafSource at refused
  split
  · rename_i other source value
    rw [value] at leaf
    cases leaf
  · rename_i position' source value
    rw [value] at leaf refused
    cases leaf
    dsimp only
    rw [place]
    dsimp only
    rw [phase_enter]
    split
    · rename_i other source' value'
      rw [value'] at refused
      cases refused
      exact ⟨_, rfl, rfl⟩
    · rename_i index' source' value'
      rw [value'] at refused
      cases refused

end GrammarSampler.Run
