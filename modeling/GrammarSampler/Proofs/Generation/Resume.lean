import GrammarSampler.Proofs.Generation.History

/-!
How far a run is followed. Following it further keeps what has ended, and goes on where the run was
left; so two runs that agree for some steps are told apart by what they do from there on.
-/
namespace GrammarSampler

/-- Goes on with a run that was left unfinished; a run that has ended stays as it is. -/
def Outcome.andThen {σ : Type} (outcome : Outcome σ) (more : Run σ → Outcome σ) : Outcome σ :=
  match outcome with
  | .unfinished run => more run
  | ended => ended

def Outcome.Ended {σ : Type} (outcome : Outcome σ) : Prop := ∀ run, outcome ≠ .unfinished run

theorem Outcome.ended_closed {σ : Type} (run : Run σ) : (Outcome.closed run).Ended := by
  intro mid same
  cases same

theorem Outcome.ended_stopped {σ : Type} (fault : Fault) (run : Run σ) :
    (Outcome.stopped fault run).Ended := by
  intro mid same
  cases same

/-- An end lies from `first` to before `beyond` steps; a run that was left has done all of them. -/
def Outcome.Between {σ : Type} (first beyond : Nat) : Outcome σ → Prop
  | .closed run => first ≤ run.growth.steps ∧ run.growth.steps < beyond
  | .stopped _ run => first ≤ run.growth.steps ∧ run.growth.steps < beyond
  | .unfinished run => run.growth.steps = beyond

theorem Outcome.Between.mono {σ : Type} {outcome : Outcome σ} {first later beyond : Nat}
    (between : outcome.Between later beyond) (le : first ≤ later) : outcome.Between first beyond := by
  cases outcome with
  | closed run => exact ⟨Nat.le_trans le between.1, between.2⟩
  | stopped fault run => exact ⟨Nat.le_trans le between.1, between.2⟩
  | unfinished run => exact between

namespace Run
variable {ρ σ : Type} [Arithmetic ρ] [Draws σ ρ] {g : Grammar} {s : Settings} {source : σ}
  {run last next : Run σ} {decision : Decision} {fault : Fault} {fuel : Nat}

theorem resume_of_closed (closed : run.step g s = .closed last) :
    resume g s (fuel + 1) run = .closed last := by
  rw [resume, closed]

theorem resume_of_stopped (stopped : run.step g s = .stopped fault last) :
    resume g s (fuel + 1) run = .stopped fault last := by
  rw [resume, stopped]

theorem resume_of_moved (moved : run.step g s = .moved decision next) :
    resume g s (fuel + 1) run = resume g s fuel next := by
  rw [resume, moved]

theorem resume_add (fuel more : Nat) (run : Run σ) :
    resume g s (fuel + more) run = (resume g s fuel run).andThen (resume g s more) := by
  induction fuel generalizing run with
  | zero =>
    rw [Nat.zero_add]
    rfl
  | succ fuel ih =>
    rw [Nat.add_right_comm]
    cases moved : run.step g s with
    | closed last =>
      rw [resume_of_closed moved, resume_of_closed moved]
      rfl
    | stopped fault last =>
      rw [resume_of_stopped moved, resume_of_stopped moved]
      rfl
    | moved decision next =>
      rw [resume_of_moved moved, resume_of_moved moved]
      exact ih next

/-- Where each step is the same in two runs, so is all that follows. What makes the steps the same
may depend on how far the runs are still followed. -/
theorem resume_of_same_steps {t : Settings} (alike : Nat → Run σ → Prop)
    (same : ∀ fuel run, alike (fuel + 1) run → run.step g s = run.step g t)
    (kept : ∀ fuel run decision next, alike (fuel + 1) run →
      run.step g t = .moved decision next → alike fuel next)
    (first : alike fuel run) : resume g s fuel run = resume g t fuel run := by
  induction fuel generalizing run with
  | zero => rfl
  | succ fuel ih =>
    have one := same fuel run first
    cases moved : run.step g t with
    | closed last => rw [resume_of_closed (one.trans moved), resume_of_closed moved]
    | stopped fault last => rw [resume_of_stopped (one.trans moved), resume_of_stopped moved]
    | moved decision next =>
      rw [resume_of_moved (one.trans moved), resume_of_moved moved]
      exact ih (kept fuel run decision next first moved)

theorem between_resume (fuel : Nat) (run : Run σ) :
    (resume g s fuel run).Between run.growth.steps (run.growth.steps + fuel) := by
  induction fuel generalizing run with
  | zero => rfl
  | succ fuel ih =>
    cases moved : run.step g s with
    | closed last =>
      rw [resume_of_closed moved, (complete_of_closed moved).1]
      exact ⟨Nat.le_refl _, by omega⟩
    | stopped fault last =>
      have kept := (fails_of_stopped moved).2
      rw [resume_of_stopped moved]
      exact ⟨by rw [kept], by rw [kept]; omega⟩
    | moved decision next =>
      have steps := (advance_of_moved moved).steps
      have later := ih next
      rw [steps, Nat.add_right_comm] at later
      rw [resume_of_moved moved]
      exact later.mono (Nat.le_succ _)

theorem between_start (fuel : Nat) :
    (resume g s fuel (Run.start g.start source)).Between 0 fuel := by
  have between := between_resume (g := g) (s := s) fuel (Run.start g.start source)
  rwa [show (Run.start g.start source).growth.steps = 0 from rfl, Nat.zero_add] at between

/-- A run that ends has ended after `k` steps, or goes on from where it is left then. -/
theorem ended_or_left {outcome : Outcome σ} (ended : outcome.Ended) {all : Nat}
    (found : resume g s all (Run.start g.start source) = outcome) (k : Nat) :
    resume g s k (Run.start g.start source) = outcome ∨
      ∃ mid rest, resume g s k (Run.start g.start source) = .unfinished mid ∧
        mid.growth.steps = k ∧ resume g s rest mid = outcome := by
  rcases Nat.le_total all k with late | early
  · obtain ⟨more, rfl⟩ := Nat.exists_eq_add_of_le late
    rw [resume_add, found]
    cases outcome with
    | closed last => exact .inl rfl
    | stopped fault last => exact .inl rfl
    | unfinished mid => exact absurd rfl (ended mid)
  · obtain ⟨rest, rfl⟩ := Nat.exists_eq_add_of_le early
    have between := @between_start _ _ _ _ g s source k
    rw [resume_add] at found
    cases now : resume g s k (Run.start g.start source) with
    | closed last =>
      rw [now] at found
      exact .inl found
    | stopped fault last =>
      rw [now] at found
      exact .inl found
    | unfinished mid =>
      rw [now] at found between
      exact .inr ⟨mid, rest, rfl, between, found⟩

theorem complete_of_resume_closed (closed : resume g s fuel run = .closed last)
    (still : last.growth.steps ≤ run.growth.steps) : last = run ∧ run.growth.isComplete = true := by
  cases fuel with
  | zero => cases closed
  | succ fuel =>
    cases moved : run.step g s with
    | closed last' =>
      rw [resume_of_closed moved] at closed
      cases closed
      exact complete_of_closed moved
    | stopped fault last' =>
      rw [resume_of_stopped moved] at closed
      cases closed
    | moved decision next =>
      have later := between_resume (g := g) (s := s) fuel next
      rw [resume_of_moved moved] at closed
      rw [closed, (advance_of_moved moved).steps] at later
      have := later.1
      omega

theorem History.resume_start {decisions : List Decision}
    (history : History g s source decisions run) (more : Nat) :
    resume g s (decisions.length + more) (Run.start g.start source) = resume g s more run := by
  induction history generalizing more with
  | start =>
    rw [List.length_nil, Nat.zero_add]
  | step before moved ih =>
    rw [List.length_append, List.length_singleton, Nat.add_assoc, Nat.add_comm 1, ih (more + 1),
      resume_of_moved moved]

theorem History.of_same_steps {t : Settings} {k : Nat}
    (same : ∀ run : Run σ, run.growth.steps < k → run.step g s = run.step g t)
    {decisions : List Decision} (history : History g s source decisions run)
    (few : decisions.length ≤ k) : History g t source decisions run := by
  induction history with
  | start => exact .start
  | step before moved ih =>
    rw [List.length_append, List.length_singleton] at few
    refine .step (ih (Nat.le_of_succ_le few)) ?_
    rw [← same _ (by rw [← before.length_eq]; exact few), moved]

theorem exists_history_of_unfinished
    (left : resume g s fuel (Run.start g.start source) = .unfinished last) :
    ∃ decisions, History g s source decisions last ∧ decisions.length = fuel := by
  have further : ∀ (fuel : Nat) (run : Run σ) (decisions : List Decision),
      History g s source decisions run → resume g s fuel run = .unfinished last →
        ∃ later, History g s source later last ∧ later.length = decisions.length + fuel := by
    intro fuel
    induction fuel with
    | zero =>
      intro run decisions history left
      cases left
      exact ⟨decisions, history, rfl⟩
    | succ fuel ih =>
      intro run decisions history left
      cases moved : run.step g s with
      | closed last' =>
        rw [resume_of_closed moved] at left
        cases left
      | stopped fault last' =>
        rw [resume_of_stopped moved] at left
        cases left
      | moved decision next =>
        rw [resume_of_moved moved] at left
        obtain ⟨later, reached, count⟩ := ih next _ (.step history moved) left
        rw [List.length_append, List.length_singleton] at count
        exact ⟨later, reached, by omega⟩
  obtain ⟨decisions, history, count⟩ := further fuel _ [] .start left
  rw [List.length_nil, Nat.zero_add] at count
  exact ⟨decisions, history, count⟩

end Run
end GrammarSampler
