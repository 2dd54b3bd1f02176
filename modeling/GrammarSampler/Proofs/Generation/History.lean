import GrammarSampler.Proofs.Generation.Reachable

/-!
The decisions of a run in the order in which they were made. What a run does later follows from
what each of its steps does, so that statements about whole runs are proved along their history.
-/
namespace GrammarSampler.Run

section Any
variable {ρ σ : Type} [Arithmetic ρ] [Draws σ ρ] {g : Grammar} {s : Settings} {source : σ}

/-- The decisions that have led to a run, first one first. -/
inductive History (g : Grammar) (s : Settings) (source : σ) : List Decision → Run σ → Prop where
  | start : History g s source [] (.start g.start source)
  | step {decisions : List Decision} {run next : Run σ} {decision : Decision}
      (before : History g s source decisions run) (moved : run.step g s = .moved decision next) :
      History g s source (decisions ++ [decision]) next

theorem History.length_eq {decisions : List Decision} {run : Run σ}
    (history : History g s source decisions run) : decisions.length = run.growth.steps := by
  induction history with
  | start => rfl
  | step _ moved ih =>
    rw [List.length_append, List.length_singleton, ih, (advance_of_moved moved).steps]

end Any

section Reached
variable {σ : Type} [Draws σ Float] {g : Grammar} {s : Settings} {source : σ} {run : Run σ}

theorem History.reachable {decisions : List Decision} (history : History g s source decisions run) :
    Reachable g s source run := by
  induction history with
  | start => exact .start
  | step _ moved ih => exact .step ih moved

theorem Reachable.exists_history (reachable : Reachable g s source run) :
    ∃ decisions, History g s source decisions run := by
  induction reachable with
  | start => exact ⟨[], .start⟩
  | step _ moved ih =>
    obtain ⟨decisions, history⟩ := ih
    exact ⟨_, .step history moved⟩

end Reached

end GrammarSampler.Run
