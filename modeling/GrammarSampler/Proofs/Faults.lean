import GrammarSampler.Fault
import GrammarSampler.Notice

/-!
How an outcome comes about: what a chain of steps ends with, and which faults it can end with.
-/
namespace GrammarSampler

section Outcomes
variable {ε δ α β : Type} {outcome : Except ε α} {next : α → Except ε β} {fault : ε} {b : β}

theorem bind_eq_ok_iff : (outcome >>= next) = .ok b ↔ ∃ a, outcome = .ok a ∧ next a = .ok b := by
  cases outcome with
  | error fault => simp [bind, Except.bind]
  | ok a => simp [bind, Except.bind]

theorem bind_eq_error_iff : (outcome >>= next) = .error fault ↔
    outcome = .error fault ∨ ∃ a, outcome = .ok a ∧ next a = .error fault := by
  cases outcome with
  | error fault => simp [bind, Except.bind]
  | ok a => simp [bind, Except.bind]

theorem map_eq_ok_iff {f : α → β} : outcome.map f = .ok b ↔ ∃ a, outcome = .ok a ∧ f a = b := by
  cases outcome with
  | error fault => simp [Except.map]
  | ok a => simp [Except.map]

theorem map_eq_error_iff {f : α → β} : outcome.map f = .error fault ↔ outcome = .error fault := by
  cases outcome with
  | error cause => simp [Except.map]
  | ok a => simp [Except.map]

theorem mapError_eq_ok_iff {f : ε → δ} {a : α} : outcome.mapError f = .ok a ↔ outcome = .ok a := by
  cases outcome with
  | error fault =>
    constructor
    · intro same
      cases same
    · intro same
      cases same
  | ok a =>
    constructor
    · intro same
      cases same
      rfl
    · intro same
      cases same
      rfl

theorem mapError_eq_error_iff {f : ε → δ} {fault : δ} : outcome.mapError f = .error fault ↔
    ∃ cause, outcome = .error cause ∧ f cause = fault := by
  cases outcome with
  | error cause =>
    constructor
    · intro same
      cases same
      exact ⟨cause, rfl, rfl⟩
    · rintro ⟨other, same, rfl⟩
      cases same
      rfl
  | ok a =>
    constructor
    · intro same
      cases same
    · rintro ⟨cause, same, -⟩
      cases same

theorem Report.outcome_seq (r : Report ε α) (next : α → Report ε β) :
    (r >>= next).outcome = r.outcome >>= fun a => (next a).outcome := by
  obtain ⟨notices, outcome⟩ := r
  cases outcome <;> rfl

theorem Report.bind_eq_ok_iff {r : Report ε α} {next : α → Report ε β} :
    (r >>= next).outcome = .ok b ↔ ∃ a, r.outcome = .ok a ∧ (next a).outcome = .ok b := by
  rw [outcome_seq]
  exact GrammarSampler.bind_eq_ok_iff

end Outcomes

def FaultsIn {α : Type} (allowed : Fault → Prop) (outcome : Except Fault α) : Prop :=
  ∀ fault, outcome = .error fault → allowed fault

namespace FaultsIn
variable {α β : Type} {allowed more : Fault → Prop} {outcome : Except Fault α} {fault : Fault}

theorem of_ok (a : α) : FaultsIn allowed (.ok a) := nofun

theorem of_error (own : allowed fault) : FaultsIn allowed (.error fault : Except Fault α) := by
  rintro other same
  cases same
  exact own

theorem mono (faults : FaultsIn allowed outcome) (weaker : ∀ fault, allowed fault → more fault) :
    FaultsIn more outcome := fun fault same => weaker fault (faults fault same)

theorem bind {next : α → Except Fault β} (first : FaultsIn allowed outcome)
    (later : ∀ a, outcome = .ok a → FaultsIn allowed (next a)) :
    FaultsIn allowed (outcome >>= next) := by
  cases outcome with
  | error fault => exact of_error (first fault rfl)
  | ok a => exact later a rfl

end FaultsIn

end GrammarSampler
