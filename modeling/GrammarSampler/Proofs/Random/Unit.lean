import GrammarSampler.Random.Source

/-!
Sources whose draws all lie from zero to below one.
-/
namespace GrammarSampler.Draws
variable {σ : Type} [Draws σ Float]

def after : Nat → σ → σ
  | 0, source => source
  | n + 1, source => after n (draw source).2

/-- Every draw, now or later, is at least zero and below one. -/
def InUnit (source : σ) : Prop :=
  ∀ n, 0.0 ≤ (draw (after n source)).1 ∧ (draw (after n source)).1 < 1.0

theorem InUnit.head {source : σ} (unit : InUnit source) :
    0.0 ≤ (draw source).1 ∧ (draw source).1 < 1.0 := unit 0

theorem InUnit.tail {source : σ} (unit : InUnit source) : InUnit (draw source).2 :=
  fun n => unit (n + 1)

end GrammarSampler.Draws

namespace GrammarSampler.Source

theorem after_replay (values : Array Float) (position drawn n : Nat) :
    Draws.after n (⟨.replay values position, drawn⟩ : Source) =
      ⟨.replay values (position + n), drawn + n⟩ := by
  induction n generalizing position drawn with
  | zero => rfl
  | succ n ih =>
    have next : Draws.after (n + 1) (⟨.replay values position, drawn⟩ : Source) =
        Draws.after n (⟨.replay values (position + 1), drawn + 1⟩ : Source) := rfl
    rw [next, ih, Nat.add_right_comm position, Nat.add_right_comm drawn]
    rfl

theorem replaying_inUnit {values : Array Float} (unit : ∀ x ∈ values, 0.0 ≤ x ∧ x < 1.0) :
    Draws.InUnit (replaying values) := by
  intro n
  rw [replaying, after_replay]
  have drawn : (Draws.draw (⟨.replay values (0 + n), 0 + n⟩ : Source)).1 =
      values.getD ((0 + n) % values.size) 0.0 := rfl
  rw [drawn, Array.getD_eq_getD_getElem?]
  cases found : values[(0 + n) % values.size]? with
  | none => exact ⟨by decide, by decide⟩
  | some x => exact unit x (Array.mem_of_getElem? found)

end GrammarSampler.Source
