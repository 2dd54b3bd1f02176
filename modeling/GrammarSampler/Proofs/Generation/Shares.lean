import GrammarSampler.Proofs.Generation.Exact
import Mathlib.Order.Interval.Set.Basic

/-!
Draws from zero to below one, shared out among candidates by their weights. The shares are intervals
that lie one behind the other and leave nothing over.
-/
namespace GrammarSampler.Choice

/-- The part of the whole that lies before the candidate at the position. -/
def border (weights : List ℚ) (i : Nat) : ℚ := (weights.take i).sum / weights.sum

/-- The draws of the candidate at the position. -/
def share (weights : List ℚ) (i : Nat) : Set ℚ := Set.Ico (border weights i) (border weights (i + 1))

section Borders
variable {weights : List ℚ} {i j : Nat}

theorem sum_take_le (positive : ∀ w ∈ weights, 0 < w) (before : i ≤ j) :
    (weights.take i).sum ≤ (weights.take j).sum :=
  (List.take_sublist_take_left before).sum_le_sum fun w inside =>
    (positive w (List.mem_of_mem_take inside)).le

theorem border_zero (weights : List ℚ) : border weights 0 = 0 := by
  rw [border, List.take_zero, List.sum_nil, zero_div]

theorem border_length (whole : 0 < weights.sum) : border weights weights.length = 1 := by
  rw [border, List.take_length, div_self whole.ne']

theorem border_mono (whole : 0 < weights.sum) (positive : ∀ w ∈ weights, 0 < w) (before : i ≤ j) :
    border weights i ≤ border weights j :=
  div_le_div_of_nonneg_right (sum_take_le positive before) whole.le

theorem border_succ (inside : i < weights.length) :
    border weights (i + 1) - border weights i = weights[i] / weights.sum := by
  rw [border, border, List.sum_take_succ weights i inside, add_div, add_sub_cancel_left]

theorem share_subset (positive : ∀ w ∈ weights, 0 < w) (inside : i < weights.length) :
    share weights i ⊆ Set.Ico 0 1 := by
  have whole : 0 < weights.sum :=
    List.sum_pos weights positive (List.ne_nil_of_length_pos (Nat.zero_lt_of_lt inside))
  refine Set.Ico_subset_Ico ?_ ?_
  · rw [← border_zero weights]
    exact border_mono whole positive (Nat.zero_le i)
  · rw [← border_length whole]
    exact border_mono whole positive inside

theorem fallsOn_iff_mem_share {draw : ℚ} (whole : 0 < weights.sum) (inside : i < weights.length) :
    FallsOn weights (draw * weights.sum) i ↔ draw ∈ share weights i := by
  rw [share, Set.mem_Ico, border, border, div_le_iff₀ whole, lt_div_iff₀ whole]
  exact ⟨fun falls => ⟨falls.lower, falls.upper⟩, fun bounds => ⟨inside, bounds.1, bounds.2⟩⟩

end Borders

section Points
variable {weights : List ℚ} {point : ℚ} {i j : Nat}

/-- A point falls on one weight only, as the one before would end ahead of it. -/
theorem FallsOn.unique (positive : ∀ w ∈ weights, 0 < w) (here : FallsOn weights point i)
    (there : FallsOn weights point j) : i = j := by
  have not_before {i j : Nat} (here : FallsOn weights point i) (there : FallsOn weights point j) :
      ¬ i < j := by
    intro before
    have ended : (weights.take (i + 1)).sum ≤ (weights.take j).sum := sum_take_le positive before
    linarith [here.upper, there.lower]
  exact Nat.le_antisymm (not_lt.mp (not_before there here)) (not_lt.mp (not_before here there))

/-- A point from zero to below the whole falls on a weight. -/
theorem exists_fallsOn (lower : 0 ≤ point) (upper : point < weights.sum) :
    ∃ i, FallsOn weights point i := by
  induction weights generalizing point with
  | nil =>
    rw [List.sum_nil] at upper
    exact absurd upper lower.not_gt
  | cons w later ih =>
    rw [List.sum_cons] at upper
    rcases lt_or_ge point w with within | beyond
    · exact ⟨0, Nat.zero_lt_succ _, by simpa using lower, by simpa using within⟩
    · obtain ⟨i, falls⟩ := @ih (point - w) (by linarith) (by linarith)
      refine ⟨i + 1, Nat.succ_lt_succ falls.inside, ?_, ?_⟩
      · rw [List.take_succ_cons, List.sum_cons]
        linarith [falls.lower]
      · rw [List.take_succ_cons, List.sum_cons]
        linarith [falls.upper]

end Points

section Shares
variable {α : Type} {candidates : List α} {weights : List ℚ}

theorem exists_share {draw : ℚ} (given : weights ≠ []) (positive : ∀ w ∈ weights, 0 < w)
    (unit : draw ∈ Set.Ico 0 1) :
    ∃ i < weights.length, ∀ j, FallsOn weights (draw * weights.sum) j ↔ j = i := by
  have whole : 0 < weights.sum := List.sum_pos weights positive given
  have lower : 0 ≤ draw * weights.sum := mul_nonneg unit.1 whole.le
  have upper : draw * weights.sum < weights.sum := mul_lt_of_lt_one_left whole unit.2
  obtain ⟨i, falls⟩ := exists_fallsOn lower upper
  refine ⟨i, falls.inside, fun j => ⟨fun other => other.unique positive falls, ?_⟩⟩
  rintro rfl
  exact falls

/-- One draw picks the candidate on whose weight its part of the whole falls, without the last
resort. The candidate at a position has a share of the draws, an interval as long as the part of its
weight in the whole. -/
theorem drawn_by_shares (given : candidates ≠ []) (length : candidates.length = weights.length)
    (positive : ∀ w ∈ weights, 0 < w) :
    (∀ {σ : Type} [Draws σ ℚ] (source : σ), (Draws.draw source).1 ∈ Set.Ico (0 : ℚ) 1 →
      ∃ i a, candidates[i]? = some a ∧
        (∀ j, FallsOn weights ((Draws.draw source).1 * weights.sum) j ↔ j = i) ∧
        cumulative (Arithmetic.mul (Draws.draw source).1 (total weights)) Arithmetic.zero
          (candidates.zip weights) = some a ∧
        drawn candidates weights source = (some a, (Draws.draw source).2)) ∧
      (∀ i (inside : i < weights.length), share weights i ⊆ Set.Ico 0 1 ∧
        0 < weights[i] / weights.sum ∧
        border weights (i + 1) - border weights i = weights[i] / weights.sum) ∧
      ∀ draw ∈ Set.Ico (0 : ℚ) 1, ∀ a, weighted candidates weights draw = some a ↔
        ∃ i, candidates[i]? = some a ∧ draw ∈ share weights i := by
  have given' : weights ≠ [] := by
    rintro rfl
    exact given (List.eq_nil_of_length_eq_zero length)
  have whole : 0 < weights.sum := List.sum_pos weights positive given'
  have picked {draw : ℚ} {i : Nat} (falls : FallsOn weights (draw * weights.sum) i) :
      weighted candidates weights draw = candidates[i]? := by
    have inside : i < candidates.length := length ▸ falls.inside
    rw [weighted, weighted_eq falls positive length, List.getElem?_eq_getElem inside, Option.some_or]
  refine ⟨fun source unit => ?_, fun i inside => ⟨share_subset positive inside, ?_, border_succ inside⟩,
    fun draw unit a => ?_⟩
  · obtain ⟨i, inside, only⟩ := exists_share given' positive unit
    have falls := (only i).mpr rfl
    rw [← length] at inside
    have here : candidates[i]? = some candidates[i] := List.getElem?_eq_getElem inside
    refine ⟨i, candidates[i], here, only, (weighted_eq falls positive length).trans here, ?_⟩
    rw [drawn]
    dsimp only
    rw [picked falls, here]
  · exact div_pos (positive weights[i] (List.getElem_mem inside)) whole
  · obtain ⟨i, inside, only⟩ := exists_share given' positive unit
    have falls := (only i).mpr rfl
    rw [picked falls]
    constructor
    · intro here
      exact ⟨i, here, (fallsOn_iff_mem_share whole inside).mp falls⟩
    · rintro ⟨j, here, mem⟩
      have within : j < weights.length := length ▸ (List.getElem?_eq_some_iff.mp here).1
      obtain rfl := (only j).mp ((fallsOn_iff_mem_share whole within).mpr mem)
      exact here

/-- A draw on the border is the next candidate's. -/
theorem drawn_on_border : border [1, 3] 1 = 1 / 4 ∧ weighted [4, 7] [1, 3] (1 / 4 : ℚ) = some 7 := by
  have first : border [1, 3] 1 = 1 / 4 := by norm_num [border]
  have last : border [1, 3] 2 = 1 := by norm_num [border]
  have shares := (@drawn_by_shares Nat [4, 7] [1, 3] (by simp) rfl (by simp)).2.2
  refine ⟨first, (shares (1 / 4) (by norm_num) 7).mpr ⟨1, rfl, ?_⟩⟩
  rw [share, first, last]
  norm_num

end Shares

end GrammarSampler.Choice
