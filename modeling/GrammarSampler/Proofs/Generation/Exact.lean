import GrammarSampler.Proofs.Generation.Choice
import Mathlib.Algebra.Order.BigOperators.Group.List
import Mathlib.Algebra.Order.Field.Rat
import Mathlib.Tactic.Linarith

/-!
Choices in exact arithmetic, with fractions for draws and weights. Some draws lead to the leaf that
a policy asks for, and among positive weights every alternative has draws that choose it.
-/
namespace GrammarSampler

def ExactValue.toRat? : ExactValue → Option ℚ
  | .finite negative significand exponent =>
    let signed : Int := if negative then -significand else significand
    some (signed * 2 ^ exponent.toNat / 2 ^ (-exponent).toNat)
  | _ => none

def Number.toRat (a : Number) : Except NumberFault ℚ :=
  match a.split with
  | .inl n => .ok n
  | .inr x =>
    match (ExactValue.ofFloat x).toRat? with
    | some q => .ok q
    | none => .error .notANumberToInteger

instance : Arithmetic ℚ where
  zero := 0
  add a b := a + b
  mul a b := a * b
  isBelow a b := decide (a < b)
  ofCount count := .ok count
  ofExpansion e :=
    match e.weight with
    | none => .ok 1
    | some w => w.toRat
  truncate q := .ok (q.num.tdiv q.den)

/-- The source yields these draws first. -/
def Draws.Yields {σ ρ : Type} [Draws σ ρ] : σ → List ρ → Prop
  | _, [] => True
  | source, x :: rest => (draw source).1 = x ∧ Yields (draw source).2 rest

/-- Fractions that are played once, with zeros behind them. -/
instance : Draws (List ℚ) ℚ where
  draw
    | [] => (0, [])
    | x :: rest => (x, rest)

theorem Draws.yields_self (draws : List ℚ) : Yields draws draws := by
  induction draws with
  | nil => exact trivial
  | cons x rest ih => exact ⟨rfl, ih⟩

namespace Choice

/-- Draws from zero to below one that settle a choice: it comes out as `a` from every source that
yields them first, and what the source yields behind them is left. -/
def Forces {α : Type} (draws : List ℚ)
    (choose : {σ : Type} → [Draws σ ℚ] → σ → Except Fault α × σ) (a : α) : Prop :=
  (∀ x ∈ draws, 0 ≤ x ∧ x < 1) ∧
    ∀ {σ : Type} [Draws σ ℚ] (source : σ) (more : List ℚ), Draws.Yields source (draws ++ more) →
      (choose source).1 = .ok a ∧ Draws.Yields (choose source).2 more

theorem spread_zero {count : Nat} (some : 0 < count) : spread (0 : ℚ) count = .ok 0 := by
  have value : spread (0 : ℚ) count =
    .ok (min ((0 * (count : ℚ)).num.tdiv (0 * (count : ℚ)).den) (count - 1 : Int)) := rfl
  rw [value, zero_mul]
  congr 1
  have low : (0 : Int) ≤ count - 1 := by omega
  exact Int.min_eq_left low

theorem exists_leaf (policy : LeafPolicy) {g : Growth} (some : 0 < g.openCount) :
    ∃ p < g.openCount, ∃ draws, Forces draws (fun source => leaf policy g source) (p : Int) := by
  by_cases single : g.openCount = 1
  · refine ⟨0, some, [], nofun, fun source more yields => ?_⟩
    unfold leaf
    dsimp only
    rw [if_pos single]
    exact ⟨rfl, yields⟩
  · cases policy with
    | leftmost =>
      refine ⟨0, some, [], nofun, fun source more yields => ?_⟩
      unfold leaf
      dsimp only
      rw [if_neg single]
      exact ⟨rfl, yields⟩
    | shallowest =>
      obtain ⟨i, inside, found⟩ := shallowest_lt some
      refine ⟨i, inside, [], nofun, fun source more yields => ?_⟩
      unfold leaf
      dsimp only
      rw [if_neg single, found]
      exact ⟨rfl, yields⟩
    | random =>
      refine ⟨0, some, [0], by simp, fun source more yields => ?_⟩
      obtain ⟨drawn, rest⟩ := yields
      unfold leaf
      dsimp only
      rw [if_neg single, drawn, spread_zero some]
      exact ⟨rfl, rest⟩

/-- The point lies on the weight at the position: not before the weights ahead of it, and before
its end. -/
structure FallsOn (weights : List ℚ) (point : ℚ) (i : Nat) : Prop where
  inside : i < weights.length
  lower : (weights.take i).sum ≤ point
  upper : point < (weights.take (i + 1)).sum

section Weights
variable {α : Type} {candidates : List α} {weights : List ℚ} {i : Nat} {a : α}

theorem cumulative_eq {point : ℚ} (falls : FallsOn weights point i)
    (positive : ∀ w ∈ weights, 0 < w) (length : candidates.length = weights.length) (sum : ℚ) :
    cumulative (sum + point) sum (candidates.zip weights) = candidates[i]? := by
  induction weights generalizing candidates point i sum with
  | nil => exact absurd falls.inside (Nat.not_lt_zero i)
  | cons w later ih =>
    obtain ⟨c, rest, rfl⟩ : ∃ c rest, candidates = c :: rest :=
      List.exists_cons_of_length_eq_add_one length
    have behind : ∀ v ∈ later, 0 < v := fun v inside => positive v (List.mem_cons_of_mem w inside)
    have upper := falls.upper
    rw [List.zip_cons_cons, cumulative]
    dsimp only [Arithmetic.add, Arithmetic.isBelow]
    rw [List.take_succ_cons, List.sum_cons] at upper
    cases i with
    | zero =>
      rw [List.take_zero, List.sum_nil, add_zero] at upper
      rw [if_pos (by simpa using upper), List.getElem?_cons_zero]
    | succ i =>
      have lower := falls.lower
      rw [List.take_succ_cons, List.sum_cons] at lower
      have least : 0 ≤ (later.take i).sum :=
        List.sum_nonneg fun v inside => (behind v (List.mem_of_mem_take inside)).le
      have passed : ¬ sum + point < sum + w := by linarith
      have next : FallsOn later (point - w) i :=
        ⟨Nat.lt_of_succ_lt_succ falls.inside, by linarith, by linarith⟩
      rw [if_neg (by simpa using passed), List.getElem?_cons_succ,
        ← ih next behind (Nat.succ.inj length) (sum + w)]
      congr 1
      ring

theorem weighted_eq {draw : ℚ} (falls : FallsOn weights (draw * weights.sum) i)
    (positive : ∀ w ∈ weights, 0 < w) (length : candidates.length = weights.length) :
    cumulative (Arithmetic.mul draw (total weights)) Arithmetic.zero (candidates.zip weights) =
      candidates[i]? := by
  have whole : total weights = weights.sum := List.sum_eq_foldl.symm
  have point : Arithmetic.mul draw (total weights) = 0 + draw * weights.sum := by
    rw [whole, zero_add]
    rfl
  rw [point]
  exact cumulative_eq falls positive length 0

theorem exists_draw (positive : ∀ w ∈ weights, 0 < w) (length : candidates.length = weights.length)
    (chosen : candidates[i]? = some a) :
    ∃ draw : ℚ, 0 ≤ draw ∧ draw < 1 ∧ weighted candidates weights draw = some a := by
  have inside : i < weights.length := length ▸ (List.getElem?_eq_some_iff.mp chosen).1
  have own : 0 < weights[i] := positive weights[i] (List.getElem_mem inside)
  have before : 0 ≤ (weights.take i).sum :=
    List.sum_nonneg fun w mem => (positive w (List.mem_of_mem_take mem)).le
  have next : (weights.take (i + 1)).sum = (weights.take i).sum + weights[i] :=
    List.sum_take_succ weights i inside
  have all : (weights.take (i + 1)).sum ≤ weights.sum :=
    (List.take_sublist (i + 1) weights).sum_le_sum fun w mem => (positive w mem).le
  have whole : 0 < weights.sum := by linarith
  have falls : FallsOn weights ((weights.take i).sum / weights.sum * weights.sum) i := by
    rw [div_mul_cancel₀ _ whole.ne']
    exact ⟨inside, le_rfl, by linarith⟩
  refine ⟨(weights.take i).sum / weights.sum, div_nonneg before whole.le, ?_, ?_⟩
  · rw [div_lt_one whole]
    linarith
  · rw [weighted, weighted_eq falls positive length, chosen, Option.some_or]

end Weights

theorem exists_weights {alternatives : List Expansion} (positive : ∀ e ∈ alternatives, ∃ w : ℚ,
    Arithmetic.ofExpansion e = .ok w ∧ 0 < w) : ∃ weights : List ℚ,
      alternatives.mapM Arithmetic.ofExpansion = .ok weights ∧
        alternatives.length = weights.length ∧ ∀ w ∈ weights, 0 < w := by
  induction alternatives with
  | nil => exact ⟨[], rfl, rfl, nofun⟩
  | cons e rest ih =>
    obtain ⟨w, first, above⟩ := positive e List.mem_cons_self
    obtain ⟨weights, later, length, all⟩ := ih fun d inside => positive d (List.mem_cons_of_mem e inside)
    refine ⟨w :: weights, ?_, congrArg Nat.succ length, ?_⟩
    · rw [List.mapM_cons, first, later]
      rfl
    · intro v inside
      rcases List.mem_cons.mp inside with rfl | behind
      · exact above
      · exact all v behind

theorem filterMap_range {α : Type} (items : List α) :
    (List.range items.length).filterMap (fun i => items.toArray[i]?) = items := by
  simp only [List.getElem?_toArray]
  induction items with
  | nil => rfl
  | cons a rest ih =>
    have first : (fun i : Nat => (a :: rest)[i]?) 0 = some a := rfl
    rw [List.length_cons, List.range_succ_eq_map, List.filterMap_cons_some first, List.filterMap_map]
    exact congrArg (a :: ·) ih

theorem exists_alternative {g : Grammar} {name : String} {k index : Nat}
    (cost : g.costs.get? name = some (.finite k))
    (positive : ∀ e ∈ g.alternatives name, ∃ w : ℚ, Arithmetic.ofExpansion e = .ok w ∧ 0 < w)
    (inside : index < (g.alternatives name).length) : ∃ draws,
      Forces draws (fun source => alternative g name .exploration source) index := by
  by_cases single : (g.alternatives name).length = 1
  · have only : candidates g.costs .exploration (g.alternatives name) = [0] := by
      rw [candidates, single]
      rfl
    obtain rfl : index = 0 := by omega
    refine ⟨[], nofun, fun source more yields => ?_⟩
    dsimp only
    rw [alternative_of_cost cost isAimless_of_exploration, only]
    exact ⟨rfl, yields⟩
  · obtain ⟨weights, converted, length, above⟩ := exists_weights positive
    obtain ⟨draw, lower, upper, found⟩ := @exists_draw Nat (List.range (g.alternatives name).length)
      weights index index above (by rw [List.length_range, length]) (by simp [inside])
    refine ⟨[draw], by simpa using ⟨lower, upper⟩, fun source more yields => ?_⟩
    obtain ⟨first, rest⟩ := yields
    have all : candidates g.costs .exploration (g.alternatives name) =
      List.range (g.alternatives name).length := rfl
    dsimp only
    rw [alternative_of_cost cost isAimless_of_exploration, all]
    unfold pick
    split
    · rename_i only same
      have := congrArg List.length same
      rw [List.length_range] at this
      exact absurd this single
    · dsimp only
      rw [filterMap_range, converted]
      dsimp only [drawn]
      rw [first, found]
      exact ⟨rfl, rest⟩

end Choice
end GrammarSampler
