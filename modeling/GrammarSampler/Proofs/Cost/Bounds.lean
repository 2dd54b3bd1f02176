import GrammarSampler.Cost.Basic

/-!
Costs by their upper bounds. A cost is known by the numbers it is at most; an infinite one is at
most none. The operations on costs are told by the bounds of their arguments.
-/
namespace GrammarSampler.Cost

/-- The cost is at most `k` steps. -/
def AtMost (c : Cost) (k : Nat) : Prop :=
  match c with
  | finite n => n ≤ k
  | infinite => False

@[simp] theorem atMost_finite (n k : Nat) : (finite n).AtMost k ↔ n ≤ k := Iff.rfl

@[simp] theorem not_atMost_infinite (k : Nat) : ¬ infinite.AtMost k := id

theorem AtMost.mono {c : Cost} {j k : Nat} (h : c.AtMost j) (le : j ≤ k) : c.AtMost k := by
  cases c with
  | finite n => exact Nat.le_trans h le
  | infinite => exact h

theorem eq_of_atMost {a b : Cost} (same : ∀ k, a.AtMost k ↔ b.AtMost k) : a = b := by
  cases a with
  | finite m =>
    cases b with
    | finite n =>
      have le : n ≤ m := (same m).mp (Nat.le_refl m)
      have ge : m ≤ n := (same n).mpr (Nat.le_refl n)
      rw [Nat.le_antisymm ge le]
    | infinite => exact False.elim ((same m).mp (Nat.le_refl m))
  | infinite =>
    cases b with
    | finite n => exact False.elim ((same n).mpr (Nat.le_refl n))
    | infinite => rfl

theorem eq_finite_iff {c : Cost} {k : Nat} :
    c = finite k ↔ c.AtMost k ∧ ∀ j, c.AtMost j → k ≤ j := by
  constructor
  · rintro rfl
    exact ⟨Nat.le_refl k, fun j h => h⟩
  · rintro ⟨bound, least⟩
    apply eq_of_atMost
    intro j
    exact ⟨least j, bound.mono⟩

theorem eq_infinite_iff {c : Cost} : c = infinite ↔ ∀ k, ¬ c.AtMost k := by
  cases c with
  | finite n => simpa using ⟨n, Nat.le_refl n⟩
  | infinite => simp

theorem lt_iff {a b : Cost} : a.lt b = true ↔ ∃ k, a.AtMost k ∧ ¬ b.AtMost k := by
  cases a with
  | finite m =>
    cases b with
    | finite n =>
      simp only [lt, decide_eq_true_eq, atMost_finite, Nat.not_le]
      exact ⟨fun h => ⟨m, Nat.le_refl m, h⟩, fun ⟨k, left, right⟩ => Nat.lt_of_le_of_lt left right⟩
    | infinite => simpa [lt] using ⟨m, Nat.le_refl m⟩
  | infinite => simp [lt]

@[simp] theorem atMost_max {a b : Cost} {k : Nat} :
    (max a b).AtMost k ↔ a.AtMost k ∧ b.AtMost k := by
  cases a with
  | finite m =>
    cases b with
    | finite n => simp only [max, atMost_finite, Nat.max_def]; split <;> omega
    | infinite => simp [max]
  | infinite => simp [max]

@[simp] theorem atMost_min {a b : Cost} {k : Nat} :
    (min a b).AtMost k ↔ a.AtMost k ∨ b.AtMost k := by
  cases a with
  | finite m =>
    cases b with
    | finite n => simp only [min, atMost_finite, Nat.min_def]; split <;> omega
    | infinite => simp [min]
  | infinite => simp [min]

@[simp] theorem atMost_next_succ {c : Cost} {k : Nat} : c.next.AtMost (k + 1) ↔ c.AtMost k := by
  cases c <;> simp [next]

@[simp] theorem not_atMost_next_zero {c : Cost} : ¬ c.next.AtMost 0 := by
  cases c <;> simp [next]

@[simp] theorem atMost_worst {costs : List Cost} {k : Nat} :
    (worst costs).AtMost k ↔ ∀ c ∈ costs, c.AtMost k := by
  induction costs with
  | nil => simp [worst]
  | cons c rest ih =>
    have split : worst (c :: rest) = max c (worst rest) := rfl
    simp [split, ih]

@[simp] theorem atMost_best {costs : List Cost} {k : Nat} :
    (best costs).AtMost k ↔ ∃ c ∈ costs, c.AtMost k := by
  induction costs with
  | nil => simp [best]
  | cons c rest ih =>
    have split : best (c :: rest) = min c (best rest) := rfl
    simp [split, ih]

theorem max_eq (a b : Cost) : max a b = a ∨ max a b = b := by
  cases a with
  | finite m =>
    cases b with
    | finite n => simp only [max, finite.injEq, Nat.max_def]; split <;> simp
    | infinite => exact .inr rfl
  | infinite => exact .inl rfl

theorem min_eq (a b : Cost) : min a b = a ∨ min a b = b := by
  cases a with
  | finite m =>
    cases b with
    | finite n => simp only [min, finite.injEq, Nat.min_def]; split <;> simp
    | infinite => exact .inl rfl
  | infinite => exact .inr rfl

theorem worst_mem {costs : List Cost} (some : costs ≠ []) : worst costs ∈ costs := by
  induction costs with
  | nil => contradiction
  | cons c rest ih =>
    have split : worst (c :: rest) = max c (worst rest) := rfl
    cases rest with
    | nil =>
      have alone : max c (worst []) = c := eq_of_atMost fun k => by simp
      simp [split, alone]
    | cons d later =>
      rcases max_eq c (worst (d :: later)) with left | right
      · simp [split, left]
      · rw [split, right]
        exact List.mem_cons_of_mem c (ih (List.cons_ne_nil d later))

theorem best_mem {costs : List Cost} (some : costs ≠ []) : best costs ∈ costs := by
  induction costs with
  | nil => contradiction
  | cons c rest ih =>
    have split : best (c :: rest) = min c (best rest) := rfl
    cases rest with
    | nil =>
      have alone : min c (best []) = c := eq_of_atMost fun k => by simp
      simp [split, alone]
    | cons d later =>
      rcases min_eq c (best (d :: later)) with left | right
      · simp [split, left]
      · rw [split, right]
        exact List.mem_cons_of_mem c (ih (List.cons_ne_nil d later))

end GrammarSampler.Cost

namespace GrammarSampler.CostTable

theorem keep_eq_max (kept next : Cost) :
    (if Price.isAbove next kept then next else kept) = Cost.max kept next := by
  cases kept with
  | infinite => cases next <;> rfl
  | finite m =>
    cases next with
    | infinite => rfl
    | finite n =>
      by_cases above : m < n
      · rw [if_pos (by simpa [Price.isAbove, Cost.lt] using above)]
        exact congrArg Cost.finite (Nat.max_eq_right (Nat.le_of_lt above)).symm
      · rw [if_neg (by simpa [Price.isAbove, Cost.lt] using above)]
        exact congrArg Cost.finite (Nat.max_eq_left (Nat.le_of_not_lt above)).symm

theorem atMost_foldl_max {costs : List Cost} {first : Cost} {k : Nat} :
    (costs.foldl Cost.max first).AtMost k ↔ first.AtMost k ∧ ∀ c ∈ costs, c.AtMost k := by
  induction costs generalizing first with
  | nil => simp
  | cons c rest ih => simp [ih, and_assoc]

theorem worst_eq (costs : List Cost) : worst costs = Cost.worst costs := by
  cases costs with
  | nil => rfl
  | cons c rest =>
    apply Cost.eq_of_atMost
    intro k
    simp only [worst, keep_eq_max, atMost_foldl_max, Cost.atMost_worst, List.forall_mem_cons]

end GrammarSampler.CostTable
