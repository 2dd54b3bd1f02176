import GrammarSampler.Number.Basic
import Mathlib

/-!
Limits and counts. A limit that is reached stays reached by larger counts, and a count below a limit
lies below every whole number that is not below it.
-/
namespace GrammarSampler

namespace ExactValue

theorem compareScaled_eq_gt {negative : Bool} {significand : Nat} {exponent n : Int} :
    compareScaled negative significand exponent n = .gt ↔
      n * 2 ^ (-exponent).toNat <
        (if negative then -(significand : Int) else significand) * 2 ^ exponent.toNat := by
  unfold compareScaled
  exact compare_gt_iff_gt

theorem compareInt_gt_of_le {x : ExactValue} {low high : Int}
    (above : x.compareInt high = some .gt) (le : low ≤ high) : x.compareInt low = some .gt := by
  cases x with
  | notANumber => cases above
  | infinite negative => exact above
  | finite negative significand exponent =>
    simp only [compareInt, Option.some.injEq, compareScaled_eq_gt] at above ⊢
    have scaled : low * 2 ^ (-exponent).toNat ≤ high * 2 ^ (-exponent).toNat :=
      Int.mul_le_mul_of_nonneg_right le (by positivity)
    omega

theorem compareScaled_eq_lt {negative : Bool} {significand : Nat} {exponent n : Int} :
    compareScaled negative significand exponent n = .lt ↔
      (if negative then -(significand : Int) else significand) * 2 ^ exponent.toNat <
        n * 2 ^ (-exponent).toNat := by
  unfold compareScaled
  exact compare_lt_iff_lt

theorem compareInt_lt_of_lt {x : ExactValue} {low high : Int} (ordered : (x.compareInt low).isSome)
    (notAbove : x.compareInt low ≠ some .gt) (lt : low < high) :
    x.compareInt high = some .lt := by
  cases x with
  | notANumber => cases ordered
  | infinite negative =>
    cases negative with
    | true => rfl
    | false => exact absurd rfl notAbove
  | finite negative significand exponent =>
    simp only [compareInt, ne_eq, Option.some.injEq, compareScaled_eq_gt, compareScaled_eq_lt]
      at notAbove ⊢
    have scaled : low * 2 ^ (-exponent).toNat < high * 2 ^ (-exponent).toNat :=
      Int.mul_lt_mul_of_pos_right lt (by positivity)
    omega

theorem isSome_compareInt (x : ExactValue) (m n : Int) :
    (x.compareInt m).isSome = (x.compareInt n).isSome := by
  cases x <;> rfl

end ExactValue

namespace Number
variable {limit : Number}

theorem compare?_int (limit : Number) :
    (∃ k, limit.split = .inl k ∧ ∀ n, limit.compare? (int n) = some (compare k n) ∧
        (int n).compare? limit = some (compare n k)) ∨
      ∃ x : ExactValue, ∀ n, limit.compare? (int n) = x.compareInt n ∧
        (int n).compare? limit = (x.compareInt n).map Ordering.swap := by
  unfold compare?
  cases parts : limit.split with
  | inl k => exact .inl ⟨k, rfl, fun n => ⟨rfl, rfl⟩⟩
  | inr x => exact .inr ⟨.ofFloat x, fun n => ⟨rfl, rfl⟩⟩

theorem lt_int_iff {n : Int} : (int n).lt limit = true ↔ limit.compare? (int n) = some .gt := by
  unfold lt
  rw [beq_iff_eq]
  rcases compare?_int limit with ⟨k, -, each⟩ | ⟨x, each⟩
  · rw [(each n).1, (each n).2, Option.some.injEq, Option.some.injEq, compare_lt_iff_lt,
      compare_gt_iff_gt]
  · rw [(each n).1, (each n).2]
    cases x.compareInt n with
    | none => simp
    | some order => cases order <;> simp

theorem le_int_iff {n : Int} : limit.le (int n) = true ↔
    (limit.compare? (int n)).isSome ∧ limit.compare? (int n) ≠ some .gt := by
  unfold le lt
  cases limit.compare? (int n) with
  | none => simp
  | some order => cases order <;> simp

theorem lt_int_of_le {low high : Int} (above : (int high).lt limit = true) (le : low ≤ high) :
    (int low).lt limit = true := by
  rw [lt_int_iff] at above ⊢
  rcases compare?_int limit with ⟨k, -, each⟩ | ⟨x, each⟩
  · rw [(each high).1, Option.some.injEq, compare_gt_iff_gt] at above
    rw [(each low).1, Option.some.injEq, compare_gt_iff_gt]
    omega
  · rw [(each high).1] at above
    rw [(each low).1]
    exact ExactValue.compareInt_gt_of_le above le

theorem lt_of_exceeds {count : Nat} {n : Int} (above : limit.exceeds count = true)
    (notBelow : (int n).lt limit = false) : (count : Int) < n := by
  by_contra large
  rw [lt_int_of_le above (by omega)] at notBelow
  cases notBelow

theorem exceeds_eq_false {count : Nat} (reached : limit.reachedBy count = true) :
    limit.exceeds count = false := by
  have notAbove := (le_int_iff.mp reached).2
  rw [← Bool.not_eq_true]
  intro above
  exact notAbove (lt_int_iff.mp above)

theorem lt_of_reachedBy {low : Nat} {high : Int} (reached : limit.reachedBy low = true)
    (less : (low : Int) < high) : limit.lt (int high) = true := by
  obtain ⟨ordered, notAbove⟩ := le_int_iff.mp reached
  unfold lt
  rw [beq_iff_eq]
  rcases compare?_int limit with ⟨k, -, each⟩ | ⟨x, each⟩
  · rw [(each low).1, ne_eq, Option.some.injEq, compare_gt_iff_gt] at notAbove
    rw [(each high).1, Option.some.injEq, compare_lt_iff_lt]
    omega
  · rw [(each low).1] at ordered notAbove
    rw [(each high).1]
    exact ExactValue.compareInt_lt_of_lt ordered notAbove less

theorem reachedBy_mono {low high : Nat} (reached : limit.reachedBy low = true) (le : low ≤ high) :
    limit.reachedBy high = true := by
  unfold reachedBy at *
  rw [le_int_iff] at *
  obtain ⟨some, notAbove⟩ := reached
  constructor
  · rcases compare?_int limit with ⟨k, -, each⟩ | ⟨x, each⟩
    · rw [(each high).1]
      rfl
    · rw [(each low).1] at some
      rw [(each high).1, x.isSome_compareInt high low]
      exact some
  · intro above
    exact notAbove (lt_int_iff.mp (lt_int_of_le (lt_int_iff.mpr above) (by omega)))

end Number
end GrammarSampler
