import GrammarSampler.Proofs.Cost.Exactness
import Mathlib.Data.Nat.Find

/-!
How many passes the relaxation makes. It ends with the first pass that changes nothing. Every pass
settles one more level, so there is at most one pass more than the highest finite cost, and no cost
below the highest one is left out.
-/
namespace GrammarSampler

namespace CostTable

theorem exists_highest (table : CostTable Cost) : ∃ m : Nat, table.maxFinite? = .ok (m : Int) ∧
    (∀ name k, (name, .finite k) ∈ table → k ≤ m) ∧ (m = 0 ∨ ∃ name, (name, .finite m) ∈ table) := by
  have mem_iff : ∀ k, Cost.finite k ∈ ((table.map Prod.snd).filter fun c => !Price.isInfinite c) ↔
      ∃ name, (name, .finite k) ∈ table := by
    intro k
    simp [Price.isInfinite, Cost.isFinite]
  have bounded : ∀ c ∈ (table.map Prod.snd).filter fun c => !Price.isInfinite c,
      c.isFinite = true := by
    intro c inside
    simpa [Price.isInfinite] using (List.mem_filter.mp inside).2
  unfold maxFinite?
  generalize (table.map Prod.snd).filter (fun c => !Price.isInfinite c) = costs at mem_iff bounded
  have top : ∃ m, Cost.worst costs = .finite m ∧ (m = 0 ∨ .finite m ∈ costs) := by
    by_cases empty : costs = []
    · rw [empty]
      exact ⟨0, rfl, .inl rfl⟩
    · have inside := Cost.worst_mem empty
      cases value : Cost.worst costs with
      | infinite =>
        rw [value] at inside
        cases bounded _ inside
      | finite m => exact ⟨m, rfl, .inr (value ▸ inside)⟩
  obtain ⟨m, value, taken⟩ := top
  have highest : (Cost.worst costs).AtMost m := by
    rw [value]
    exact Nat.le_refl m
  rw [worst_eq, value]
  refine ⟨m, rfl, fun name k inside => ?_, taken.imp_right (mem_iff m).mp⟩
  exact Cost.atMost_worst.mp highest (.finite k) ((mem_iff k).mpr ⟨name, inside⟩)

end CostTable

namespace Cost
variable {rules : Rules} {table : CostTable Cost} {name : String} {j k n : Nat}

/-- The table after some passes over the rules. -/
def after (rules : Rules) : Nat → CostTable Cost
  | 0 => start rules
  | n + 1 => (pass rules (after rules n)).table

theorem sound_after (mapping : rules.Distinct) (n : Nat) : Sound rules (after rules n) := by
  induction n with
  | zero =>
    intro name k h
    rw [after, ofName_start] at h
    exact h.elim
  | succ n ih => exact ih.pass mapping

theorem settled_after (rules : Rules) (n : Nat) : Settled rules n (after rules n) := by
  induction n with
  | zero =>
    intro name k le h
    obtain rfl := Nat.le_zero.mp le
    exact h.elim
  | succ n ih => exact ih.pass

theorem settle_after {fuel : Nat} (first : n ≤ j) (enough : j < n + fuel)
    (changes : ∀ i < j, (pass rules (after rules i)).changed = true)
    (still : (pass rules (after rules j)).changed = false) :
    settle rules fuel ⟨after rules n, n⟩ = ⟨after rules (j + 1), j + 1⟩ := by
  induction fuel generalizing n with
  | zero => omega
  | succ fuel ih =>
    rw [settle]
    rcases Nat.lt_or_eq_of_le first with before | rfl
    · simp only [changes n before, if_true]
      exact ih before (by omega)
    · simp only [still, Bool.false_eq_true, if_false]
      rfl

/-- A name of finite cost uses one that costs one step less, unless it costs a single one. -/
theorem Exact.exists_below (exact : Exact rules table) (cost : ofName table name = finite (k + 1))
    (some : 0 < k) : ∃ used, ofName table used = finite k := by
  obtain ⟨j, rfl⟩ : ∃ j, k = j + 1 := ⟨k - 1, by omega⟩
  rw [Cost.eq_finite_iff, exact name] at cost
  obtain ⟨⟨alternatives, rule, e, chosen, below⟩, least⟩ := cost
  by_contra none
  push Not at none
  -- Otherwise all names of the alternative close one level earlier, and so does the name itself.
  have early : ∀ used ∈ e.references, rules.ClosesIn j used := by
    intro used inside
    by_contra late
    refine none used (Cost.eq_finite_iff.mpr ⟨(exact used _).mpr (below used inside), ?_⟩)
    intro i bound
    by_contra low
    exact late (((exact used i).mp bound).mono (by omega))
  have low := least (j + 1) ((exact name _).mpr ⟨alternatives, rule, e, chosen, early⟩)
  omega

theorem Exact.exists_cost (exact : Exact rules table) (cost : ofName table name = finite n)
    (lower : 1 ≤ k) (upper : k ≤ n) : ∃ used, ofName table used = finite k := by
  induction n generalizing name with
  | zero => omega
  | succ n ih =>
    rcases Nat.lt_or_eq_of_le upper with less | rfl
    · obtain ⟨used, below⟩ := exact.exists_below cost (by omega)
      exact ih below (by omega)
    · exact ⟨name, cost⟩

theorem get?_of_ofName (cost : ofName table name = finite k) :
    table.get? name = some (finite k) := by
  unfold ofName at cost
  cases found : table.get? name with
  | none =>
    rw [found] at cost
    cases cost
  | some c =>
    rw [found] at cost
    exact congrArg some cost

theorem exact_after (mapping : rules.Distinct) (exact : Exact rules table)
    (highest : ∀ name k, ofName table name = finite k → k ≤ n) : Exact rules (after rules n) := by
  intro name k
  refine ⟨sound_after mapping n name k, fun h => ?_⟩
  have bound := (exact name k).mpr h
  cases cost : ofName table name with
  | infinite =>
    rw [cost] at bound
    exact bound.elim
  | finite i =>
    rw [cost] at bound
    have least : rules.ClosesIn i name := (exact name i).mp (cost ▸ Nat.le_refl i)
    exact (settled_after rules n name i (highest name i cost) least).mono bound

theorem Exact.le_length (exact : Exact rules table) (cost : ofName table name = finite k) :
    k ≤ rules.length := by
  obtain ⟨bound, least⟩ := Cost.eq_finite_iff.mp cost
  exact least _ ((exact name _).mpr ((exact name k).mp bound).length)

theorem exists_last (mapping : rules.Distinct) (exact : Exact rules table)
    (highest : ∀ name k, ofName table name = finite k → k ≤ n) (few : n ≤ rules.length) :
    ∃ last ≤ n, estimate rules = ⟨after rules (last + 1), last + 1⟩ ∧
      (∀ i < last, (pass rules (after rules i)).changed = true) ∧
      (pass rules (after rules last)).changed = false := by
  have settled : (pass rules (after rules n)).changed = false :=
    ((exact_after mapping exact highest).unchanged mapping).1
  have ends : ∃ last, (pass rules (after rules last)).changed = false := ⟨n, settled⟩
  have early : Nat.find ends ≤ n := Nat.find_min' ends settled
  have changes : ∀ i < Nat.find ends, (pass rules (after rules i)).changed = true := by
    intro i before
    simpa using Nat.find_min ends before
  have whole : estimate rules = ⟨after rules (Nat.find ends + 1), Nat.find ends + 1⟩ :=
    settle_after (Nat.zero_le _) (by omega) changes (Nat.find_spec ends)
  exact ⟨_, early, whole, changes, Nat.find_spec ends⟩

/-- The relaxation ends with the first pass that changes nothing, and that is one of the first
`m + 1` if `m` is the highest finite cost. No cost is above the number of rules, and the finite costs
are all numbers from one to `m`. -/
theorem estimate_passes (mapping : rules.Distinct) (closed : rules.Closed) :
    ∃ (found : Estimate) (last m : Nat), Numbered.estimate? rules = .ok found ∧
      found = ⟨after rules (last + 1), last + 1⟩ ∧
      (∀ i < last, (pass rules (after rules i)).changed = true) ∧
      (pass rules (after rules last)).changed = false ∧
      found.table.maxFinite? = .ok (m : Int) ∧
      found.passes ≤ m + 1 ∧ m ≤ rules.length ∧ found.passes ≤ rules.length + 1 ∧
      ∀ k, (∃ name, found.table.get? name = some (finite k)) ↔ 1 ≤ k ∧ k ≤ m := by
  have exact := (estimate_exact mapping).1
  have listed : (estimate rules).table.Distinct := distinct_of_keys mapping (keys_estimate rules)
  obtain ⟨m, value, highest, taken⟩ := CostTable.exists_highest (estimate rules).table
  have above : ∀ name k, ofName (estimate rules).table name = finite k → k ≤ m := fun name k cost =>
    highest name k (Entries.mem_of_get? (get?_of_ofName cost))
  have costOf : ∀ name k, (name, finite k) ∈ (estimate rules).table →
      ofName (estimate rules).table name = finite k := by
    intro name k inside
    rw [ofName, Entries.get?_of_mem listed inside]
    rfl
  have low : m ≤ rules.length := by
    rcases taken with rfl | ⟨name, inside⟩
    · exact Nat.zero_le _
    · exact exact.le_length (costOf name m inside)
  obtain ⟨last, early, whole, changes, still⟩ := exists_last mapping exact above low
  have count : (estimate rules).passes = last + 1 := congrArg Estimate.passes whole
  refine ⟨estimate rules, last, m, estimate?_eq closed, whole, changes, still, value, by omega, low,
    by omega, fun k => ?_⟩
  constructor
  · rintro ⟨name, found⟩
    have inside := Entries.mem_of_get? found
    refine ⟨?_, highest name k inside⟩
    cases k with
    | zero => exact ((exact name 0).mp ((costOf name 0 inside) ▸ Nat.le_refl 0)).elim
    | succ k => exact Nat.le_add_left 1 k
  · rintro ⟨lower, upper⟩
    rcases taken with rfl | ⟨name, inside⟩
    · omega
    · obtain ⟨used, cost⟩ := exact.exists_cost (costOf name m inside) lower upper
      exact ⟨used, get?_of_ofName cost⟩

/-- Two names of which the dearer one stands first: the second pass lowers it, the third one changes
nothing. -/
theorem estimate_passes_mutual : mutualRules.Distinct ∧ mutualRules.Closed ∧
    ∃ found, Numbered.estimate? mutualRules = .ok found ∧ found.passes = 3 ∧
      found.table.maxFinite? = .ok 2 ∧ found.passes ≤ 2 + 1 ∧
      (∃ name, found.table.get? name = some (finite 1)) ∧
      ¬ ∃ name, found.table.get? name = some (finite 3) := by
  have mapping : mutualRules.Distinct := by decide
  have closed : mutualRules.Closed := by decide
  obtain ⟨found, last, m, success, -, -, -, value, few, -, -, costs⟩ :=
    estimate_passes mapping closed
  have same := success
  rw [estimate?_eq closed, Except.ok.injEq] at same
  subst same
  have two : (estimate mutualRules).table.maxFinite? = .ok (2 : Int) := by decide
  obtain rfl : m = 2 := by
    rw [two, Except.ok.injEq] at value
    omega
  exact ⟨mapping, closed, _, success, by decide, two, few, (costs 1).mpr (by decide),
    fun dear => absurd ((costs 3).mp dear) (by decide)⟩

end Cost
end GrammarSampler
