import GrammarSampler.Proofs.Generation.Reachable
import Mathlib.Algebra.Order.BigOperators.Group.List
import Mathlib.Algebra.Order.Group.Nat

/-!
How many steps it takes to close a tree. A leaf of finite cost counts as many steps as a full tree
of its cost has nodes; expanding it by a cheapest alternative leaves at least one step less.
-/
namespace GrammarSampler.Grammar

/-- Nodes of a full tree of `levels` levels. -/
def fullTree (width levels : Nat) : Nat := ((List.range levels).map (width ^ ·)).sum

theorem fullTree_succ_last (width levels : Nat) :
    fullTree width (levels + 1) = fullTree width levels + width ^ levels := by
  simp [fullTree, List.range_succ]

theorem fullTree_succ (width levels : Nat) :
    fullTree width (levels + 1) = width * fullTree width levels + 1 := by
  induction levels with
  | zero => simp [fullTree]
  | succ levels ih =>
    calc fullTree width (levels + 1 + 1)
        = width * fullTree width levels + 1 + width ^ (levels + 1) := by
          rw [fullTree_succ_last, ih]
      _ = width * (fullTree width levels + width ^ levels) + 1 := by
          rw [Nat.mul_add, Nat.pow_succ']
          omega
      _ = width * fullTree width (levels + 1) + 1 := by rw [fullTree_succ_last]

theorem fullTree_mono (width : Nat) {low high : Nat} (le : low ≤ high) :
    fullTree width low ≤ fullTree width high := by
  induction le with
  | refl => exact Nat.le_refl _
  | step _ ih =>
    rw [fullTree_succ_last]
    omega

theorem le_foldl_max (items : List Nat) (first : Nat) :
    first ≤ items.foldl max first ∧ ∀ n ∈ items, n ≤ items.foldl max first := by
  induction items generalizing first with
  | nil => exact ⟨Nat.le_refl first, fun n inside => nomatch inside⟩
  | cons item rest ih =>
    obtain ⟨least, each⟩ := ih (max first item)
    refine ⟨by rw [List.foldl_cons]; omega, fun n inside => ?_⟩
    rw [List.foldl_cons]
    rcases List.mem_cons.mp inside with rfl | later
    · omega
    · exact each n later

variable {g : Grammar} {name : String}

theorem width_pos : 1 ≤ g.width := (le_foldl_max _ 1).1

theorem length_references_le {rule : String × List Expansion} {e : Expansion}
    (inside : rule ∈ g.rules) (chosen : e ∈ rule.2) : e.references.length ≤ g.width :=
  (le_foldl_max _ 1).2 _ (List.mem_flatMap.mpr ⟨rule, inside, List.mem_map_of_mem chosen⟩)

theorem le_maxFiniteCost {k : Nat} (cost : g.costs.get? name = some (.finite k)) :
    k ≤ g.maxFiniteCost :=
  (le_foldl_max _ 0).2 _ (List.mem_filterMap.mpr ⟨_, Entries.mem_of_get? cost, rfl⟩)

/-- The steps that closing a leaf takes at most; a name that never ends is never expanded. -/
def leafSteps (g : Grammar) (name : String) : Nat :=
  match Cost.ofName g.costs name with
  | .finite k => fullTree g.width k
  | .infinite => 0

theorem leafSteps_le (g : Grammar) (name : String) : g.leafSteps name ≤ g.closingSteps := by
  unfold leafSteps Cost.ofName
  cases found : g.costs.get? name with
  | none => exact Nat.zero_le _
  | some c =>
    cases c with
    | finite k => exact fullTree_mono g.width (le_maxFiniteCost found)
    | infinite => exact Nat.zero_le _

theorem leafSteps_le_of_atMost {k : Nat} (bound : (Cost.ofName g.costs name).AtMost k) :
    g.leafSteps name ≤ fullTree g.width k := by
  unfold leafSteps
  cases cost : Cost.ofName g.costs name with
  | finite n =>
    rw [cost] at bound
    exact fullTree_mono g.width bound
  | infinite => exact Nat.zero_le _

def stepsToClose (g : Grammar) (names : List String) : Nat := (names.map g.leafSteps).sum

theorem stepsToClose_append (names others : List String) :
    g.stepsToClose (names ++ others) = g.stepsToClose names + g.stepsToClose others := by
  simp [stepsToClose]

theorem stepsToClose_le {names : List String} {each : Nat}
    (bound : ∀ used ∈ names, g.leafSteps used ≤ each) :
    g.stepsToClose names ≤ names.length * each := by
  have sum := List.sum_le_card_nsmul (names.map g.leafSteps) each (by simpa using bound)
  simpa [stepsToClose] using sum

/-- A cheapest alternative takes at least one step less than its name. -/
theorem stepsToClose_references (built : g.Built) {alternatives : List Expansion} {e : Expansion}
    {k : Nat} (rule : g.rules.get? name = some alternatives) (chosen : e ∈ alternatives)
    (cost : g.costs.get? name = some (.finite k))
    (cheapest : Cost.ofExpansion g.costs e =
      Cost.best (alternatives.map (Cost.ofExpansion g.costs))) :
    g.stepsToClose e.references + 1 ≤ g.leafSteps name := by
  have value : Cost.ofName g.costs name = .finite k := by rw [Cost.ofName, cost]; rfl
  obtain ⟨j, rfl, best⟩ := built.best_eq rule value
  have below : ∀ used ∈ e.references, g.leafSteps used ≤ fullTree g.width j := by
    intro used inside
    refine leafSteps_le_of_atMost (Cost.atMost_ofExpansion.mp ?_ used inside)
    rw [cheapest, best]
    exact Nat.le_refl j
  have few := length_references_le (Entries.mem_of_get? rule) chosen
  calc g.stepsToClose e.references + 1
      ≤ e.references.length * fullTree g.width j + 1 := Nat.add_le_add_right (stepsToClose_le below) 1
    _ ≤ g.width * fullTree g.width j + 1 :=
        Nat.add_le_add_right (Nat.mul_le_mul_right _ few) 1
    _ = g.leafSteps name := by rw [leafSteps, value]; exact (fullTree_succ g.width j).symm

end GrammarSampler.Grammar
