import GrammarSampler.Cost.Numbered
import GrammarSampler.Proofs.Cost.Relaxation

/-!
The cost table is exact: a name costs the least height of its complete derivation trees, and
infinitely much if it has none. So the table depends on neither the order of the rules nor that of
the alternatives.
-/
namespace GrammarSampler

namespace Rules

/-- Some complete tree of a name has height `k`, and none is lower. -/
def LeastHeight (rules : Rules) (name : String) (k : Nat) : Prop :=
  (∃ t : Tree, t.IsDerivation rules ∧ t.symbol = .nonterminal name ∧ t.height = k) ∧
    ∀ t : Tree, t.IsDerivation rules → t.symbol = .nonterminal name → k ≤ t.height

/-- The same names with the same alternatives, perhaps in another order. -/
def Reordered (rules other : Rules) : Prop :=
  ∀ name, Option.Rel List.Perm (rules.get? name) (other.get? name)

theorem leastHeight_iff {rules : Rules} {name : String} {k : Nat} :
    rules.LeastHeight name k ↔ rules.ClosesIn k name ∧ ∀ j, rules.ClosesIn j name → k ≤ j := by
  constructor
  · rintro ⟨⟨t, complete, root, rfl⟩, least⟩
    refine ⟨complete.closesIn root, fun j h => ?_⟩
    obtain ⟨u, other, named, low⟩ := Tree.closesIn_iff.mp h
    exact Nat.le_trans (least u other named) low
  · rintro ⟨closes, least⟩
    obtain ⟨t, complete, root, low⟩ := Tree.closesIn_iff.mp closes
    have high := least t.height (complete.closesIn root)
    exact ⟨⟨t, complete, root, Nat.le_antisymm low high⟩,
      fun u other named => least u.height (other.closesIn named)⟩

theorem exists_closesIn_iff {rules : Rules} {name : String} :
    (∃ k, rules.ClosesIn k name) ↔ ∃ w, rules.Derives [.nonterminal name] w := by
  constructor
  · rintro ⟨k, h⟩
    obtain ⟨t, complete, root, _⟩ := Tree.closesIn_iff.mp h
    exact ⟨t.yield, Tree.derives_iff_tree.mpr ⟨t, complete, root, rfl⟩⟩
  · rintro ⟨w, h⟩
    obtain ⟨t, complete, root, _⟩ := Tree.derives_iff_tree.mp h
    exact ⟨t.height, complete.closesIn root⟩

theorem mem_allReferences {rules : Rules} {name : String} :
    name ∈ rules.allReferences ↔ ∃ rule ∈ rules, ∃ e ∈ rule.2, name ∈ e.references := by
  simp [allReferences, references]

namespace Reordered
variable {rules other : Rules}

theorem symm (h : rules.Reordered other) : other.Reordered rules := by
  intro name
  have same := h name
  revert same
  cases rules.get? name <;> cases other.get? name <;> intro same <;> cases same
  · exact .none
  · rename_i perm
    exact .some perm.symm

theorem get? (h : rules.Reordered other) {name : String} {alternatives : List Expansion}
    (rule : rules.get? name = some alternatives) :
    ∃ moved, other.get? name = some moved ∧ alternatives.Perm moved := by
  have same := h name
  rw [rule] at same
  revert same
  cases other.get? name with
  | none => intro same; cases same
  | some moved =>
    intro same
    cases same with
    | some perm => exact ⟨moved, rfl, perm⟩

theorem mem_keys (h : rules.Reordered other) {name : String} :
    name ∈ rules.keys ↔ name ∈ other.keys := by
  rw [← Entries.get?_isSome_iff, ← Entries.get?_isSome_iff]
  have same := h name
  revert same
  cases rules.get? name <;> cases other.get? name <;> intro same <;> cases same <;> simp

theorem closesIn (h : rules.Reordered other) {k : Nat} {name : String}
    (closes : rules.ClosesIn k name) : other.ClosesIn k name := by
  induction k generalizing name with
  | zero => exact closes
  | succ k ih =>
    obtain ⟨alternatives, rule, e, chosen, below⟩ := closes
    obtain ⟨moved, found, perm⟩ := h.get? rule
    exact ⟨moved, found, e, perm.mem_iff.mp chosen, fun used inside => ih (below used inside)⟩

theorem closed (h : rules.Reordered other) (distinct : other.Distinct) (closed : rules.Closed) :
    other.Closed := by
  intro name inside
  obtain ⟨⟨key, moved⟩, mem, e, chosen, used⟩ := mem_allReferences.mp inside
  obtain ⟨alternatives, found, perm⟩ := h.symm.get? (Entries.get?_of_mem distinct mem)
  have known := closed name (mem_allReferences.mpr
    ⟨_, Entries.mem_of_get? found, e, perm.mem_iff.mp chosen, used⟩)
  rw [← Entries.get?_isSome_iff, Option.isSome_iff_exists] at known
  obtain ⟨own, rule⟩ := known
  obtain ⟨there, rule', _⟩ := h.get? rule
  rw [← Entries.get?_isSome_iff, rule']
  rfl

end Reordered
end Rules

namespace Cost
variable {rules : Rules} {table : CostTable Cost} {name : String}

theorem get?_eq_some_iff (inside : name ∈ table.keys) {c : Cost} :
    table.get? name = some c ↔ ofName table name = c := by
  rw [← Entries.get?_isSome_iff, Option.isSome_iff_exists] at inside
  obtain ⟨found, known⟩ := inside
  simp [ofName, known]

theorem mem_unproductive_iff (mapping : table.Distinct) :
    name ∈ table.unproductive ↔ table.get? name = some infinite := by
  simp only [CostTable.unproductive, List.mem_map, List.mem_filter]
  constructor
  · rintro ⟨⟨key, c⟩, ⟨inside, unbounded⟩, rfl⟩
    have cost : c = infinite := by
      cases c with
      | finite n => simp [Price.isInfinite, isFinite] at unbounded
      | infinite => rfl
    exact cost ▸ Entries.get?_of_mem mapping inside
  · intro found
    exact ⟨_, ⟨Entries.mem_of_get? found, rfl⟩, rfl⟩

namespace Exact

theorem eq_finite_iff (exact : Exact rules table) {k : Nat} :
    ofName table name = finite k ↔ rules.LeastHeight name k := by
  rw [Cost.eq_finite_iff, Rules.leastHeight_iff]
  simp only [exact name]

theorem eq_infinite_iff (exact : Exact rules table) :
    ofName table name = infinite ↔ ¬ ∃ k, rules.ClosesIn k name := by
  rw [Cost.eq_infinite_iff, not_exists]
  simp only [exact name]

end Exact

theorem distinct_of_keys (mapping : rules.Distinct) (same : table.keys = rules.keys) :
    table.Distinct := by
  unfold Entries.Distinct
  rw [same]
  exact mapping

theorem estimate?_eq (closed : rules.Closed) :
    Numbered.estimate? rules = .ok (estimate rules) := by
  rw [← Rules.undefined?_eq_none_iff] at closed
  rw [Numbered.estimate?, closed, Numbered.estimate_eq]

end Cost

theorem Rules.Reordered.table_get? {rules other : Rules} (same : rules.Reordered other)
    (mapping : rules.Distinct) (distinct : other.Distinct) (name : String) :
    (Cost.estimate other).table.get? name = (Cost.estimate rules).table.get? name := by
  have exact := (Cost.estimate_exact mapping).1
  have exact' := (Cost.estimate_exact distinct).1
  have agree : Cost.ofName (Cost.estimate other).table name =
      Cost.ofName (Cost.estimate rules).table name := by
    apply Cost.eq_of_atMost
    intro k
    rw [exact name, exact' name]
    exact ⟨same.symm.closesIn, same.closesIn⟩
  by_cases inside : name ∈ rules.keys
  · have inside' := same.mem_keys.mp inside
    rw [← Cost.keys_estimate] at inside inside'
    rw [(Cost.get?_eq_some_iff inside').mpr agree, (Cost.get?_eq_some_iff inside).mpr rfl]
  · have outside := same.mem_keys.not.mp inside
    rw [← Cost.keys_estimate, ← Entries.get?_isSome_iff, Option.not_isSome_iff_eq_none] at inside
    rw [← Cost.keys_estimate, ← Entries.get?_isSome_iff, Option.not_isSome_iff_eq_none] at outside
    rw [inside, outside]

namespace Cost

/-- Costs are least heights of complete derivation trees, infinite for names without any. The
estimate always succeeds, ends in a pass that changes nothing and is the same for any order of the
rules and of their alternatives. -/
theorem estimate_leastHeight (mapping : rules.Distinct) (closed : rules.Closed) :
    ∃ found, Numbered.estimate? rules = .ok found ∧ (pass rules found.table).changed = false ∧
      found.table.keys = rules.keys ∧
      (∀ name ∈ rules.keys, ∀ k,
        found.table.get? name = some (finite k) ↔ rules.LeastHeight name k) ∧
      (∀ name ∈ rules.keys, found.table.get? name = some infinite ↔
        ¬ ∃ t : Tree, t.IsDerivation rules ∧ t.symbol = .nonterminal name) ∧
      (∀ name, name ∈ found.table.unproductive ↔
        name ∈ rules.keys ∧ ¬ ∃ w, rules.Derives [.nonterminal name] w) ∧
      found.table.unproductive.Sublist rules.keys ∧
      ∀ other : Rules, other.Distinct → rules.Reordered other →
        ∃ again, Numbered.estimate? other = .ok again ∧
          ∀ name, again.table.get? name = found.table.get? name := by
  obtain ⟨exact, still⟩ := estimate_exact mapping
  have keys := keys_estimate rules
  have listed : (estimate rules).table.Distinct := distinct_of_keys mapping keys
  refine ⟨estimate rules, estimate?_eq closed, still, keys, ?_, ?_, ?_, ?_, ?_⟩
  · intro name inside k
    rw [get?_eq_some_iff (keys ▸ inside), exact.eq_finite_iff]
  · intro name inside
    rw [get?_eq_some_iff (keys ▸ inside), exact.eq_infinite_iff, Rules.exists_closesIn_iff]
    simp only [Tree.derives_iff_tree]
    exact not_congr ⟨fun ⟨_, t, complete, root, _⟩ => ⟨t, complete, root⟩,
      fun ⟨t, complete, root⟩ => ⟨_, t, complete, root, rfl⟩⟩
  · intro name
    rw [mem_unproductive_iff listed]
    constructor
    · intro found
      have inside : name ∈ (estimate rules).table.keys := by
        rw [← Entries.get?_isSome_iff, found]
        rfl
      refine ⟨keys ▸ inside, ?_⟩
      rw [← Rules.exists_closesIn_iff, ← exact.eq_infinite_iff, ← get?_eq_some_iff inside]
      exact found
    · rintro ⟨inside, barren⟩
      rw [get?_eq_some_iff (keys ▸ inside), exact.eq_infinite_iff, Rules.exists_closesIn_iff]
      exact barren
  · rw [← keys]
    exact List.filter_sublist.map Prod.fst
  · intro other distinct same
    exact ⟨estimate other, estimate?_eq (same.closed distinct closed),
      same.table_get? mapping distinct⟩

/-- Two rules that use each other, the dearer one first, and one that never ends. -/
def mutualRules : Rules :=
  [("up", [.unweighted [.nonterminal "down"], .unweighted [.terminal "x", .nonterminal "up"]]),
    ("lost", [.unweighted [.nonterminal "lost", .nonterminal "down"]]),
    ("down", [.unweighted [.nonterminal "up", .terminal "y"], .unweighted [.terminal "z"]])]

theorem estimate_leastHeight_mutual : mutualRules.Distinct ∧ mutualRules.Closed ∧
    mutualRules.LeastHeight "up" 2 ∧ mutualRules.LeastHeight "down" 1 ∧
    ¬ ∃ w, mutualRules.Derives [.nonterminal "lost"] w := by
  have mapping : mutualRules.Distinct := by decide
  have closed : mutualRules.Closed := by decide
  obtain ⟨found, success, -, -, least, -, lost, -⟩ := estimate_leastHeight mapping closed
  rw [estimate?_eq closed, Except.ok.injEq] at success
  subst success
  refine ⟨mapping, closed, (least "up" (by decide) 2).mp (by decide),
    (least "down" (by decide) 1).mp (by decide), ((lost "lost").mp (by decide)).2⟩

end Cost
end GrammarSampler
