import GrammarSampler.Grammar.Basic
import GrammarSampler.Proofs.Cost.Relaxation

/-!
What a built grammar can rely on. All names it uses have rules and costs, every rule has an
alternative, and the costs solve their own equation: a name costs one step more than its cheapest
alternative.
-/
namespace GrammarSampler.Grammar

theorem ruleFault?_eq_none_iff {defined : String → Bool} {name : String}
    {alternatives : List Expansion} : Rules.ruleFault? defined name alternatives = none ↔
      alternatives ≠ [] ∧ ∀ e ∈ alternatives, ∀ used ∈ e.references, defined used = true := by
  cases alternatives with
  | nil => simp [Rules.ruleFault?]
  | cons first rest => simp [Rules.ruleFault?, Rules.references]

theorem fault?_eq_none_iff {rules : Rules} {start : String} :
    rules.fault? start = none ↔ WellFormed rules start := by
  rw [Rules.fault?_eq]
  unfold WellFormed Rules.Closed
  by_cases present : start ∈ rules.keys
  · simp only [present, not_true_eq_false, if_false, true_and, List.findSome?_eq_none_iff,
      ruleFault?_eq_none_iff, decide_eq_true_eq, Rules.allReferences, Rules.references,
      List.mem_flatMap]
    constructor
    · intro each
      exact ⟨fun rule inside => (each rule inside).1, fun name ⟨rule, inside, e, chosen, used⟩ =>
        (each rule inside).2 e chosen name used⟩
    · rintro ⟨some, known⟩ rule inside
      exact ⟨some rule inside, fun e chosen used mem => known used ⟨rule, inside, e, chosen, mem⟩⟩
  · simp [present]

theorem build?_eq_ok_iff {rules : Rules} {start : String} {g : Grammar} :
    build? rules start = .ok g ↔
      WellFormed rules start ∧ g = ⟨rules, start, (Cost.estimate rules).table⟩ := by
  rw [← fault?_eq_none_iff, build?, Cost.Numbered.estimate_eq]
  cases rules.fault? start with
  | none => simp [eq_comm]
  | some fault => simp

theorem build_outcome_eq_ok {rules : Rules} {start : String} (wellFormed : WellFormed rules start) :
    (build rules start).outcome = .ok ⟨rules, start, (Cost.estimate rules).table⟩ := by
  rw [build_outcome, build?_eq_ok_iff.mpr ⟨wellFormed, rfl⟩]
  rfl

structure Built (g : Grammar) : Prop where
  mapping : g.rules.Distinct
  present : g.start ∈ g.rules.keys
  nonempty : ∀ rule ∈ g.rules, rule.2 ≠ []
  closed : g.rules.Closed
  keys : g.costs.keys = g.rules.keys
  exact : Cost.Exact g.rules g.costs

theorem built_of_build? {rules : Rules} {start : String} {g : Grammar} (mapping : rules.Distinct)
    (success : build? rules start = .ok g) : g.Built ∧ g.rules = rules ∧ g.start = start := by
  obtain ⟨⟨present, nonempty, closed⟩, rfl⟩ := build?_eq_ok_iff.mp success
  exact ⟨⟨mapping, present, nonempty, closed, Cost.keys_estimate rules,
    (Cost.estimate_exact mapping).1⟩, rfl, rfl⟩

namespace Built
variable {g : Grammar} {name : String} {alternatives : List Expansion}

theorem rule (built : g.Built) (known : name ∈ g.rules.keys) :
    ∃ alternatives, g.rules.get? name = some alternatives ∧ alternatives ≠ [] := by
  rw [← Entries.get?_isSome_iff, Option.isSome_iff_exists] at known
  obtain ⟨alternatives, found⟩ := known
  exact ⟨alternatives, found, built.nonempty _ (Entries.mem_of_get? found)⟩

theorem known (built : g.Built) (found : g.rules.get? name = some alternatives) {e : Expansion}
    (chosen : e ∈ alternatives) {used : String} (inside : used ∈ e.references) :
    used ∈ g.rules.keys := by
  refine built.closed used ?_
  simp only [Rules.allReferences, Rules.references, List.mem_flatMap]
  exact ⟨_, Entries.mem_of_get? found, e, chosen, inside⟩

theorem cost (built : g.Built) (known : name ∈ g.rules.keys) :
    g.costs.get? name = some (Cost.ofName g.costs name) := by
  rw [← built.keys, ← Entries.get?_isSome_iff, Option.isSome_iff_exists] at known
  obtain ⟨c, found⟩ := known
  rw [found, Cost.ofName, found]
  rfl

theorem ofName_eq (built : g.Built) (found : g.rules.get? name = some alternatives) :
    Cost.ofName g.costs name = Cost.ofRule g.costs alternatives := by
  apply Cost.eq_of_atMost
  intro k
  rw [built.exact name k]
  cases k with
  | zero => exact ⟨False.elim, Cost.not_atMost_ofRule_zero⟩
  | succ k =>
    rw [Cost.atMost_ofRule_succ]
    simp only [built.exact _ k]
    constructor
    · rintro ⟨own, rule, chosen⟩
      rw [found, Option.some.injEq] at rule
      exact rule ▸ chosen
    · exact fun chosen => ⟨alternatives, found, chosen⟩

theorem best_eq (built : g.Built) (found : g.rules.get? name = some alternatives) {k : Nat}
    (cost : Cost.ofName g.costs name = .finite k) :
    ∃ j, k = j + 1 ∧ Cost.best (alternatives.map (Cost.ofExpansion g.costs)) = .finite j := by
  rw [built.ofName_eq found, Cost.ofRule] at cost
  cases least : Cost.best (alternatives.map (Cost.ofExpansion g.costs)) with
  | finite j =>
    rw [least] at cost
    exact ⟨j, by cases cost; rfl, rfl⟩
  | infinite =>
    rw [least] at cost
    cases cost

end Built
end GrammarSampler.Grammar
