import GrammarSampler.Cost.Numbered
import GrammarSampler.Proofs.Cost.Relaxation

/-!
Relaxation that looks up every cost it needs. It stops at the first name without a cost, in the order
in which the names are read; without such a name it goes through and finds the same costs.
-/
namespace GrammarSampler

def absent? (keys names : List String) : Option String := names.find? fun name => decide (name ∉ keys)

def orMissing {α : Type} (value : α) : Option String → Except Fault α
  | some name => .error (.missingName name)
  | none => .ok value

section Missing
variable {α β : Type} {keys : List String}

theorem absent?_append (first later : List String) :
    absent? keys (first ++ later) = (absent? keys first).or (absent? keys later) :=
  List.find?_append

theorem absent?_eq_none_iff {names : List String} :
    absent? keys names = none ↔ ∀ name ∈ names, name ∈ keys := by
  simp [absent?, List.find?_eq_none]

theorem Rules.undefined?_eq (rules : Rules) :
    rules.undefined? = absent? rules.keys rules.allReferences := by
  simp [Rules.undefined?, absent?]

theorem orMissing_bind {value : α} {result : β} {first later : Option String}
    {next : α → Except Fault β} (rest : next value = orMissing result later) :
    orMissing value first >>= next = orMissing result (first.or later) := by
  cases first with
  | some name => rfl
  | none => exact rest

theorem mapM_orMissing {step : α → Except Fault β} {value : α → β} {names : α → List String}
    (each : ∀ a, step a = orMissing (value a) (absent? keys (names a))) (items : List α) :
    items.mapM step = orMissing (items.map value) (absent? keys (items.flatMap names)) := by
  induction items with
  | nil => rfl
  | cons a rest ih =>
    rw [List.mapM_cons, each a, List.flatMap_cons, absent?_append]
    apply orMissing_bind
    rw [ih]
    cases absent? keys (rest.flatMap names) <;> rfl

end Missing

namespace CostTable
variable {table : CostTable Cost}

theorem cost?_eq (name : String) :
    table.cost? name = orMissing (Cost.ofName table name) (absent? table.keys [name]) := by
  have known := Entries.get?_isSome_iff name table
  cases found : table.get? name with
  | none =>
    have unknown : name ∉ table.keys := by simpa [found] using known
    simp [cost?, found, absent?, unknown, orMissing]
  | some c =>
    have inside : name ∈ table.keys := by simpa [found] using known
    simp [cost?, found, absent?, inside, orMissing, Cost.ofName]

theorem expansionCost?_eq (e : Expansion) :
    table.expansionCost? e = orMissing (Cost.ofExpansion table e) (absent? table.keys e.references) := by
  have each := mapM_orMissing (@cost?_eq table) e.references
  rw [List.flatMap_singleton'] at each
  rw [expansionCost?, each, Cost.ofExpansion, ← worst_eq]
  cases absent? table.keys e.references <;> rfl

end CostTable

namespace Cost.Checked

def ofRule (table : CostTable Cost) (alternatives : List Expansion) : Except Fault Cost := do
  let costs ← alternatives.mapM table.expansionCost?
  return (best costs).next

def relaxRule (state : Relaxation) (rule : String × List Expansion) : Except Fault Relaxation := do
  let cost ← ofRule state.table rule.2
  let own ← state.table.cost? rule.1
  return if cost.lt own then ⟨state.table.put rule.1 cost, true⟩ else state

def pass (rules : Rules) (table : CostTable Cost) : Except Fault Relaxation :=
  rules.foldlM relaxRule ⟨table, false⟩

def settle (rules : Rules) : Nat → Estimate → Except Fault Estimate
  | 0, estimate => return estimate
  | fuel + 1, estimate => do
    let result ← pass rules estimate.table
    let next : Estimate := ⟨result.table, estimate.passes + 1⟩
    if result.changed then settle rules fuel next else return next

/-- The estimate, with every cost looked up in the table. -/
def estimate (rules : Rules) : Except Fault Estimate :=
  settle rules (rules.length + 1) ⟨start rules, 0⟩

variable {rules : Rules}

theorem ofRule_eq (table : CostTable Cost) (alternatives : List Expansion) :
    ofRule table alternatives =
      orMissing (Cost.ofRule table alternatives) (absent? table.keys (Rules.references alternatives)) := by
  rw [ofRule, mapM_orMissing (@CostTable.expansionCost?_eq table) alternatives, Rules.references]
  cases absent? table.keys (alternatives.flatMap Expansion.references) <;> rfl

theorem relaxRule_eq {state : Relaxation} {rule : String × List Expansion}
    (own : rule.1 ∈ state.table.keys) : relaxRule state rule =
      orMissing (Cost.relaxRule state rule) (absent? state.table.keys (Rules.references rule.2)) := by
  have known : absent? state.table.keys [rule.1] = none := by simpa [absent?_eq_none_iff] using own
  rw [relaxRule, ofRule_eq, CostTable.cost?_eq, known]
  cases absent? state.table.keys (Rules.references rule.2) <;> rfl

theorem foldlM_eq {rest : Rules} {state : Relaxation}
    (own : ∀ rule ∈ rest, rule.1 ∈ state.table.keys) : rest.foldlM relaxRule state =
      orMissing (rest.foldl Cost.relaxRule state) (absent? state.table.keys rest.allReferences) := by
  induction rest generalizing state with
  | nil => rfl
  | cons rule rest ih =>
    have first := own rule List.mem_cons_self
    have kept : (Cost.relaxRule state rule).table.keys = state.table.keys :=
      @keys_foldl [rule] state (by simpa using first)
    rw [List.foldlM_cons, relaxRule_eq first, Rules.allReferences, List.flatMap_cons, absent?_append]
    apply orMissing_bind
    rw [ih fun r inside => kept ▸ own r (List.mem_cons_of_mem rule inside), kept]
    rfl

theorem pass_eq {table : CostTable Cost} (same : table.keys = rules.keys) :
    pass rules table = orMissing (Cost.pass rules table) rules.undefined? := by
  rw [Rules.undefined?_eq, ← same]
  exact foldlM_eq fun rule inside => same ▸ List.mem_map_of_mem inside

theorem settle_eq (closed : rules.undefined? = none) (fuel : Nat) {estimate : Estimate}
    (same : estimate.table.keys = rules.keys) :
    settle rules fuel estimate = .ok (Cost.settle rules fuel estimate) := by
  induction fuel generalizing estimate with
  | zero => rfl
  | succ fuel ih =>
    rw [settle, pass_eq same, closed, Cost.settle]
    dsimp only [orMissing, bind, Except.bind]
    split
    · exact ih (keys_pass same)
    · rfl

/-- Lookups fail at the first name without a rule that is read, and only there. -/
theorem estimate_eq (rules : Rules) : estimate rules = Numbered.estimate? rules := by
  have same : (start rules).keys = rules.keys := by simp [start, Entries.keys]
  cases closed : rules.undefined? with
  | none =>
    rw [Numbered.estimate?, closed, Numbered.estimate_eq]
    exact settle_eq closed _ same
  | some name =>
    rw [Numbered.estimate?, closed, estimate, settle, pass_eq same, closed]
    rfl

end Cost.Checked
end GrammarSampler
