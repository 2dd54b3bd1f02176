import GrammarSampler.Proofs.Grammar.Derivation
import Mathlib.Data.Finset.Card

/-!
Levels of names: a name closes within `k` levels if one of its alternatives uses only names that
close within one level less. These are the names with a complete tree of height at most `k`, and
there are no more levels than rules.
-/
namespace GrammarSampler

namespace Expansion

theorem mem_references {e : Expansion} {name : String} :
    name ∈ e.references ↔ Symbol.nonterminal name ∈ e.symbols := by
  simp only [references, List.mem_filterMap]
  constructor
  · rintro ⟨symbol, inside, named⟩
    cases symbol with
    | terminal text => simp [Symbol.name?] at named
    | nonterminal used =>
      simp only [Symbol.name?, Option.some.injEq] at named
      exact named ▸ inside
  · intro inside
    exact ⟨_, inside, rfl⟩

end Expansion

namespace Rules

/-- One alternative leads to terminals within `k` nested expansions. -/
def ClosesIn (rules : Rules) : Nat → String → Prop
  | 0, _ => False
  | k + 1, name => ∃ alternatives, rules.get? name = some alternatives ∧
      ∃ e ∈ alternatives, ∀ used ∈ e.references, ClosesIn rules k used

variable {rules : Rules} {name : String} {j k : Nat}

theorem ClosesIn.succ (h : rules.ClosesIn k name) : rules.ClosesIn (k + 1) name := by
  induction k generalizing name with
  | zero => exact False.elim h
  | succ k ih =>
    obtain ⟨alternatives, rule, e, chosen, below⟩ := h
    exact ⟨alternatives, rule, e, chosen, fun used inside => ih (below used inside)⟩

theorem ClosesIn.mono (h : rules.ClosesIn j name) (le : j ≤ k) : rules.ClosesIn k name := by
  induction le with
  | refl => exact h
  | step _ ih => exact ih.succ

theorem ClosesIn.defined (h : rules.ClosesIn k name) : name ∈ rules.keys := by
  cases k with
  | zero => exact False.elim h
  | succ k =>
    obtain ⟨alternatives, rule, _⟩ := h
    rw [← Entries.get?_isSome_iff, rule]
    rfl

theorem closesIn_of_stable (stable : ∀ name, rules.ClosesIn (j + 1) name → rules.ClosesIn j name)
    (h : rules.ClosesIn k name) : rules.ClosesIn j name := by
  induction k generalizing name with
  | zero => exact False.elim h
  | succ k ih =>
    obtain ⟨alternatives, rule, e, chosen, below⟩ := h
    exact stable name ⟨alternatives, rule, e, chosen, fun used inside => ih (below used inside)⟩

open Classical in
noncomputable def level (rules : Rules) (k : Nat) : Finset String :=
  rules.keys.toFinset.filter (rules.ClosesIn k)

open Classical in
theorem mem_level : name ∈ rules.level k ↔ rules.ClosesIn k name := by
  simp only [level, Finset.mem_filter, List.mem_toFinset]
  exact ⟨And.right, fun h => ⟨h.defined, h⟩⟩

/-- Every level up to `k` has added a name, unless one before it has added none. -/
theorem level_card (rules : Rules) (k : Nat) :
    (∃ j < k, ∀ name, rules.ClosesIn (j + 1) name → rules.ClosesIn j name) ∨
      k ≤ (rules.level k).card := by
  induction k with
  | zero => exact .inr (Nat.zero_le _)
  | succ k ih =>
    by_cases stable : ∀ name, rules.ClosesIn (k + 1) name → rules.ClosesIn k name
    · exact .inl ⟨k, Nat.lt_succ_self k, stable⟩
    · rcases ih with ⟨j, before, settled⟩ | grown
      · exact .inl ⟨j, Nat.lt_succ_of_lt before, settled⟩
      · right
        push Not at stable
        obtain ⟨name, now, new⟩ := stable
        have larger : rules.level k ⊂ rules.level (k + 1) := by
          refine Finset.ssubset_iff_of_subset ?_ |>.mpr ⟨name, mem_level.mpr now, ?_⟩
          · intro used inside
            exact mem_level.mpr (mem_level.mp inside).succ
          · exact fun inside => new (mem_level.mp inside)
        have := Finset.card_lt_card larger
        omega

theorem ClosesIn.length (h : rules.ClosesIn k name) : rules.ClosesIn rules.length name := by
  rcases level_card rules (rules.length + 1) with ⟨j, before, stable⟩ | grown
  · exact (closesIn_of_stable stable h).mono (Nat.le_of_lt_succ before)
  · have few : (rules.level (rules.length + 1)).card ≤ rules.length := by
      classical
      calc (rules.level (rules.length + 1)).card
          ≤ rules.keys.toFinset.card := Finset.card_le_card (Finset.filter_subset _ _)
        _ ≤ rules.keys.length := rules.keys.toFinset_card_le
        _ = rules.length := by simp [Entries.keys]
    omega

end Rules

namespace Tree

theorem heightAll_le_iff {children : List Tree} {k : Nat} :
    heightAll children ≤ k ↔ ∀ c ∈ children, c.height ≤ k := by
  induction children with
  | nil => simp [heightAll]
  | cons c rest ih =>
    have split : heightAll (c :: rest) = max c.height (heightAll rest) := rfl
    simp [split, ih]

theorem IsDerivation.closesIn {rules : Rules} {t : Tree} {name : String}
    (h : t.IsDerivation rules) (root : t.symbol = .nonterminal name) :
    rules.ClosesIn t.height name := by
  induction h generalizing name with
  | terminal text => simp [symbol] at root
  | @node _ index alternatives e children rule chosen shape _ ih =>
    obtain rfl : _ = name := by simpa [symbol] using root
    refine ⟨alternatives, rule, e, List.mem_of_getElem? chosen, ?_⟩
    intro used inside
    rw [Expansion.mem_references, ← shape, List.mem_map] at inside
    obtain ⟨c, mem, named⟩ := inside
    exact (ih c mem named).mono (heightAll_le_iff.mp (Nat.le_refl _) c mem)

theorem exists_children {P : Tree → Prop} {symbols : List Symbol}
    (each : ∀ s ∈ symbols, ∃ t : Tree, t.symbol = s ∧ P t) :
    ∃ children : List Tree, children.map symbol = symbols ∧ ∀ c ∈ children, P c := by
  induction symbols with
  | nil => exact ⟨[], rfl, by simp⟩
  | cons s rest ih =>
    obtain ⟨t, root, holds⟩ := each s List.mem_cons_self
    obtain ⟨children, shape, all⟩ := ih fun r inside => each r (List.mem_cons_of_mem s inside)
    refine ⟨t :: children, by simp [root, shape], ?_⟩
    intro c inside
    rcases List.mem_cons.mp inside with rfl | later
    · exact holds
    · exact all c later

theorem exists_of_closesIn {rules : Rules} {k : Nat} {name : String}
    (h : rules.ClosesIn k name) :
    ∃ t : Tree, t.symbol = .nonterminal name ∧ t.IsDerivation rules ∧ t.height ≤ k := by
  induction k generalizing name with
  | zero => exact False.elim h
  | succ k ih =>
    obtain ⟨alternatives, rule, e, chosen, below⟩ := h
    obtain ⟨index, found⟩ := List.mem_iff_getElem?.mp chosen
    have each : ∀ s ∈ e.symbols, ∃ t : Tree, t.symbol = s ∧ t.IsDerivation rules ∧ t.height ≤ k := by
      intro s inside
      cases s with
      | terminal text => exact ⟨_, rfl, .terminal text, Nat.zero_le k⟩
      | nonterminal used => exact ih (below used (Expansion.mem_references.mpr inside))
    obtain ⟨children, shape, all⟩ := exists_children each
    refine ⟨.node name index children, rfl, .node rule found shape fun c inside => (all c inside).1, ?_⟩
    exact Nat.succ_le_succ (heightAll_le_iff.mpr fun c inside => (all c inside).2)

/-- Levels are heights: a name closes within `k` levels if it has a complete tree no higher. -/
theorem closesIn_iff {rules : Rules} {k : Nat} {name : String} :
    rules.ClosesIn k name ↔
      ∃ t : Tree, t.IsDerivation rules ∧ t.symbol = .nonterminal name ∧ t.height ≤ k := by
  constructor
  · intro h
    obtain ⟨t, root, complete, low⟩ := exists_of_closesIn h
    exact ⟨t, complete, root, low⟩
  · rintro ⟨t, complete, root, low⟩
    exact (complete.closesIn root).mono low

end Tree
end GrammarSampler
