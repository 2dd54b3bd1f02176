import GrammarSampler.Grammar.Rules
import GrammarSampler.Tree.Basic

/-!
What rules derive: texts from sequences of symbols, and complete derivation trees. A name derives
exactly the texts of its complete trees.
-/
namespace GrammarSampler

namespace Rules

/-- Each symbol contributes its text: a terminal its own, a name that of one of its alternatives. -/
inductive Derives (rules : Rules) : List Symbol → List Char → Prop where
  | nil : Derives rules [] []
  | terminal {rest : List Symbol} {after : List Char} (text : String)
      (tail : Derives rules rest after) :
      Derives rules (.terminal text :: rest) (text.toList ++ after)
  | nonterminal {name : String} {alternatives : List Expansion} {e : Expansion}
      {rest : List Symbol} {here after : List Char}
      (rule : rules.get? name = some alternatives) (chosen : e ∈ alternatives)
      (head : Derives rules e.symbols here) (tail : Derives rules rest after) :
      Derives rules (.nonterminal name :: rest) (here ++ after)

theorem Derives.append {rules : Rules} {left right : List Symbol} {u v : List Char}
    (first : Derives rules left u) (second : Derives rules right v) :
    Derives rules (left ++ right) (u ++ v) := by
  induction first with
  | nil => exact second
  | terminal text _ ih => simpa using Derives.terminal text ih
  | nonterminal rule chosen head _ _ ih => simpa using Derives.nonterminal rule chosen head ih

@[simp] theorem derives_nil_iff {rules : Rules} {w : List Char} : Derives rules [] w ↔ w = [] := by
  constructor
  · intro h; cases h; rfl
  · rintro rfl; exact .nil

@[simp] theorem derives_terminal_iff {rules : Rules} {text : String} {w : List Char} :
    Derives rules [.terminal text] w ↔ w = text.toList := by
  constructor
  · intro h
    cases h with
    | terminal text tail => simp [derives_nil_iff.mp tail]
  · rintro rfl
    simpa using Derives.terminal text .nil

theorem derives_nonterminal_iff {rules : Rules} {name : String} {w : List Char} :
    Derives rules [.nonterminal name] w ↔
      ∃ alternatives, rules.get? name = some alternatives ∧
        ∃ e ∈ alternatives, Derives rules e.symbols w := by
  constructor
  · intro h
    cases h with
    | nonterminal rule chosen head tail =>
      exact ⟨_, rule, _, chosen, by simpa [derives_nil_iff.mp tail] using head⟩
  · rintro ⟨alternatives, rule, e, chosen, head⟩
    simpa using Derives.nonterminal rule chosen head .nil

end Rules

namespace Tree

@[elab_as_elim]
theorem induct {motive : Tree → Prop} (leaf : ∀ symbol, motive (.leaf symbol))
    (node : ∀ name alternative children, (∀ c ∈ children, motive c) →
      motive (.node name alternative children)) : ∀ t, motive t
  | .leaf symbol => leaf symbol
  | .node name alternative children =>
    node name alternative children fun c _ => induct leaf node c

/-- A complete derivation tree: no name is open, every node records an alternative of its own rule,
and the symbols of its children are those of the alternative, in order. -/
inductive IsDerivation (rules : Rules) : Tree → Prop where
  | terminal (text : String) : IsDerivation rules (.leaf (.terminal text))
  | node {name : String} {index : Nat} {alternatives : List Expansion} {e : Expansion}
      {children : List Tree} (rule : rules.get? name = some alternatives)
      (chosen : alternatives[index]? = some e) (shape : children.map symbol = e.symbols)
      (below : ∀ c ∈ children, IsDerivation rules c) :
      IsDerivation rules (.node name index children)

theorem leafSymbol?_node (name : String) (alternative : Int) (children : List Tree) :
    (node name alternative children).leafSymbol? = none := rfl

theorem filterMap_walk (depth : Nat) (t : Tree) :
    ((t.walk depth).filterMap fun (_, t) => t.leafSymbol?) = t.frontier := by
  rw [frontier, nodes_eq_walk]
  induction t using Tree.induct generalizing depth with
  | leaf symbol => rfl
  | node name alternative children ih =>
    have below : ∀ d, children.flatMap (fun c => (c.walk d).filterMap fun (_, t) => t.leafSymbol?) =
        children.flatMap fun c => (c.walk 0).filterMap fun (_, t) => t.leafSymbol? := by
      intro d
      simp only [List.flatMap]
      rw [List.map_congr_left fun c inside => ih c inside d]
    simp only [walk, walkAll_eq_flatMap, List.filterMap_cons, leafSymbol?_node,
      List.filterMap_flatMap, List.flatMap_map, below]

@[simp] theorem frontier_leaf (symbol : Symbol) : (leaf symbol).frontier = [symbol] := by
  simp [frontier, nodes_eq_walk, walk, leafSymbol?]

@[simp] theorem frontier_node (name : String) (alternative : Int) (children : List Tree) :
    (node name alternative children).frontier = children.flatMap frontier := by
  rw [frontier, nodes_eq_walk, walk, walkAll_eq_flatMap]
  simp only [List.filterMap_cons, leafSymbol?_node, List.filterMap_flatMap, List.flatMap_map,
    filterMap_walk]

def yield (t : Tree) : List Char := t.frontier.flatMap fun symbol => (symbolText symbol).toList

theorem toList_sententialForm (t : Tree) : t.sententialForm.toList = t.yield := by
  simp [sententialForm, yield, List.flatMap_map]

@[simp] theorem yield_node (name : String) (alternative : Int) (children : List Tree) :
    (node name alternative children).yield = children.flatMap yield := by
  rw [yield, frontier_node, List.flatMap_assoc]
  rfl

@[simp] theorem yield_terminal (text : String) : (leaf (.terminal text)).yield = text.toList := by
  simp [yield, symbolText]

namespace IsDerivation
variable {rules : Rules} {t : Tree}

theorem frontier_terminal (h : t.IsDerivation rules) : ∀ s ∈ t.frontier, s.name? = none := by
  induction h with
  | terminal text => simp [Symbol.name?]
  | node _ _ _ _ ih =>
    intro s inside
    rw [frontier_node, List.mem_flatMap] at inside
    obtain ⟨c, mem, inside⟩ := inside
    exact ih c mem s inside

theorem text?_eq (h : t.IsDerivation rules) : t.text? = .ok t.sententialForm := by
  have closed : t.frontier.findSome? Symbol.name? = none := by
    rw [List.findSome?_eq_none_iff]
    exact h.frontier_terminal
  rw [text?_eq_frontier, closed]
  rfl

end IsDerivation

theorem derives_flatMap_yield {rules : Rules} {children : List Tree}
    (each : ∀ c ∈ children, rules.Derives [c.symbol] c.yield) :
    rules.Derives (children.map symbol) (children.flatMap yield) := by
  induction children with
  | nil => exact .nil
  | cons c rest ih =>
    have first := each c List.mem_cons_self
    have later := ih fun d inside => each d (List.mem_cons_of_mem c inside)
    exact first.append later

theorem IsDerivation.derives {rules : Rules} {t : Tree} (h : t.IsDerivation rules) :
    rules.Derives [t.symbol] t.yield := by
  induction h with
  | terminal text => simp [symbol]
  | node rule chosen shape _ ih =>
    rw [symbol, yield_node, Rules.derives_nonterminal_iff]
    refine ⟨_, rule, _, List.mem_of_getElem? chosen, ?_⟩
    rw [← shape]
    exact derives_flatMap_yield ih

theorem exists_trees {rules : Rules} {symbols : List Symbol} {w : List Char}
    (h : rules.Derives symbols w) :
    ∃ children : List Tree, children.map symbol = symbols ∧
      (∀ c ∈ children, c.IsDerivation rules) ∧ children.flatMap yield = w := by
  induction h with
  | nil => exact ⟨[], rfl, by simp, rfl⟩
  | terminal text _ ih =>
    obtain ⟨children, shape, below, spelled⟩ := ih
    refine ⟨.leaf (.terminal text) :: children, by simp [shape, symbol], ?_, by simp [spelled]⟩
    intro c inside
    rcases List.mem_cons.mp inside with rfl | later
    · exact .terminal text
    · exact below c later
  | @nonterminal name _ _ _ _ _ rule chosen _ _ ihHead ihTail =>
    obtain ⟨inner, innerShape, innerBelow, innerSpelled⟩ := ihHead
    obtain ⟨children, shape, below, spelled⟩ := ihTail
    obtain ⟨index, found⟩ := List.mem_iff_getElem?.mp chosen
    refine ⟨.node name index inner :: children, by simp [shape, symbol], ?_,
      by simp [spelled, innerSpelled]⟩
    intro c inside
    rcases List.mem_cons.mp inside with rfl | later
    · exact .node rule found innerShape innerBelow
    · exact below c later

/-- A name derives the texts of its complete trees and no others. -/
theorem derives_iff_tree {rules : Rules} {name : String} {w : List Char} :
    rules.Derives [.nonterminal name] w ↔
      ∃ t : Tree, t.IsDerivation rules ∧ t.symbol = .nonterminal name ∧ t.yield = w := by
  constructor
  · intro h
    obtain ⟨children, shape, below, spelled⟩ := exists_trees h
    obtain ⟨t, rfl, root⟩ := List.map_eq_singleton_iff.mp shape
    exact ⟨t, below t (List.mem_singleton_self t), root, by simpa using spelled⟩
  · rintro ⟨t, h, root, rfl⟩
    exact root ▸ h.derives

end Tree
end GrammarSampler
