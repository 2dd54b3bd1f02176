import GrammarSampler.Proofs.Tree.Growing

/-!
The tree of a growth. It is made from the last name to the first, and a growth that follows the
rules has a complete derivation tree once no name is open.
-/
namespace GrammarSampler.Growth

def treesOf (count : Nat) (last : List Bud) : Array Tree :=
  last.foldr (fun b found => found.push (b.tree fun i => found.getD (count - 1 - i) default)) #[]

theorem trees_eq (names : Array Bud) : trees names = treesOf names.size names.toList := by
  simp [trees, treesOf]

theorem size_treesOf (count : Nat) (last : List Bud) : (treesOf count last).size = last.length := by
  induction last with
  | nil => rfl
  | cons b rest ih => simpa [treesOf] using ih

theorem treesOf_append (count : Nat) (first last : List Bud) {k : Nat} (inside : k < last.length) :
    (treesOf count (first ++ last))[k]? = (treesOf count last)[k]? := by
  induction first with
  | nil => rfl
  | cons b rest ih =>
    have push : treesOf count (b :: rest ++ last) = (treesOf count (rest ++ last)).push
      (b.tree fun i => (treesOf count (rest ++ last)).getD (count - 1 - i) default) := rfl
    rw [push, Array.getElem?_push_lt (by rw [size_treesOf, List.length_append]; omega), ← ih]
    rw [Array.getElem?_eq_getElem]

def treeAt (names : Array Bud) (i : Nat) : Tree := (trees names).getD (names.size - 1 - i) default

theorem treeAt_eq {names : Array Bud} {i : Nat} {b : Bud} (found : names[i]? = some b) :
    ∃ later, treeAt names i = b.tree later ∧
      ∀ k, i < k → k < names.size → later k = treeAt names k := by
  obtain ⟨inside, here⟩ := Array.getElem?_eq_some_iff.mp found
  have split : names.toList = names.toList.take i ++ b :: names.toList.drop (i + 1) := by
    rw [← here, ← Array.getElem_toList inside, ← List.drop_eq_getElem_cons, List.take_append_drop]
  generalize names.toList.take i = first at split
  generalize rest_eq : names.toList.drop (i + 1) = rest at split
  have length : rest.length = names.size - 1 - i := by
    rw [← rest_eq, List.length_drop, Array.length_toList]
    omega
  refine ⟨fun k => (treesOf names.size rest).getD (names.size - 1 - k) default, ?_, ?_⟩
  · have push : treesOf names.size (b :: rest) = (treesOf names.size rest).push
      (b.tree fun k => (treesOf names.size rest).getD (names.size - 1 - k) default) := rfl
    rw [treeAt, trees_eq, split, Array.getD_eq_getD_getElem?, ← length,
      treesOf_append _ _ _ (by simp), push, ← size_treesOf names.size rest,
      Array.getElem?_push_size]
    rfl
  · intro k above below
    have all : first ++ b :: rest = first ++ [b] ++ rest := by simp
    dsimp only
    rw [treeAt, trees_eq, split, all, Array.getD_eq_getD_getElem?, Array.getD_eq_getD_getElem?,
      treesOf_append _ _ _ (by omega)]

theorem tree_eq (g : Growth) : g.tree = treeAt g.names 0 := by
  have size : (trees g.names).size = g.names.size := by
    rw [trees_eq, size_treesOf, Array.length_toList]
  rw [tree, treeAt, Array.back?_eq_getElem?, size, Array.getD_eq_getD_getElem?]
  rfl

theorem symbol_tree (later : Nat → Tree) (b : Bud) : (b.tree later).symbol = .nonterminal b.name := by
  unfold Bud.tree
  cases b.expanded <;> rfl

theorem treesFrom_each {P : Tree → Prop} (terminal : ∀ text, P (.leaf (.terminal text)))
    {later : Nat → Tree} {symbols : List Symbol} {first : Nat}
    (below : ∀ (k : Nat) (used : String), (symbols.filterMap Symbol.name?)[k]? = some used →
      (later (first + k)).symbol = .nonterminal used ∧ P (later (first + k))) :
    (Bud.treesFrom later first symbols).map Tree.symbol = symbols ∧
      ∀ c ∈ Bud.treesFrom later first symbols, P c := by
  induction symbols generalizing first with
  | nil => exact ⟨rfl, fun c inside => nomatch inside⟩
  | cons s rest ih =>
    cases s with
    | terminal text =>
      obtain ⟨shape, each⟩ := ih below
      refine ⟨by simp [Bud.treesFrom, Tree.symbol, shape], fun c inside => ?_⟩
      rcases List.mem_cons.mp inside with rfl | tail
      · exact terminal text
      · exact each c tail
    | nonterminal name =>
      have head := below 0 name rfl
      have tail : ∀ (k : Nat) (used : String), (rest.filterMap Symbol.name?)[k]? = some used →
          (later (first + 1 + k)).symbol = .nonterminal used ∧ P (later (first + 1 + k)) := by
        intro k used named
        have next := below (k + 1) used named
        rwa [show first + (k + 1) = first + 1 + k by omega] at next
      obtain ⟨shape, each⟩ := ih tail
      refine ⟨by simpa [Bud.treesFrom, shape] using head.1, fun c inside => ?_⟩
      rcases List.mem_cons.mp inside with rfl | behind
      · exact head.2
      · exact each c behind

theorem toList_of_isComplete {g : Growth} (complete : g.isComplete = true) :
    g.worklist.toList = [] := by
  rw [← List.length_eq_zero_iff, Worklist.length_toList]
  simpa [isComplete, Worklist.isEmpty, Worklist.size] using complete

namespace Follows
variable {rules : Rules} {start : String} {g : Growth}

/-- Without open names, whatever holds of terminals and passes from the trees below an expanded name
to its own tree holds of the trees of all names. -/
theorem treeAt_of_nodes (h : Follows rules start g) (complete : g.isComplete = true)
    {P : Tree → Prop} (terminal : ∀ text, P (.leaf (.terminal text)))
    (node : ∀ {i index : Nat} {b : Bud} {x : Expanded} {alternatives : List Expansion}
      {e : Expansion} {children : List Tree}, g.names[i]? = some b → b.expanded = some x →
      rules.get? b.name = some alternatives → alternatives[index]? = some e →
      x.symbols = e.symbols → children.map Tree.symbol = e.symbols → (∀ c ∈ children, P c) →
      P (.node b.name index children))
    {i : Nat} {b : Bud} (found : g.names[i]? = some b) :
    (treeAt g.names i).symbol = .nonterminal b.name ∧ P (treeAt g.names i) := by
  -- An alternative refers to later names only, so the induction is on how many there are.
  generalize behind : g.names.size - i = n
  induction n using Nat.strongRecOn generalizing i b with
  | ind n ih =>
    obtain ⟨later, made, agree⟩ := treeAt_eq found
    rw [made]
    refine ⟨symbol_tree later b, ?_⟩
    cases expanded : b.expanded with
    | none =>
      have inside := (h.opened i).mpr ⟨b, found, expanded⟩
      rw [toList_of_isComplete complete] at inside
      cases inside
    | some x =>
      obtain ⟨⟨index, alternatives, e, label, rule, chosen, symbols⟩, after, below⟩ :=
        h.recorded i b x found expanded
      have place := (Array.getElem?_eq_some_iff.mp found).1
      have each : ∀ (k : Nat) (used : String), (x.symbols.filterMap Symbol.name?)[k]? = some used →
          (later (x.first + k)).symbol = .nonterminal used ∧ P (later (x.first + k)) := by
        intro k used named
        obtain ⟨c, there, rfl⟩ := below k used named
        have bound := (Array.getElem?_eq_some_iff.mp there).1
        rw [agree (x.first + k) (by omega) bound]
        exact ih (g.names.size - (x.first + k)) (by omega) there rfl
      obtain ⟨shape, trees⟩ := treesFrom_each terminal each
      unfold Bud.tree
      rw [expanded]
      dsimp only
      rw [label]
      exact node found expanded rule chosen symbols (shape.trans symbols) trees

theorem treeAt_isDerivation (h : Follows rules start g) (complete : g.isComplete = true) {i : Nat}
    {b : Bud} (found : g.names[i]? = some b) : (treeAt g.names i).symbol = .nonterminal b.name ∧
      (treeAt g.names i).IsDerivation rules :=
  h.treeAt_of_nodes complete .terminal (fun _ _ rule chosen _ shape below =>
    .node rule chosen shape below) found

theorem isDerivation (h : Follows rules start g) (complete : g.isComplete = true) :
    g.tree.IsDerivation rules ∧ g.tree.symbol = .nonterminal start := by
  obtain ⟨b, first, rfl⟩ := h.root
  rw [tree_eq]
  exact (h.treeAt_isDerivation complete first).symm

end Follows
end GrammarSampler.Growth
