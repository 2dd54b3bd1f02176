import GrammarSampler.Proofs.Tree.Order

/-!
Trees grown from a start name by expansions at positions of the worklist, whatever the expansions
are. The worklist holds the open leaves of the tree from left to right, depths are distances from
the root, and an expansion changes the frontier at the selected name only.
-/
namespace GrammarSampler.Growth

inductive Grown (start : String) : Growth → Prop where
  | start : Grown start (.start start)
  | expand {g next : Growth} {position alternative : Int} {e : Expansion} (before : Grown start g)
      (lower : 0 ≤ position) (upper : position < g.openCount)
      (step : g.expand? position alternative e = .ok next) : Grown start next

def leafAt (g : Growth) : Place → Option Symbol
  | .text t => some (.terminal t)
  | .name i => if (g.bud i).isOpen then some (.nonterminal (g.bud i).name) else none

def node (g : Growth) (here : Nat × Place) : Nat × Tree := (here.1, here.2.tree (treeAt g.names))

def leaves (g : Growth) (places : List (Nat × Place)) : List Symbol :=
  places.filterMap fun (_, q) => g.leafAt q

theorem names_leaves (g : Growth) (places : List (Nat × Place)) :
    (g.leaves places).filterMap Symbol.name? =
      (g.numbersOf Bud.isOpen places).map fun i => (g.bud i).name := by
  rw [leaves, numbersOf, numbers]
  induction places with
  | nil => rfl
  | cons here rest ih =>
    obtain ⟨d, q⟩ := here
    cases q with
    | text t => exact ih
    | name i =>
      cases unexpanded : (g.bud i).isOpen with
      | true => simpa [leafAt, Symbol.name?, Place.number?, unexpanded] using ih
      | false => simpa [leafAt, Symbol.name?, Place.number?, unexpanded] using ih

section Leaves
variable {g : Growth} {number p : Nat} {alternative : Int} {e : Expansion}

end Leaves

namespace Ordered
variable {g : Growth} {number p : Nat} {alternative : Int} {e : Expansion}

theorem expand?_eq (place : g.worklist.toList[p]? = some number) :
    g.expand? p alternative e = .ok (g.expandNumber number p alternative e) := by
  rw [expand?, number?_natCast.mpr place]
  rfl

theorem place_of_bounds {position : Int} (lower : 0 ≤ position) (upper : position < g.openCount) :
    ∃ (p number : Nat), position = p ∧ g.worklist.toList[p]? = some number := by
  obtain ⟨p, rfl⟩ := Int.eq_ofNat_of_zero_le lower
  have inside : p < g.worklist.toList.length := by
    rw [Worklist.length_toList]
    exact Int.ofNat_lt.mp upper
  exact ⟨p, _, rfl, List.getElem?_eq_getElem inside⟩

theorem of_grown {start : String} (grown : Grown start g) : Ordered g := by
  induction grown with
  | start => exact .start _
  | expand _ lower upper step ih =>
    obtain ⟨p, number, rfl, place⟩ := place_of_bounds lower upper
    rw [expand?_eq place, Except.ok.injEq] at step
    exact step ▸ ih.expand place

section Trees
variable (h : Ordered g)
include h

theorem rooted : 0 < g.names.size := by
  refine h.known 0 (mem_numbers.mpr ⟨0, ?_⟩)
  rw [walk, h.linked.walkFrom_eq]
  exact List.mem_cons_self

theorem nodes_eq : g.tree.nodes = g.walk.map g.node := by
  rw [tree_eq, Tree.nodes_eq_walk]
  refine h.linked.walk_tree (.name 0) (fun i same => ?_) 0
  cases same
  exact h.rooted

theorem node_cases {d : Nat} {q : Place} (inside : (d, q) ∈ g.walk) :
    (∃ t, q = .text t ∧ g.node (d, q) = (d, .leaf (.terminal t))) ∨
      ∃ i, q = .name i ∧
        g.node (d, q) = ((g.bud i).depth, (g.bud i).tree (treeAt g.names)) := by
  cases q with
  | text t => exact .inl ⟨t, rfl, rfl⟩
  | name i =>
    have found := Array.getElem?_eq_getElem (h.known i (mem_numbers.mpr ⟨d, inside⟩))
    refine .inr ⟨i, rfl, ?_⟩
    rw [h.depth d i inside, bud_eq found, ← h.linked.treeAt_eq_tree found]
    rfl

theorem frontier_eq : g.tree.frontier = g.leaves g.walk := by
  rw [Tree.frontier, h.nodes_eq, List.filterMap_map]
  refine List.filterMap_congr ?_
  rintro ⟨d, q⟩ inside
  rcases h.node_cases inside with ⟨t, rfl, -⟩ | ⟨i, rfl, same⟩
  · rfl
  · rw [Function.comp_apply, same]
    dsimp only
    rw [leafAt, Bud.tree, Bud.isOpen]
    cases (g.bud i).expanded <;> rfl

theorem names_frontier : g.tree.frontier.filterMap Symbol.name? = g.buds.map Bud.name := by
  rw [h.frontier_eq, names_leaves, ← h.worklist, buds, List.map_map]
  rfl

theorem text?_eq : g.tree.text? =
    match g.buds with
    | [] => .ok g.tree.sententialForm
    | b :: _ => .error (.generation (.treeOpen b.name)) := by
  have names := h.names_frontier
  rw [Tree.text?_eq_frontier, ← List.head?_filterMap, names]
  cases g.buds <;> rfl

theorem filter_nodes {keep : Tree → Bool} {kind : Bud → Bool}
    (texts : ∀ t, keep (.leaf (.terminal t)) = false)
    (names : ∀ (b : Bud) (trees : Nat → Tree), keep (b.tree trees) = kind b) :
    (g.tree.nodes.filter fun n => keep n.2) = (g.numbersOf kind g.walk).map fun i =>
      ((g.bud i).depth, (g.bud i).tree (treeAt g.names)) := by
  rw [h.nodes_eq]
  suffices part : ∀ places : List (Nat × Place), (∀ here ∈ places, here ∈ g.walk) →
      ((places.map g.node).filter fun n => keep n.2) = (g.numbersOf kind places).map fun i =>
        ((g.bud i).depth, (g.bud i).tree (treeAt g.names)) from part g.walk fun _ inside => inside
  intro places walked
  induction places with
  | nil => rfl
  | cons here rest ih =>
    obtain ⟨d, q⟩ := here
    have later := ih fun there inside => walked there (List.mem_cons_of_mem _ inside)
    rcases h.node_cases (walked (d, q) List.mem_cons_self) with ⟨t, rfl, same⟩ | ⟨i, rfl, same⟩
    · rw [List.map_cons, same, List.filter_cons_of_neg (by simp [texts]), later]
      rfl
    · rw [List.map_cons, same, List.filter_cons, names, numbersOf_cons_name, later]
      split <;> rfl

theorem openNodes_eq : (g.tree.nodes.filter fun n => n.2.isOpen) =
    g.buds.map fun b => (b.depth, .leaf (.nonterminal b.name)) := by
  have kinds : ∀ (b : Bud) (trees : Nat → Tree), (b.tree trees).isOpen = b.isOpen := by
    intro b trees
    rw [Bud.tree, Bud.isOpen]
    cases b.expanded <;> rfl
  rw [@filter_nodes g h Tree.isOpen _ (fun _ => rfl) kinds, buds, h.worklist, List.map_map]
  refine List.map_congr_left fun i inside => ?_
  rw [← h.worklist] at inside
  simp [Bud.tree, (h.isOpen_of_mem inside).2]

end Trees
end Ordered

def pairExpansion : Expansion := .unweighted [.nonterminal "A", .terminal "+", .nonterminal "B"]

def wordExpansion : Expansion := .unweighted [.terminal "b"]

end GrammarSampler.Growth
