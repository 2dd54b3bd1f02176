import GrammarSampler.Proofs.Tree.Complete

/-!
The walk through a growing tree. Its places are texts and numbered names, and the names alone tell
it; with the trees of the names it is the walk of the tree. An expansion puts the places of its
symbols right behind the expanded name and moves nothing else.
-/
namespace GrammarSampler.Growth

/-- What stands at a place of a growing tree: a text, or a name by its number. -/
inductive Place where
  | text (text : String)
  | name (number : Nat)
deriving DecidableEq

namespace Place

def number? : Place → Option Nat
  | text _ => none
  | name i => some i

def tree (trees : Nat → Tree) : Place → Tree
  | text t => .leaf (.terminal t)
  | name i => trees i

def ofSymbols (first : Nat) : List Symbol → List Place
  | [] => []
  | .terminal t :: rest => text t :: ofSymbols first rest
  | .nonterminal _ :: rest => name first :: ofSymbols (first + 1) rest

def rank (size : Nat) : Place → Nat
  | text _ => 0
  | name i => size + 1 - i

theorem treesFrom_eq (later : Nat → Tree) (first : Nat) (symbols : List Symbol) :
    Bud.treesFrom later first symbols = (ofSymbols first symbols).map (tree later) := by
  induction symbols generalizing first with
  | nil => rfl
  | cons s rest ih => cases s <;> simp [Bud.treesFrom, ofSymbols, tree, ih]

theorem numbers_ofSymbols (first : Nat) (symbols : List Symbol) :
    (ofSymbols first symbols).filterMap number? =
      List.range' first (symbols.filterMap Symbol.name?).length := by
  induction symbols generalizing first with
  | nil => rfl
  | cons s rest ih =>
    cases s with
    | terminal t => exact ih first
    | nonterminal used => simpa [ofSymbols, number?, Symbol.name?, List.range'_succ] using ih (first + 1)

theorem mem_numbers {places : List Place} {i : Nat} :
    i ∈ places.filterMap number? ↔ name i ∈ places := by
  simp only [List.mem_filterMap]
  constructor
  · rintro ⟨q, inside, numbered⟩
    cases q with
    | text t => cases numbered
    | name j =>
      cases numbered
      exact inside
  · intro inside
    exact ⟨_, inside, rfl⟩

theorem name_mem_ofSymbols {first j : Nat} {symbols : List Symbol}
    (inside : name j ∈ ofSymbols first symbols) :
    first ≤ j ∧ j < first + (symbols.filterMap Symbol.name?).length := by
  rw [← mem_numbers, numbers_ofSymbols] at inside
  exact List.mem_range'_1.mp inside

end Place

def below (names : Array Bud) : Place → List Place
  | .text _ => []
  | .name i =>
    match names[i]?.bind Bud.expanded with
    | none => []
    | some x => Place.ofSymbols x.first x.symbols

/-- All places from one on, each with its distance from the root: parents first and children from
left to right. Only places of lower rank are followed. -/
def walkFrom (names : Array Bud) (depth : Nat) (q : Place) : List (Nat × Place) :=
  (depth, q) :: (below names q).flatMap fun r =>
    if r.rank names.size < q.rank names.size then walkFrom names (depth + 1) r else []
termination_by q.rank names.size

def walk (g : Growth) : List (Nat × Place) := walkFrom g.names 0 (.name 0)

def numbers (places : List (Nat × Place)) : List Nat := places.filterMap fun (_, q) => q.number?

def Linked (names : Array Bud) : Prop :=
  ∀ i j, .name j ∈ below names (.name i) → i < j ∧ j < names.size

section Below
variable {names : Array Bud} {i : Nat} {b : Bud}

theorem below_open (found : names[i]? = some b) (unexpanded : b.expanded = none) :
    below names (.name i) = [] := by
  simp [below, found, unexpanded]

theorem below_expanded {x : Expanded} (found : names[i]? = some b)
    (expanded : b.expanded = some x) :
    below names (.name i) = Place.ofSymbols x.first x.symbols := by
  simp [below, found, expanded]

theorem below_congr {others : Array Bud} (same : names[i]? = others[i]?) :
    below names (.name i) = below others (.name i) := by
  simp [below, same]

theorem size_of_below {q : Place} (inside : q ∈ below names (.name i)) : i < names.size := by
  by_contra outside
  have none : names[i]? = none := Array.getElem?_eq_none (Nat.le_of_not_lt outside)
  simp [below, none] at inside

end Below

namespace Linked
variable {names : Array Bud} (linked : Linked names)
include linked

theorem rank_lt {q r : Place} (inside : r ∈ below names q) :
    r.rank names.size < q.rank names.size := by
  cases q with
  | text t => cases inside
  | name i =>
    have place := size_of_below inside
    cases r with
    | text t =>
      simp only [Place.rank]
      omega
    | name j =>
      have later := linked i j inside
      simp only [Place.rank]
      omega

@[elab_as_elim]
theorem induct {motive : Place → Prop} (step : ∀ q, (∀ r ∈ below names q, motive r) → motive q) :
    ∀ q, motive q := by
  intro q
  generalize behind : q.rank names.size = n
  induction n using Nat.strongRecOn generalizing q with
  | ind n ih =>
    refine step q fun r inside => ih _ ?_ r rfl
    rw [← behind]
    exact linked.rank_lt inside

theorem walkFrom_eq (depth : Nat) (q : Place) :
    walkFrom names depth q = (depth, q) :: (below names q).flatMap (walkFrom names (depth + 1)) := by
  rw [walkFrom, List.cons.injEq]
  exact ⟨rfl, List.flatMap_congr fun r inside => if_pos (linked.rank_lt inside)⟩

theorem walkFrom_open {i : Nat} {b : Bud} (found : names[i]? = some b)
    (unexpanded : b.expanded = none) (depth : Nat) :
    walkFrom names depth (.name i) = [(depth, .name i)] := by
  rw [linked.walkFrom_eq, below_open found unexpanded]
  rfl

theorem treeAt_eq_tree {i : Nat} {b : Bud} (found : names[i]? = some b) :
    treeAt names i = b.tree (treeAt names) := by
  obtain ⟨later, made, agree⟩ := treeAt_eq found
  rw [made]
  unfold Bud.tree
  cases expanded : b.expanded with
  | none => rfl
  | some x =>
    have same : (Place.ofSymbols x.first x.symbols).map (Place.tree later) =
        (Place.ofSymbols x.first x.symbols).map (Place.tree (treeAt names)) := by
      refine List.map_congr_left fun q inside => ?_
      cases q with
      | text t => rfl
      | name j =>
        rw [← below_expanded found expanded] at inside
        obtain ⟨after, before⟩ := linked i j inside
        exact agree j after before
    dsimp only
    rw [Place.treesFrom_eq, Place.treesFrom_eq, same]

theorem children_treeAt {i : Nat} (inside : i < names.size) :
    (treeAt names i).children = (below names (.name i)).map (Place.tree (treeAt names)) := by
  have found := Array.getElem?_eq_getElem inside
  rw [linked.treeAt_eq_tree found]
  unfold Bud.tree
  cases expanded : names[i].expanded with
  | none =>
    rw [below_open found expanded]
    rfl
  | some x =>
    rw [below_expanded found expanded, ← Place.treesFrom_eq]
    rfl

theorem walk_tree (q : Place) (known : ∀ i, q = .name i → i < names.size) (depth : Nat) :
    (q.tree (treeAt names)).walk depth =
      (walkFrom names depth q).map fun (d, r) => (d, r.tree (treeAt names)) := by
  induction q using linked.induct generalizing depth with
  | step q ih =>
    have walk_eq : ∀ t : Tree, t.walk depth = (depth, t) :: Tree.walkAll (depth + 1) t.children := by
      intro t
      cases t <;> rfl
    have children : (q.tree (treeAt names)).children =
        (below names q).map (Place.tree (treeAt names)) := by
      cases q with
      | text t => rfl
      | name i => exact linked.children_treeAt (known i rfl)
    rw [walk_eq, children, linked.walkFrom_eq, Tree.walkAll_eq_flatMap, List.map_cons,
      List.map_flatMap, List.flatMap_map, List.flatMap_map, List.cons.injEq]
    refine ⟨rfl, List.flatMap_congr fun r inside => ih r inside (fun j same => ?_) (depth + 1)⟩
    subst same
    cases q with
    | text t => cases inside
    | name i => exact (linked i j inside).2

end Linked

section Expanding
variable {g : Growth} {number p : Nat} {alternative : Int} {e : Expansion} {b : Bud}

theorem below_expand_self (found : g.names[number]? = some b) :
    below (g.expandNumber number p alternative e).names (.name number) =
      Place.ofSymbols g.names.size e.symbols :=
  below_expanded (names_expand_self found) rfl

theorem below_expand_old {i : Nat} (inside : i < g.names.size) (apart : i ≠ number) :
    below (g.expandNumber number p alternative e).names (.name i) = below g.names (.name i) :=
  below_congr (names_expand_other inside apart)

theorem below_expand_new (k : Nat) :
    below (g.expandNumber number p alternative e).names (.name (g.names.size + k)) = [] := by
  unfold below
  dsimp only
  rw [names_expand_new]
  cases e.references[k]? <;> rfl

theorem size_expand : (g.expandNumber number p alternative e).names.size =
    g.names.size + e.references.length := by
  have lists := congrArg List.length (@toList_names_expand g number p alternative e)
  simpa using lists

theorem Linked.expand (linked : Linked g.names) (found : g.names[number]? = some b) :
    Linked (g.expandNumber number p alternative e).names := by
  intro i j inside
  have place := (Array.getElem?_eq_some_iff.mp found).1
  rw [size_expand]
  by_cases here : i = number
  · subst here
    rw [below_expand_self found] at inside
    have bounds := Place.name_mem_ofSymbols inside
    exact ⟨by omega, bounds.2⟩
  · by_cases old : i < g.names.size
    · rw [below_expand_old old here] at inside
      have bounds := linked i j inside
      exact ⟨bounds.1, by omega⟩
    · obtain ⟨k, rfl⟩ := Nat.exists_eq_add_of_le (Nat.le_of_not_lt old)
      rw [below_expand_new] at inside
      cases inside

def sprout (number : Nat) (new : List Place) (here : Nat × Place) : List (Nat × Place) :=
  here :: if here.2 = .name number then new.map (here.1 + 1, ·) else []

theorem walkFrom_expand (linked : Linked g.names) (found : g.names[number]? = some b)
    (unexpanded : b.expanded = none) (q : Place) (known : ∀ i, q = .name i → i < g.names.size)
    (depth : Nat) :
    walkFrom (g.expandNumber number p alternative e).names depth q =
      (walkFrom g.names depth q).flatMap (sprout number (Place.ofSymbols g.names.size e.symbols)) := by
  have linked' : Linked (g.expandNumber number p alternative e).names := linked.expand found
  induction q using linked.induct generalizing depth with
  | step q ih =>
    rw [linked'.walkFrom_eq]
    by_cases here : q = .name number
    · subst here
      have leaves : ∀ r ∈ Place.ofSymbols g.names.size e.symbols,
          walkFrom (g.expandNumber number p alternative e).names (depth + 1) r =
            [(depth + 1, r)] := by
        intro r inside
        rw [linked'.walkFrom_eq]
        cases r with
        | text t => rfl
        | name j =>
          obtain ⟨k, rfl⟩ := Nat.exists_eq_add_of_le (Place.name_mem_ofSymbols inside).1
          rw [below_expand_new]
          rfl
      rw [below_expand_self found, linked.walkFrom_open found unexpanded, List.flatMap_def,
        List.map_congr_left leaves, ← List.flatMap_def, ← List.map_eq_flatMap]
      simp [sprout]
    · have kept : below (g.expandNumber number p alternative e).names q = below g.names q := by
        cases q with
        | text t => rfl
        | name i => exact below_expand_old (known i rfl) fun same => here (same ▸ rfl)
      have each : ∀ r ∈ below g.names q,
          walkFrom (g.expandNumber number p alternative e).names (depth + 1) r =
            (walkFrom g.names (depth + 1) r).flatMap
              (sprout number (Place.ofSymbols g.names.size e.symbols)) := by
        intro r inside
        refine ih r inside (fun j same => ?_) (depth + 1)
        subst same
        cases q with
        | text t => cases inside
        | name i => exact (linked i j inside).2
      rw [kept, linked.walkFrom_eq, List.flatMap_cons, List.flatMap_assoc, List.flatMap_def,
        List.map_congr_left each, ← List.flatMap_def]
      simp [sprout, here]

end Expanding
end GrammarSampler.Growth
