import GrammarSampler.Console.Outline
import Mathlib.Data.List.Forall2
import Mathlib.Data.List.Nodup
import Mathlib.Logic.Function.Basic

/-!
The outline of a tree has the shape of the tree. Labels are drawn from a stack on which the last
child of a node comes first. The order survives because each label is put below the label of its
parent when it is stacked and not when it is taken off: of every label it is known which node it
stands for, and which children of that node are still to be put below it.
-/
namespace GrammarSampler.Outline

/-- The label of a node, above the outlines of its children from left to right. -/
inductive Mirrors [Markup] : Tree → Outline → Prop where
  | entry {t : Tree} {parts : List Outline} (below : List.Forall₂ Mirrors t.children parts) :
      Mirrors t (.entry (labelOf t) parts)

namespace Drawing
variable {d : Drawing} {root t c : Tree} {children rest : List Tree} {stack : List (Tree × Nat)}
  {pending : List (List Tree × Nat)} {node : Nat → Tree} {above i : Nat} {label : String}

def labelAt (d : Drawing) (i : Nat) : Option String := d[i]?.map Mark.label

def below (d : Drawing) (i : Nat) : List Nat := (d[i]?.map fun m => m.below.toList).getD []

theorem size_add : (d.add above label).size = d.size + 1 := by simp [add]

theorem labelAt_add_old (old : i < d.size) : (d.add above label).labelAt i = d.labelAt i := by
  unfold labelAt add
  rw [Array.getElem?_push_lt (by simpa using old), ← Array.getElem?_eq_getElem, Array.getElem?_modify]
  split
  · rw [Option.map_map]
    rfl
  · rfl

theorem labelAt_add_new : (d.add above label).labelAt d.size = some label := by
  have new : (d.add above label)[d.size]? = some ⟨label, #[]⟩ := by
    unfold add
    rw [Array.getElem?_push, if_pos (by simp)]
  rw [labelAt, new]
  rfl

theorem below_add_above (old : above < d.size) :
    (d.add above label).below above = d.below above ++ [d.size] := by
  unfold below add
  rw [Array.getElem?_push_lt (by simpa using old), ← Array.getElem?_eq_getElem, Array.getElem?_modify,
    if_pos rfl, Array.getElem?_eq_getElem old]
  simp

theorem below_add_other (other : i ≠ above) : (d.add above label).below i = d.below i := by
  unfold below add
  rw [Array.getElem?_push, Array.size_modify]
  split
  · rename_i new
    subst new
    simp
  · rw [Array.getElem?_modify, if_neg (Ne.symm other)]

theorem below_add_new (old : above < d.size) : (d.add above label).below d.size = [] := by
  rw [below_add_other (Nat.ne_of_gt old)]
  simp [below]

theorem mem_below_add {j : Nat} (old : above < d.size) (inside : j ∈ (d.add above label).below i) :
    j ∈ d.below i ∨ i = above ∧ j = d.size := by
  by_cases here : i = above
  · subst here
    rw [below_add_above old, List.mem_append, List.mem_singleton] at inside
    exact inside.imp_right fun new => ⟨rfl, new⟩
  · rw [below_add_other here] at inside
    exact .inl inside

variable [Markup]

/-- Every label stands for a node. Labels with children to come are pending, each once; what is below
any label are those for the children of its node, from left to right, up to the ones to come. -/
structure Follows (root : Tree) (d : Drawing) (node : Nat → Tree) (pending : List (List Tree × Nat)) :
    Prop where
  nonempty : 0 < d.size
  root : node 0 = root
  labels : ∀ i < d.size, d.labelAt i = some (labelOf (node i))
  ahead : ∀ i, ∀ j ∈ d.below i, i < j ∧ j < d.size
  distinct : (pending.map Prod.snd).Nodup
  waiting : ∀ rest i, (rest, i) ∈ pending →
    i < d.size ∧ (d.below i).map node ++ rest = (node i).children
  finished : ∀ i < d.size, i ∉ pending.map Prod.snd → (d.below i).map node = (node i).children

def waitingFor (stack : List (Tree × Nat)) : List (List Tree × Nat) :=
  stack.map fun entry => (entry.1.children, entry.2)

namespace Follows

theorem start (t : Tree) : Follows t (.start (labelOf t)) (fun _ => t) (waitingFor [(t, 0)]) where
  nonempty := Nat.one_pos
  root := rfl
  labels i inside := by
    obtain rfl : i = 0 := Nat.lt_one_iff.mp inside
    rfl
  ahead i j inside := by
    cases i <;> simp [below, Drawing.start] at inside
  distinct := List.nodup_singleton 0
  waiting rest i inside := by
    cases List.mem_singleton.mp inside
    exact ⟨Nat.one_pos, rfl⟩
  finished i inside other := by
    obtain rfl : i = 0 := Nat.lt_one_iff.mp inside
    exact absurd (List.mem_singleton.mpr rfl) other

theorem pending_lt (h : Follows root d node pending) : ∀ i ∈ pending.map Prod.snd, i < d.size := by
  intro i inside
  obtain ⟨⟨rest, j⟩, listed, rfl⟩ := List.mem_map.mp inside
  exact (h.waiting rest j listed).1

/-- What is below old labels does not stand for the node of a new one. -/
theorem map_below_update (h : Follows root d node pending) (c : Tree) (i : Nat) :
    (d.below i).map (Function.update node d.size c) = (d.below i).map node :=
  List.map_congr_left fun j inside => Function.update_of_ne (Nat.ne_of_lt (h.ahead i j inside).2) c node

/-- A label that is put down stands for the next child, whose own children are to come. -/
theorem add (h : Follows root d node ((c :: rest, above) :: pending)) :
    Follows root (d.add above (labelOf c)) (Function.update node d.size c)
      ((rest, above) :: (c.children, d.size) :: pending) := by
  obtain ⟨placed, parts⟩ := h.waiting (c :: rest) above List.mem_cons_self
  obtain ⟨apart, later⟩ := List.nodup_cons.mp h.distinct
  have old : ∀ {i}, i < d.size → Function.update node d.size c i = node i :=
    fun inside => Function.update_of_ne (Nat.ne_of_lt inside) c node
  constructor
  case nonempty =>
    rw [size_add]
    exact Nat.succ_pos _
  case root => rw [old h.nonempty, h.root]
  case labels =>
    intro i inside
    rw [size_add] at inside
    rcases Nat.lt_succ_iff_lt_or_eq.mp inside with before | rfl
    · rw [labelAt_add_old before, old before, h.labels i before]
    · rw [labelAt_add_new, Function.update_self]
  case ahead =>
    intro i j inside
    rw [size_add]
    rcases mem_below_add placed inside with before | ⟨rfl, rfl⟩
    · obtain ⟨less, known⟩ := h.ahead i j before
      exact ⟨less, Nat.lt_succ_of_lt known⟩
    · exact ⟨placed, Nat.lt_succ_self _⟩
  case distinct =>
    have new : d.size ∉ pending.map Prod.snd := fun inside =>
      Nat.lt_irrefl _ (h.pending_lt _ (List.mem_cons_of_mem _ inside))
    simp only [List.map_cons, List.nodup_cons, List.mem_cons, not_or]
    exact ⟨⟨Nat.ne_of_lt placed, apart⟩, new, later⟩
  case waiting =>
    intro others i listed
    rw [size_add]
    rcases List.mem_cons.mp listed with same | among
    · cases same
      rw [below_add_above placed, List.map_append, h.map_below_update, old placed, ← parts]
      simp [Nat.lt_succ_of_lt placed]
    · rcases List.mem_cons.mp among with same | waits
      · cases same
        rw [below_add_new placed, Function.update_self]
        exact ⟨Nat.lt_succ_self _, rfl⟩
      · obtain ⟨known, whole⟩ := h.waiting others i (List.mem_cons_of_mem _ waits)
        have other : i ≠ above := by
          rintro rfl
          exact apart (List.mem_map.mpr ⟨_, waits, rfl⟩)
        rw [below_add_other other, h.map_below_update, old known]
        exact ⟨Nat.lt_succ_of_lt known, whole⟩
  case finished =>
    intro i inside done
    simp only [List.map_cons, List.mem_cons, not_or] at done
    rw [size_add] at inside
    have known : i < d.size := by omega
    rw [below_add_other done.1, h.map_below_update, old known]
    exact h.finished i known (List.not_mem_cons_of_ne_of_not_mem done.1 done.2.2)

theorem drop (h : Follows root d node (([], above) :: pending)) : Follows root d node pending where
  nonempty := h.nonempty
  root := h.root
  labels := h.labels
  ahead := h.ahead
  distinct := (List.nodup_cons.mp h.distinct).2
  waiting rest i listed := h.waiting rest i (List.mem_cons_of_mem _ listed)
  finished i inside done := by
    by_cases here : i = above
    · subst here
      simpa using (h.waiting [] i List.mem_cons_self).2
    · exact h.finished i inside (List.not_mem_cons_of_ne_of_not_mem here done)

theorem spread (h : Follows root d node ((children, above) :: waitingFor stack)) :
    ∃ node', Follows root (spread above children d stack).1 node'
      (waitingFor (Drawing.spread above children d stack).2) := by
  induction children generalizing d stack node with
  | nil => exact ⟨node, h.drop⟩
  | cons child rest ih => exact @ih _ ((child, d.size) :: stack) _ h.add

theorem draw (h : Follows root d node (waitingFor stack)) :
    ∃ node', Follows root (d.draw stack) node' [] := by
  fun_induction Drawing.draw d stack generalizing node with
  | case1 d => exact ⟨node, h⟩
  | case2 d t number stack next =>
    rename_i ih
    obtain ⟨node', later⟩ := Follows.spread h
    exact ih later

/-- Labels lie below labels with smaller numbers, so that no chain is longer than those that follow. -/
theorem mirrors (h : Follows root d node []) {depth : Nat} (inside : i < d.size)
    (enough : d.size ≤ i + depth) : Mirrors (node i) (d.outlineAt depth i) := by
  induction depth generalizing i with
  | zero => omega
  | succ depth ih =>
    have marked := h.labels i inside
    have listed := h.finished i inside List.not_mem_nil
    simp only [labelAt, below, Array.getElem?_eq_getElem inside, Option.map_some, Option.some.injEq,
      Option.getD_some] at marked listed
    simp only [outlineAt, Array.getD_eq_getD_getElem?, Array.getElem?_eq_getElem inside,
      Option.getD_some, marked]
    refine .entry ?_
    rw [← listed, List.forall₂_map_left_iff, List.forall₂_map_right_iff, List.forall₂_same]
    intro j part
    have ahead := h.ahead i j (by simpa [below, Array.getElem?_eq_getElem inside] using part)
    exact ih ahead.2 (by omega)

end Follows

end Drawing

variable [Markup]

mutual
theorem linesAt_of_mirrors (depth : Nat) : ∀ {t : Tree} {o : Outline}, Mirrors t o →
    o.linesAt depth = (t.walk depth).map (Prod.map id labelOf)
  | .leaf _, _, .entry .nil => rfl
  | .node _ _ _, _, .entry below => congrArg (_ :: ·) (linesOf_of_mirrors (depth + 1) below)

theorem linesOf_of_mirrors (depth : Nat) : ∀ {children : List Tree} {parts : List Outline},
    List.Forall₂ Mirrors children parts →
      linesOf depth parts = (Tree.walkAll depth children).map (Prod.map id labelOf)
  | [], _, .nil => rfl
  | _ :: _, _, .cons first later => by
    rw [linesOf, Tree.walkAll, List.map_append, linesAt_of_mirrors depth first,
      linesOf_of_mirrors depth later]
end

/-- Whatever is open or expanded in a tree, its outline has one label for each node, with the labels
of the children below it in their order. Read line by line they are those of a walk. -/
theorem ofTree_mirrors (t : Tree) :
    Mirrors t (ofTree t) ∧ (ofTree t).lines = t.nodes.map (Prod.map id labelOf) := by
  obtain ⟨node, drawn⟩ := (Drawing.Follows.start t).draw
  have whole := drawn.mirrors drawn.nonempty (Nat.le_add_left _ 0)
  rw [drawn.root] at whole
  refine ⟨whole, ?_⟩
  rw [Tree.nodes_eq_walk]
  exact linesAt_of_mirrors 0 whole

end GrammarSampler.Outline
