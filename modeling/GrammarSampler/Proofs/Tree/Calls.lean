import GrammarSampler.Proofs.Tree.Grown
import Mathlib.Data.List.Induction

/-!
Calls at any positions. A tree is asked to expand the name at a position that may lie outside the
worklist or be counted from its right end. Reading and expanding mean the same name everywhere. The
worklist stays in order up to the first call at the last position counted from the end: there the
window that is to be replaced ends before it begins, so that the name stays behind its own names.
-/
namespace GrammarSampler

namespace Worklist
variable {α : Type} {w : Worklist α} {position : Int} {i : Nat} {new : List α}

theorem index?_eq_some_iff {length : Nat} : index? length position = some i ↔
    i < length ∧ (position = i ∨ position = (i : Int) - length) := by
  unfold index?
  split
  · split
    · simp only [Option.some.injEq]
      omega
    · simp only [reduceCtorEq, false_iff]
      omega
  · split
    · simp only [Option.some.injEq]
      omega
    · simp only [reduceCtorEq, false_iff]
      omega

theorem index?_eq_none_iff {length : Nat} : index? length position = none ↔
    position < -length ∨ (length : Int) ≤ position := by
  unfold index?
  split
  · split
    · simp only [reduceCtorEq, false_iff]
      omega
    · simp only [true_iff]
      omega
  · split
    · simp only [reduceCtorEq, false_iff]
      omega
    · simp only [true_iff]
      omega

theorem get?_of_index? (index : index? w.size position = some i) :
    w.get? position = w.toList[i]? := by
  have inside := (index?_eq_some_iff.mp index).1
  rw [← get?_ofNat]
  unfold get?
  rw [index, index?_ofNat inside]

theorem replace_of_index? (index : index? w.size position = some i) (inner : position ≠ -1) :
    w.replace position (position + 1) new = w.replace i (i + 1) new := by
  obtain ⟨xs⟩ := w
  change index? xs.size position = some i at index
  obtain ⟨inside, place⟩ := index?_eq_some_iff.mp index
  have first : clamp xs.size position = clamp xs.size (i : Int) := by
    unfold clamp
    split <;> split <;> omega
  have last : clamp xs.size (position + 1) = clamp xs.size ((i : Int) + 1) := by
    unfold clamp
    split <;> split <;> omega
  unfold replace
  simp only [first, last]

theorem toList_replace_last (nonempty : 0 < w.size) :
    (w.replace (-1) (-1 + 1) new).toList =
      w.toList.take (w.size - 1) ++ new ++ w.toList.drop (w.size - 1) := by
  obtain ⟨xs⟩ := w
  change 0 < xs.size at nonempty
  have first : clamp xs.size (-1) = xs.size - 1 := by
    unfold clamp
    split <;> omega
  have last : clamp xs.size 0 = 0 := by
    unfold clamp
    simp
  simp [replace, toList, size, first, last, List.take_reverse, List.drop_reverse,
    List.take_of_length_le]

end Worklist

namespace Growth

/-- A wish to expand the name at a position, with the number that the expansion is labelled with. -/
structure Call where
  position : Int
  alternative : Int
  expansion : Expansion

def called (g : Growth) (c : Call) : Growth :=
  match g.expand? c.position c.alternative c.expansion with
  | .ok next => next
  | .error _ => g

def afterCalls (start : String) (calls : List Call) : Growth := calls.foldl called (.start start)

structure Numbered (g : Growth) : Prop where
  known : ∀ i ∈ g.worklist.toList, i < g.names.size
  distinct : g.worklist.toList.Nodup

/-- The worklist holds the open leaves of the tree from left to right, each once. -/
structure InOrder (g : Growth) : Prop where
  walk : g.tree.nodes = g.walk.map g.node
  distinct : (numbers g.walk).Nodup
  worklist : g.worklist.toList = g.numbersOf Bud.isOpen g.walk
  leaves : (g.tree.nodes.filter fun n => n.2.isOpen) =
    g.buds.map fun b => (b.depth, .leaf (.nonterminal b.name))

theorem Ordered.inOrder {g : Growth} (h : Ordered g) : InOrder g :=
  ⟨h.nodes_eq, h.distinct, h.worklist, h.openNodes_eq⟩

/-- What a call outside the worklist does, where no name can be read either: nothing. -/
structure Refused (g : Growth) (c : Call) : Prop where
  outside : c.position < -g.openCount ∨ (g.openCount : Int) ≤ c.position
  read : g.bud? c.position = .error .outOfRange
  refused : g.expand? c.position c.alternative c.expansion = .error .outOfRange
  same : g.called c = g

/-- What any other call does, in order or not. The name that is read at the position is expanded and
no other, its names come last, and it leaves the worklist unless the position is the last one. -/
structure Taken (g : Growth) (c : Call) (number : Nat) (b : Bud) : Prop where
  read : g.number? c.position = .ok number ∧ g.bud? c.position = .ok b
  there : g.names[number]? = some b
  accepted : g.expand? c.position c.alternative c.expansion = .ok (g.called c)
  recorded : (g.called c).names[number]? =
    some { b with expanded := some ⟨c.alternative, c.expansion.symbols, g.names.size⟩ }
  kept : ∀ i < g.names.size, i ≠ number → (g.called c).names[i]? = g.names[i]?
  new : ∀ k, (g.called c).names[g.names.size + k]? =
    c.expansion.references[k]?.map fun used => ⟨used, b.depth + 1, none⟩
  steps : (g.called c).steps = g.steps + 1
  left : number ∉ (g.called c).worklist.toList ↔ c.position ≠ -1

section Expanding
variable {g : Growth} {number i : Nat} {position alternative : Int} {e : Expansion}

theorem names_expand_position : (g.expandNumber number position alternative e).names =
    (g.expandNumber number (0 : Nat) alternative e).names := rfl

theorem steps_expand : (g.expandNumber number position alternative e).steps = g.steps + 1 := rfl

theorem expandNumber_of_index? (index : Worklist.index? g.openCount position = some i)
    (inner : position ≠ -1) :
    g.expandNumber number position alternative e = g.expandNumber number i alternative e := by
  unfold expandNumber
  simp only [Worklist.replace_of_index? index inner]

theorem worklist_expand_last (nonempty : 0 < g.openCount) :
    (g.expandNumber number (-1) alternative e).worklist.toList =
      g.worklist.toList.take (g.openCount - 1) ++
        List.range' g.names.size e.references.length ++
        g.worklist.toList.drop (g.openCount - 1) :=
  Worklist.toList_replace_last nonempty

theorem number?_of_index? (index : Worklist.index? g.openCount position = some i)
    (place : g.worklist.toList[i]? = some number) : g.number? position = .ok number := by
  unfold number?
  rw [Worklist.get?_of_index? index, place]

theorem expand?_of_number? (read : g.number? position = .ok number) :
    g.expand? position alternative e = .ok (g.expandNumber number position alternative e) := by
  unfold expand?
  rw [read]
  rfl

end Expanding

namespace Numbered
variable {g : Growth} {number i : Nat} {position alternative : Int} {e : Expansion}

theorem start (name : String) : Numbered (.start name) := by
  constructor
  · intro i inside
    rw [List.mem_singleton.mp inside]
    exact Nat.one_pos
  · exact List.nodup_singleton 0

theorem insert (h : Numbered g) {before after : List Nat} {count : Nat}
    (part : (before ++ after).Sublist g.worklist.toList) :
    (before ++ List.range' g.names.size count ++ after).Nodup := by
  have moved : (before ++ List.range' g.names.size count ++ after).Perm
      (before ++ after ++ List.range' g.names.size count) := by
    rw [List.append_assoc, List.append_assoc]
    exact List.perm_append_comm.append_left before
  rw [moved.nodup_iff, List.nodup_append]
  refine ⟨h.distinct.sublist part, List.nodup_range', ?_⟩
  intro old inside other new same
  have below := h.known old (part.subset inside)
  have above := (List.mem_range'_1.mp new).1
  omega

theorem known_of_insert (h : Numbered g) {before after : List Nat} {size : Nat}
    (part : (before ++ after).Sublist g.worklist.toList)
    (grown : size = g.names.size + e.references.length) :
    ∀ i ∈ before ++ List.range' g.names.size e.references.length ++ after, i < size := by
  intro i inside
  rw [List.mem_append, List.mem_append] at inside
  rcases inside with (old | new) | old
  · have below := h.known i (part.subset (List.mem_append_left _ old))
    omega
  · have below := (List.mem_range'_1.mp new).2
    omega
  · have below := h.known i (part.subset (List.mem_append_right _ old))
    omega

theorem worklist_cases (h : Numbered g) (index : Worklist.index? g.openCount position = some i)
    (place : g.worklist.toList[i]? = some number) : ∃ before after,
      (g.expandNumber number position alternative e).worklist.toList =
        before ++ List.range' g.names.size e.references.length ++ after ∧
      (before ++ after).Sublist g.worklist.toList ∧
      (number ∉ before ++ after ↔ position ≠ -1) := by
  have inside := lt_openCount place
  have bound : i < g.worklist.toList.length := by
    rw [Worklist.length_toList]
    exact inside
  by_cases last : position = -1
  · subst last
    refine ⟨_, _, worklist_expand_last (by omega), ?_, ?_⟩
    · rw [List.take_append_drop]
    · rw [List.take_append_drop]
      have kept := List.mem_of_getElem? place
      simp [kept]
  · rw [expandNumber_of_index? index last]
    refine ⟨_, _, worklist_expand inside, ?_, ?_⟩
    · conv => rhs; rw [← List.take_append_drop i g.worklist.toList]
      exact List.Sublist.append_left (List.drop_sublist_drop_left _ (Nat.le_succ i)) _
    · have gone : ¬ (number ∈ g.worklist.toList.take i ∨ number ∈ g.worklist.toList.drop (i + 1)) := by
        rw [Follows.mem_of_take_drop h.distinct place]
        exact fun both => both.2 rfl
      simp [last, gone]

theorem expand (h : Numbered g) (index : Worklist.index? g.openCount position = some i)
    (place : g.worklist.toList[i]? = some number) :
    Numbered (g.expandNumber number position alternative e) := by
  obtain ⟨before, after, parts, old, -⟩ :=
    @worklist_cases g number i position alternative e h index place
  have size : (g.expandNumber number position alternative e).names.size =
      g.names.size + e.references.length := by
    rw [names_expand_position]
    exact size_expand
  constructor
  · rw [parts]
    exact h.known_of_insert old size
  · rw [parts]
    exact h.insert old

end Numbered

section Calls
variable {start : String} {g : Growth} {c : Call}

theorem called_cases (g : Growth) (c : Call) : Refused g c ∨
    ∃ i number, Worklist.index? g.openCount c.position = some i ∧
      g.worklist.toList[i]? = some number ∧ g.number? c.position = .ok number ∧
      g.called c = g.expandNumber number c.position c.alternative c.expansion := by
  cases index : Worklist.index? g.openCount c.position with
  | none =>
    have read : g.number? c.position = .error .outOfRange := by
      unfold number? Worklist.get?
      rw [show Worklist.index? g.worklist.size c.position = none from index]
      rfl
    have refused : g.expand? c.position c.alternative c.expansion = .error .outOfRange := by
      unfold expand?
      rw [read]
      rfl
    refine .inl ⟨Worklist.index?_eq_none_iff.mp index, ?_, refused, ?_⟩
    · unfold bud?
      rw [read]
      rfl
    · unfold called
      rw [refused]
  | some i =>
    have bound : i < g.worklist.toList.length := by
      rw [Worklist.length_toList]
      exact (Worklist.index?_eq_some_iff.mp index).1
    have place := List.getElem?_eq_getElem bound
    have read := number?_of_index? index place
    refine .inr ⟨i, _, rfl, place, read, ?_⟩
    unfold called
    rw [expand?_of_number? read]

theorem Numbered.called (h : Numbered g) (c : Call) : Numbered (g.called c) := by
  rcases called_cases g c with refused | ⟨i, number, index, place, -, next⟩
  · rw [refused.same]
    exact h
  · rw [next]
    exact h.expand index place

theorem Numbered.taken {i number : Nat} (h : Numbered g)
    (index : Worklist.index? g.openCount c.position = some i)
    (place : g.worklist.toList[i]? = some number) (read : g.number? c.position = .ok number)
    (next : g.called c = g.expandNumber number c.position c.alternative c.expansion) :
    Taken g c number (g.bud number) := by
  have known := h.known number (List.mem_of_getElem? place)
  have found := found_bud known
  refine ⟨⟨read, ?_⟩, found, ?_, ?_, ?_, ?_, ?_, ?_⟩
  · unfold bud?
    rw [read]
    rfl
  · rw [next]
    exact expand?_of_number? read
  · rw [next, names_expand_position]
    exact names_expand_self found
  · intro j old apart
    rw [next, names_expand_position]
    exact names_expand_other old apart
  · intro k
    rw [next, names_expand_position]
    exact names_expand_new k
  · rw [next]
    exact steps_expand
  · obtain ⟨before, after, parts, -, gone⟩ :=
      @worklist_cases g number i c.position c.alternative c.expansion h index place
    rw [next, parts, ← gone]
    have old : number ∉ List.range' g.names.size c.expansion.references.length := by
      intro new
      have above := (List.mem_range'_1.mp new).1
      omega
    simp [old]

theorem Numbered.refused_or_taken (h : Numbered g) (c : Call) :
    Refused g c ∨ ∃ number, Taken g c number (g.bud number) := by
  rcases called_cases g c with refused | ⟨i, number, index, place, read, next⟩
  · exact .inl refused
  · exact .inr ⟨number, h.taken index place read next⟩

theorem isComplete_eq_false : g.isComplete = false ↔ 0 < g.openCount := by
  unfold isComplete Worklist.isEmpty openCount Worklist.size
  simp only [Array.isEmpty, decide_eq_false_iff_not]
  omega

theorem Ordered.called (h : Ordered g) (inner : g.isComplete = false → c.position ≠ -1) :
    Ordered (g.called c) := by
  rcases called_cases g c with refused | ⟨i, number, index, place, -, next⟩
  · rw [refused.same]
    exact h
  · have nonempty := lt_openCount place
    have apart := inner (isComplete_eq_false.mpr (by omega))
    rw [next, expandNumber_of_index? index apart]
    exact h.expand place

/-- Right after a call at the last position the expanded name is still on the worklist. -/
theorem not_inOrder_called (h : Numbered g) (incomplete : g.isComplete = false)
    (last : c.position = -1) : ¬ InOrder (g.called c) := by
  intro order
  have nonempty := isComplete_eq_false.mp incomplete
  rcases h.refused_or_taken c with refused | ⟨number, taken⟩
  · have outside := refused.outside
    omega
  · have still : number ∈ (g.called c).worklist.toList := by
      by_contra gone
      exact taken.left.mp gone last
    rw [order.worklist, numbersOf, List.mem_filter, bud_eq taken.recorded] at still
    simp [Bud.isOpen] at still

theorem afterCalls_concat (start : String) (calls : List Call) (c : Call) :
    afterCalls start (calls ++ [c]) = (afterCalls start calls).called c := by
  simp [afterCalls]

theorem numbered_afterCalls (start : String) (calls : List Call) :
    Numbered (afterCalls start calls) := by
  induction calls using List.reverseRecOn with
  | nil => exact .start start
  | append_singleton calls c ih =>
    rw [afterCalls_concat]
    exact ih.called c

theorem ordered_afterCalls (calls : List Call)
    (inner : ∀ before c after, calls = before ++ c :: after →
      (afterCalls start before).isComplete = false → c.position ≠ -1) :
    Ordered (afterCalls start calls) := by
  induction calls using List.reverseRecOn with
  | nil => exact .start start
  | append_singleton calls c ih =>
    rw [afterCalls_concat]
    refine (ih ?_).called (inner calls c [] rfl)
    intro before d after split
    refine inner before d (after ++ [c]) ?_
    simp [split]

end Calls

/-- Whatever calls have been made, a position outside the worklist is refused, for reading and for
expanding, and nothing changes; at every other position the name that is read is the one that is
expanded, and it leaves the worklist unless the position is the last, counted from the end. After
each call the worklist holds the open leaves of the tree from left to right exactly if no call at
that position has been made while names were open. -/
theorem calls_agree (start : String) (calls : List Call) :
    (∀ c, Refused (afterCalls start calls) c ∨ ∃ number b, Taken (afterCalls start calls) c number b) ∧
    ((∀ before after, calls = before ++ after → InOrder (afterCalls start before)) ↔
      ∀ before c after, calls = before ++ c :: after →
        (afterCalls start before).isComplete = false → c.position ≠ -1) := by
  refine ⟨?_, ?_, ?_⟩
  · intro c
    rcases (numbered_afterCalls start calls).refused_or_taken c with refused | ⟨number, taken⟩
    · exact .inl refused
    · exact .inr ⟨number, _, taken⟩
  · intro orders before c after split incomplete last
    have order := orders (before ++ [c]) after (by simp [split])
    rw [afterCalls_concat] at order
    exact not_inOrder_called (numbered_afterCalls start before) incomplete last order
  · intro inner before after split
    refine (ordered_afterCalls before ?_).inOrder
    intro first c later parts
    exact inner first c (later ++ after) (by simp [split, parts])

/-- The only open name is expanded to a text, counted from the end, and stays on the worklist. -/
theorem calls_agree_last :
    (afterCalls "S" []).bud? (-1) = .ok ⟨"S", 0, none⟩ ∧
    (afterCalls "S" [⟨-1, 0, wordExpansion⟩]).worklist.toList = [0] ∧
    ((afterCalls "S" [⟨-1, 0, wordExpansion⟩]).bud 0).isOpen = false ∧
    ¬ InOrder (afterCalls "S" [⟨-1, 0, wordExpansion⟩]) := by
  have last : (⟨-1, 0, wordExpansion⟩ : Call).position = -1 := rfl
  exact ⟨rfl, by decide, by decide, not_inOrder_called (.start "S") (by decide) last⟩

end Growth
end GrammarSampler
