import GrammarSampler.Proofs.Generation.Closing
import GrammarSampler.Proofs.Tree.Grown

/-!
Traversals. A run that takes the leftmost leaf first expands the names of its tree in pre-order. One
that takes the shallowest leaf first expands them level by level: the open leaves lie on at most two
levels, and those of the deeper level, which are the children of what has been expanded on the other
one, come first in the worklist.
-/
namespace GrammarSampler

namespace Growth

def numbersAt (d : Nat) (places : List (Nat × Place)) : List Nat :=
  numbers (places.filter fun here => here.1 = d)

def level (g : Growth) (d : Nat) : List Nat := numbersAt d g.walk

/-- The names of one depth after the other, each from left to right. -/
def levelOrder (g : Growth) : List Nat := (List.range (g.tree.depth + 1)).flatMap g.level

theorem mem_numbersAt {d i : Nat} {places : List (Nat × Place)} :
    i ∈ numbersAt d places ↔ (d, Place.name i) ∈ places := by
  simp [numbersAt, mem_numbers]

theorem mem_level {g : Growth} {d i : Nat} : i ∈ g.level d ↔ (d, Place.name i) ∈ g.walk :=
  mem_numbersAt

theorem numbersAt_append (d : Nat) (first rest : List (Nat × Place)) :
    numbersAt d (first ++ rest) = numbersAt d first ++ numbersAt d rest := by
  rw [numbersAt, List.filter_append, numbers_append]
  rfl

theorem numbersAt_cons_self (d i : Nat) (rest : List (Nat × Place)) :
    numbersAt d ((d, .name i) :: rest) = i :: numbersAt d rest := by
  rw [numbersAt, List.filter_cons_of_pos (by simp), numbers_cons_name]
  rfl

theorem numbersAt_cons_other {c d : Nat} (apart : d ≠ c) (q : Place) (rest : List (Nat × Place)) :
    numbersAt c ((d, q) :: rest) = numbersAt c rest := by
  rw [numbersAt, List.filter_cons_of_neg (by simpa using apart)]
  rfl

theorem numbersAt_places_self (d : Nat) (places : List Place) :
    numbersAt d (places.map (d, ·)) = places.filterMap Place.number? := by
  rw [numbersAt, List.filter_eq_self.mpr (by simp), numbers_places]

theorem numbersAt_places_other {c d : Nat} (apart : d ≠ c) (places : List Place) :
    numbersAt c (places.map (d, ·)) = [] := by
  rw [numbersAt, List.filter_eq_nil_iff.mpr (by simp [apart])]
  rfl

theorem level_eq_nil_of_lt {g : Growth} (ordered : Ordered g) {d : Nat} (deep : g.tree.depth < d) :
    g.level d = [] := by
  refine List.eq_nil_iff_forall_not_mem.mpr fun i inside => ?_
  have node : g.node (d, .name i) ∈ g.tree.nodes := by
    rw [ordered.nodes_eq]
    exact List.mem_map_of_mem (mem_level.mp inside)
  have bound : d ≤ g.tree.depth := (Grammar.le_foldl_max _ 0).2 d (List.mem_map_of_mem node)
  omega

theorem flatMap_range_of_empty {levels : Nat → List Nat} {m n : Nat}
    (empty : ∀ d, m ≤ d → levels d = []) (more : m ≤ n) :
    (List.range n).flatMap levels = (List.range m).flatMap levels := by
  induction n, more using Nat.le_induction with
  | base => rfl
  | succ n more ih =>
    rw [List.range_succ, List.flatMap_append, ih, List.flatMap_singleton, empty n more,
      List.append_nil]

/-- Everything on the walk up to the first open name has been expanded, in the order of the walk. -/
structure Leftward (g : Growth) (passed : List Nat) : Prop where
  ordered : Ordered g
  met : numbers g.walk = passed ++ g.worklist.toList

/-- The names of the levels above depth `d` have been expanded, and those at `d` up to `ahead`; the
names one level deeper are all open and come first in the worklist. -/
structure Descending (g : Growth) (passed : List Nat) (d : Nat) (behind deeper ahead : List Nat) :
    Prop where
  ordered : Ordered g
  above : passed = (List.range d).flatMap g.level ++ behind
  here : g.level d = behind ++ ahead
  next : g.level (d + 1) = deeper
  beyond : ∀ c, d + 1 < c → g.level c = []
  worklist : g.worklist.toList = deeper ++ ahead

section Starting
variable (name : String)

theorem walk_start : (Growth.start name).walk = [(0, .name 0)] :=
  (Ordered.start name).linked.walkFrom_open rfl rfl 0

theorem Leftward.start : Leftward (.start name) [] :=
  ⟨.start name, by rw [walk_start]; rfl⟩

theorem Descending.start : Descending (.start name) [] 0 [] [] [0] := by
  have empty : ∀ c, 0 < c → (Growth.start name).level c = [] := by
    intro c above
    rw [level, walk_start, numbersAt_cons_other (Nat.ne_of_lt above)]
    rfl
  refine ⟨.start name, rfl, ?_, empty 1 Nat.one_pos, fun c deep => empty c (by omega), rfl⟩
  rw [level, walk_start]
  rfl

end Starting

section Expanding
variable {g : Growth} {passed behind deeper rest : List Nat} {number d p : Nat} {alternative : Int}
  {e : Expansion}

theorem Leftward.expand (left : Leftward g passed) (first : g.worklist.toList = number :: rest) :
    Leftward (g.expandNumber number (0 : Nat) alternative e) (passed ++ [number]) := by
  have place : g.worklist.toList[0]? = some number := by rw [first]; rfl
  refine ⟨left.ordered.expand place, ?_⟩
  obtain ⟨before, d, after, cut⟩ := left.ordered.cut place
  have distinct := left.ordered.distinct
  rw [left.met, first, List.nodup_append, List.nodup_cons] at distinct
  obtain ⟨-, ⟨absent, -⟩, apart⟩ := distinct
  have split : numbers before ++ number :: numbers after = passed ++ number :: rest := by
    rw [← first, ← left.met, cut.whole, numbers_append, numbers_cons_name]
  -- the number stands on the walk once, so what comes before it is what has been passed
  obtain ⟨same, -, same'⟩ := List.append_cons_inj_of_notMem
    (fun inside => (cut.before number inside).2 rfl) (fun inside => (cut.behind number inside).2 rfl) |>.mp split
  have opened := @worklist_expand_between g number 0 alternative e [] rest first rfl
  rw [cut.numbers_expand left.ordered place, opened, same, same', List.append_assoc]
  rfl

section Levels
variable {left right : List (Nat × Place)} (cut : Cut g p number left d right) (ordered : Ordered g)
  (place : g.worklist.toList[p]? = some number)
include cut ordered place

theorem Cut.level_expand_other {c : Nat} (apart : d + 1 ≠ c) :
    (g.expandNumber number p alternative e).level c = g.level c := by
  rw [level, level, cut.walk_expand ordered place, cut.whole, numbersAt_append, numbersAt_append,
    ← List.cons_append]
  by_cases here : d = c
  · subst here
    rw [List.cons_append, numbersAt_cons_self, numbersAt_cons_self, numbersAt_append,
      numbersAt_places_other apart, List.nil_append]
  · rw [List.cons_append, numbersAt_cons_other here, numbersAt_cons_other here, numbersAt_append,
      numbersAt_places_other apart, List.nil_append]

theorem Cut.level_expand_below : (g.expandNumber number p alternative e).level (d + 1) =
    numbersAt (d + 1) left ++
      (List.range' g.names.size e.references.length ++ numbersAt (d + 1) right) := by
  rw [level, cut.walk_expand ordered place, numbersAt_append, numbersAt_cons_other (by omega),
    numbersAt_append, numbersAt_places_self, Place.numbers_ofSymbols]
  rfl

theorem Cut.levels_above_expand : (List.range d).flatMap
    (g.expandNumber number p alternative e).level = (List.range d).flatMap g.level := by
  refine List.flatMap_congr fun c inside => cut.level_expand_other ordered place ?_
  have := List.mem_range.mp inside
  omega

end Levels

end Expanding

namespace Descending
variable {g : Growth} {passed behind deeper ahead rest : List Nat} {number d : Nat}
  {alternative : Int} {e : Expansion}

theorem depth_deeper (down : Descending g passed d behind deeper ahead) {i : Nat}
    (inside : i ∈ deeper) : (g.bud i).depth = d + 1 :=
  down.ordered.depth _ i (mem_level.mp (down.next ▸ inside))

theorem depth_ahead (down : Descending g passed d behind deeper ahead) {i : Nat}
    (inside : i ∈ ahead) : (g.bud i).depth = d :=
  down.ordered.depth _ i (mem_level.mp (down.here ▸ List.mem_append_right behind inside))

theorem descend (down : Descending g passed d behind deeper []) :
    Descending g passed (d + 1) [] [] deeper := by
  have here := down.here
  rw [List.append_nil] at here
  refine ⟨down.ordered, ?_, down.next, down.beyond _ (Nat.lt_succ_self _),
    fun c deep => down.beyond c (by omega), ?_⟩
  · rw [down.above, List.range_succ, List.flatMap_append, List.flatMap_singleton, here,
      List.append_nil]
  · rw [down.worklist, List.append_nil]
    rfl

theorem place (down : Descending g passed d behind deeper (number :: rest)) :
    g.worklist.toList[deeper.length]? = some number := by
  rw [down.worklist]
  simp

theorem deeper_behind (down : Descending g passed d behind deeper (number :: rest))
    {left right : List (Nat × Place)} (cut : Cut g deeper.length number left d right) :
    numbersAt (d + 1) right = [] := by
  refine List.eq_nil_iff_forall_not_mem.mpr fun i inside => ?_
  have walked := mem_numbersAt.mp inside
  have deep : i ∈ deeper := by
    rw [← down.next, mem_level, cut.whole]
    simp [walked]
  have listed : i ∈ g.worklist.toList := by
    rw [down.worklist]
    exact List.mem_append_left _ deep
  have met : i ∈ g.numbersOf Bud.isOpen right := by
    refine List.mem_filter.mpr ⟨mem_numbers.mpr ⟨_, walked⟩, ?_⟩
    exact Option.isNone_iff_eq_none.mpr (down.ordered.isOpen_of_mem listed).2
  rw [cut.rightOpen, down.worklist, List.append_cons, List.drop_left' (by simp)] at met
  have high := down.depth_ahead (List.mem_cons_of_mem number met)
  have low := down.depth_deeper deep
  omega

/-- The first name that is left on a level is expanded: its names come behind those that are on the
next level already. -/
theorem expand (down : Descending g passed d behind deeper (number :: rest)) :
    Descending (g.expandNumber number deeper.length alternative e) (passed ++ [number]) d
      (behind ++ [number]) (deeper ++ List.range' g.names.size e.references.length) rest := by
  have ordered := down.ordered
  obtain ⟨left, c, right, cut⟩ := ordered.cut down.place
  obtain rfl : c = d := by
    rw [← down.depth_ahead List.mem_cons_self]
    exact (ordered.depth c number (by simp [cut.whole])).symm
  have none := down.deeper_behind cut
  have next := down.next
  rw [level, cut.whole, numbersAt_append, numbersAt_cons_other (by omega), none,
    List.append_nil] at next
  refine ⟨ordered.expand down.place, ?_, ?_, ?_, fun b deep => ?_, ?_⟩
  · rw [cut.levels_above_expand ordered down.place, down.above, List.append_assoc]
  · rw [cut.level_expand_other ordered down.place (by omega), down.here, List.append_cons]
  · rw [cut.level_expand_below ordered down.place, next, none, List.append_nil]
  · rw [cut.level_expand_other ordered down.place (by omega), down.beyond b deep]
  · rw [worklist_expand_between down.worklist rfl, List.append_assoc]

theorem exists_ahead (down : Descending g passed d behind deeper ahead)
    (unfinished : g.isComplete = false) : ∃ d behind deeper number rest,
      Descending g passed d behind deeper (number :: rest) := by
  cases ahead with
  | cons number rest => exact ⟨d, behind, deeper, number, rest, down⟩
  | nil =>
    cases deeper with
    | cons number rest => exact ⟨d + 1, [], [], number, rest, down.descend⟩
    | nil =>
      have some := Run.openCount_pos unfinished
      rw [openCount, ← Worklist.length_toList, down.worklist] at some
      exact absurd some (Nat.lt_irrefl 0)

theorem depth_buds (down : Descending g passed d behind deeper ahead) :
    (∀ b ∈ deeper.map g.bud, b.depth = d + 1) ∧ ∀ b ∈ ahead.map g.bud, b.depth = d :=
  ⟨List.forall_mem_map.mpr fun _ => down.depth_deeper,
    List.forall_mem_map.mpr fun _ => down.depth_ahead⟩

theorem buds_eq (down : Descending g passed d behind deeper ahead) :
    g.buds = deeper.map g.bud ++ ahead.map g.bud := by
  rw [buds, down.worklist, List.map_append]

theorem firstMinimum?_eq (down : Descending g passed d behind deeper (number :: rest)) :
    Choice.firstMinimum? (g.buds.map Bud.depth) = some deeper.length := by
  have low : ∀ c ∈ (deeper.map g.bud).map Bud.depth, c = d + 1 :=
    List.forall_mem_map.mpr down.depth_buds.1
  have high : ∀ c ∈ ((number :: rest).map g.bud).map Bud.depth, c = d :=
    List.forall_mem_map.mpr down.depth_buds.2
  rw [down.buds_eq, List.map_append]
  have least : ((deeper.map g.bud).map Bud.depth ++
      ((number :: rest).map g.bud).map Bud.depth).min? = some d := by
    refine List.min?_eq_some_iff.mpr ⟨?_, fun c inside => ?_⟩
    · refine List.mem_append_right _ ?_
      rw [List.map_cons, List.map_cons, down.depth_ahead List.mem_cons_self]
      exact List.mem_cons_self
    · rcases List.mem_append.mp inside with mem | mem
      · have := low c mem
        omega
      · exact Nat.le_of_eq (high c mem).symm
  have absent : d ∉ (deeper.map g.bud).map Bud.depth := fun mem => by
    have := low d mem
    omega
  rw [Choice.firstMinimum?, least, Option.map_some, List.idxOf_append_of_notMem absent,
    List.map_cons, List.map_cons, down.depth_ahead List.mem_cons_self, List.idxOf_cons_self,
    List.length_map, List.length_map, Nat.add_zero]

theorem passed_eq (down : Descending g passed d behind deeper ahead)
    (complete : g.isComplete = true) : passed = g.levelOrder := by
  have items := down.worklist
  rw [toList_of_isComplete complete, eq_comm, List.append_eq_nil_iff] at items
  obtain ⟨rfl, rfl⟩ := items
  have done := down.descend
  have all := done.above
  rw [List.append_nil] at all
  have empty : ∀ c, d + 1 ≤ c → g.level c = [] := by
    intro c deep
    rcases Nat.lt_or_eq_of_le deep with further | rfl
    · exact down.beyond c further
    · exact down.next
  rw [all, levelOrder]
  rcases Nat.le_total (d + 1) (g.tree.depth + 1) with shallow | deep
  · rw [flatMap_range_of_empty empty shallow]
  · exact flatMap_range_of_empty
      (fun c deep => level_eq_nil_of_lt down.ordered (Nat.lt_of_succ_le deep)) deep

end Descending
end Growth

namespace Run
variable {ρ σ : Type} [Arithmetic ρ] [Draws σ ρ] {g : Grammar} {s : Settings} {source : σ}
  {run next : Run σ} {decision : Decision} {passed : List Nat}

/-- The names that have been expanded on the way to a run, by their numbers, first one first. -/
inductive Trail (g : Grammar) (s : Settings) (source : σ) : List Nat → Run σ → Prop where
  | start : Trail g s source [] (.start g.start source)
  | step {passed : List Nat} {run next : Run σ} {decision : Decision} {number : Nat}
      (before : Trail g s source passed run) (moved : run.step g s = .moved decision next)
      (expanded : run.growth.number? decision.position = .ok number) :
      Trail g s source (passed ++ [number]) next

theorem Trail.resume (trail : Trail g s source passed run) {fuel : Nat} {last : Run σ}
    (closed : Run.resume g s fuel run = .closed last) :
    last.growth.isComplete = true ∧ ∃ passed, Trail g s source passed last := by
  induction fuel generalizing run passed with
  | zero => cases closed
  | succ fuel ih =>
    unfold Run.resume at closed
    split at closed
    · rename_i last' same
      cases closed
      obtain ⟨rfl, complete⟩ := complete_of_closed same
      exact ⟨complete, passed, trail⟩
    · cases closed
    · rename_i decision next moved
      obtain ⟨number, -, expanded, -⟩ := (advance_of_moved moved).grown
      exact ih (.step trail moved expanded) closed

theorem selected_of_moved {number : Nat} (moved : run.step g s = .moved decision next)
    (expanded : run.growth.number? decision.position = .ok number) :
    (Choice.leaf s.policy run.growth run.source).1 = .ok decision.position ∧
    run.growth.isComplete = false ∧
    ∃ (alternative : Int) (e : Expansion),
      next.growth = run.growth.expandNumber number decision.position alternative e := by
  have advance := advance_of_moved moved
  obtain ⟨number', e, expanded', -, -, grown⟩ := advance.grown
  rw [expanded, Except.ok.injEq] at expanded'
  subst expanded'
  exact ⟨advance.leaf, advance.unfinished, _, e, grown⟩

theorem Trail.leftward (leftmost : s.policy = .leftmost) (trail : Trail g s source passed run) :
    run.growth.Leftward passed := by
  induction trail with
  | start => exact .start _
  | @step passed run next decision number _ moved expanded ih =>
    obtain ⟨leaf, -, alternative, e, grown⟩ := selected_of_moved moved expanded
    have selected : decision.position = (0 : Nat) := by
      rw [leftmost, Choice.leaf] at leaf
      split at leaf <;> exact (Except.ok.inj leaf).symm
    rw [selected, Growth.number?_natCast] at expanded
    obtain ⟨rest, items⟩ : ∃ rest, run.growth.worklist.toList = number :: rest :=
      List.head?_eq_some_iff.mp (by rw [List.head?_eq_getElem?, expanded])
    rw [grown, selected]
    exact ih.expand items

theorem Trail.descending (shallowest : s.policy = .shallowest) (trail : Trail g s source passed run) :
    ∃ d behind deeper ahead, run.growth.Descending passed d behind deeper ahead := by
  induction trail with
  | start => exact ⟨0, [], [], [0], .start _⟩
  | @step passed run next decision number _ moved expanded ih =>
    obtain ⟨_, _, _, _, before⟩ := ih
    obtain ⟨leaf, unfinished, alternative, e, grown⟩ := selected_of_moved moved expanded
    obtain ⟨d, behind, deeper, number', rest, down⟩ := before.exists_ahead unfinished
    have selected : decision.position = deeper.length := by
      rw [shallowest, Choice.leaf] at leaf
      split at leaf
      · rename_i single
        rw [Growth.openCount, ← Worklist.length_toList, down.worklist, List.length_append,
          List.length_cons] at single
        rw [show deeper.length = 0 by omega]
        exact (Except.ok.inj leaf).symm
      · rw [down.firstMinimum?_eq] at leaf
        exact (Except.ok.inj leaf).symm
    rw [selected, Growth.number?_natCast, down.place, Option.some.injEq] at expanded
    subst expanded
    rw [grown, selected]
    exact ⟨d, _, _, _, down.expand⟩

theorem Trail.ordered (directed : s.policy ≠ .random) (trail : Trail g s source passed run) :
    run.growth.Ordered := by
  cases policy : s.policy with
  | random => exact absurd policy directed
  | leftmost => exact (trail.leftward policy).ordered
  | shallowest =>
    obtain ⟨d, behind, deeper, ahead, down⟩ := trail.descending policy
    exact down.ordered

end Run

/-- With a policy that draws nothing a run traverses the tree that it ends with. Taking the leftmost
leaf it expands the names in pre-order: what it has expanded and what is open make up the walk.
Taking the shallowest leaf it expands them level by level: the open leaves lie on two neighbouring
levels, those of the deeper one before those of the other. -/
theorem Generation.traversal_order {ρ σ : Type} [Arithmetic ρ] [Draws σ ρ] {rules : Rules}
    {start : String} {g : Grammar} (mapping : rules.Distinct)
    (success : Grammar.build? rules start = .ok g) (s : Settings) (source : σ) :
    (∀ passed run, Run.Trail g s source passed run →
      (s.policy ≠ .random → run.growth.tree.nodes = run.growth.walk.map run.growth.node ∧
        (Growth.numbers run.growth.walk).Nodup) ∧
      (s.policy = .leftmost →
        Growth.numbers run.growth.walk = passed ++ run.growth.worklist.toList) ∧
      (s.policy = .shallowest →
        (run.growth.isComplete = true → passed = run.growth.levelOrder) ∧
        ∃ d deeper shallower, run.growth.buds = deeper ++ shallower ∧
          (∀ b ∈ deeper, b.depth = d + 1) ∧ ∀ b ∈ shallower, b.depth = d)) ∧
    ∀ fuel last, runFor fuel g s source = .closed last →
      ∃ passed, Run.Trail g s source passed last ∧
        (s.policy = .leftmost → passed = Growth.numbers last.growth.walk) ∧
        (s.policy = .shallowest → passed = last.growth.levelOrder) := by
  obtain ⟨built, rfl, rfl⟩ := Grammar.built_of_build? mapping success
  have levels : ∀ passed run, Run.Trail g s source passed run → s.policy = .shallowest →
      run.growth.isComplete = true → passed = run.growth.levelOrder := by
    intro passed run trail shallowest complete
    obtain ⟨d, behind, deeper, ahead, down⟩ := trail.descending shallowest
    exact down.passed_eq complete
  refine ⟨fun passed run trail => ⟨fun directed => ?_, fun leftmost => ?_, fun shallowest => ?_⟩, ?_⟩
  · have ordered := trail.ordered directed
    exact ⟨ordered.nodes_eq, ordered.distinct⟩
  · exact (trail.leftward leftmost).met
  · obtain ⟨d, behind, deeper, ahead, down⟩ := trail.descending shallowest
    exact ⟨levels passed run trail shallowest, d, _, _, down.buds_eq, down.depth_buds⟩
  · intro fuel last closed
    rw [runFor_eq built] at closed
    obtain ⟨complete, passed, trail⟩ := Run.Trail.start.resume closed
    refine ⟨passed, trail, fun leftmost => ?_, fun shallowest => ?_⟩
    · have met := (trail.leftward leftmost).met
      rw [Growth.toList_of_isComplete complete, List.append_nil] at met
      exact met.symm
    · exact levels passed last trail shallowest complete

/-- A leaf below the stem and one beside it. -/
def forkRules : Rules :=
  [("fork", [.unweighted [.nonterminal "stem", .nonterminal "leaf"]]),
    ("stem", [.unweighted [.nonterminal "leaf"]]),
    ("leaf", [.unweighted [.terminal "x"], .unweighted [.nonterminal "stem"]])]

def forkGrammar : Grammar :=
  ⟨forkRules, "fork", [("fork", .finite 3), ("stem", .finite 2), ("leaf", .finite 1)]⟩

theorem forkRules_build : Grammar.build? forkRules "fork" = .ok forkGrammar :=
  Grammar.build?_eq_ok_iff.mpr ⟨⟨by decide, by decide, by decide⟩, rfl⟩

def forkSettings (policy : LeafPolicy) : Settings := ⟨.int 0, .int 1, policy, none, none⟩

/-- Going leftmost, a run expands the leaf below the stem before the one beside it. Going by depth, it
leaves it open in front of that one. -/
theorem Generation.traversal_order_fork :
    forkRules.Distinct ∧ Grammar.build? forkRules "fork" = .ok forkGrammar ∧
    LeafPolicy.leftmost ≠ .random ∧
    (∃ run, Run.Trail forkGrammar (forkSettings .leftmost) (Source.replaying #[]) [0, 1, 3, 2] run ∧
      run.growth.isComplete = true ∧ Growth.numbers run.growth.walk = [0, 1, 3, 2]) ∧
    ∃ run, Run.Trail forkGrammar (forkSettings .shallowest) (Source.replaying #[]) [0, 1] run ∧
      run.growth.worklist.toList = [3, 2] ∧
      ∃ d deeper shallower, run.growth.buds = deeper ++ shallower ∧
        (∀ b ∈ deeper, b.depth = d + 1) ∧ ∀ b ∈ shallower, b.depth = d := by
  have mapping : forkRules.Distinct := by decide
  refine ⟨mapping, forkRules_build, by decide, ?_, ?_⟩
  · obtain ⟨run, trail, complete⟩ : ∃ run, Run.Trail forkGrammar (forkSettings .leftmost)
        (Source.replaying #[]) ([] ++ [0] ++ [1] ++ [3] ++ [2]) run ∧
          run.growth.isComplete = true :=
      ⟨_, .step (.step (.step (.step .start rfl rfl) rfl rfl) rfl rfl) rfl rfl, by decide +kernel⟩
    have met := ((Generation.traversal_order mapping forkRules_build (forkSettings .leftmost)
      (Source.replaying #[])).1 _ _ trail).2.1 rfl
    rw [Growth.toList_of_isComplete complete] at met
    exact ⟨run, trail, complete, met⟩
  · obtain ⟨run, trail, items⟩ : ∃ run, Run.Trail forkGrammar (forkSettings .shallowest)
        (Source.replaying #[]) ([] ++ [0] ++ [1]) run ∧ run.growth.worklist.toList = [3, 2] :=
      ⟨_, .step (.step .start rfl rfl) rfl rfl, rfl⟩
    have levels := (((Generation.traversal_order mapping forkRules_build (forkSettings .shallowest)
      (Source.replaying #[])).1 _ _ trail).2.2 rfl).2
    exact ⟨run, trail, items, levels⟩

end GrammarSampler
