import GrammarSampler.Proofs.Cost.Exactness
import GrammarSampler.Proofs.Generation.Termination
import GrammarSampler.Proofs.Tree.Grown

/-!
Closing is optimal. From the step on at which closing begins every name is expanded by a cheapest
alternative, so its tree ends as high as the name costs, which is as low as it can be.
-/
namespace GrammarSampler

namespace Tree

theorem exists_height {children : List Tree} (some : 0 < heightAll children) :
    ∃ c ∈ children, c.height = heightAll children := by
  induction children with
  | nil => exact absurd some (Nat.lt_irrefl 0)
  | cons c rest ih =>
    have split : heightAll (c :: rest) = max c.height (heightAll rest) := rfl
    rw [split] at some ⊢
    by_cases first : heightAll rest ≤ c.height
    · exact ⟨c, List.mem_cons_self, (Nat.max_eq_left first).symm⟩
    · obtain ⟨d, inside, high⟩ := ih (by omega)
      exact ⟨d, List.mem_cons_of_mem c inside, by omega⟩

theorem mem_walk_node {depth : Nat} {name : String} {alternative : Int} {children : List Tree}
    {n : Nat × Tree} : n ∈ (node name alternative children).walk depth ↔
      n = (depth, node name alternative children) ∨ ∃ c ∈ children, n ∈ c.walk (depth + 1) := by
  simp [walk, walkAll_eq_flatMap]

theorem walk_depth_lt {t : Tree} {depth : Nat} {n : Nat × Tree} (inside : n ∈ t.walk depth)
    (expanded : n.2.leafSymbol? = none) : n.1 < depth + t.height := by
  induction t using Tree.induct generalizing depth with
  | leaf symbol =>
    rw [List.mem_singleton.mp inside] at expanded
    cases expanded
  | node name alternative children ih =>
    rw [height]
    rcases mem_walk_node.mp inside with rfl | ⟨c, mem, below⟩
    · omega
    · have within := ih c mem below
      have low := heightAll_le_iff.mp (Nat.le_refl _) c mem
      omega

theorem exists_deepest {t : Tree} (depth : Nat) (some : 0 < t.height) :
    ∃ n ∈ t.walk depth, n.2.leafSymbol? = none ∧ n.1 + 1 = depth + t.height := by
  induction t using Tree.induct generalizing depth with
  | leaf symbol => exact absurd some (Nat.lt_irrefl 0)
  | node name alternative children ih =>
    rw [height]
    by_cases flat : heightAll children = 0
    · refine ⟨_, mem_walk_node.mpr (.inl rfl), rfl, ?_⟩
      dsimp only
      omega
    · obtain ⟨c, mem, high⟩ := exists_height (Nat.pos_of_ne_zero flat)
      obtain ⟨n, inside, expanded, deep⟩ := ih c mem (depth + 1) (by omega)
      exact ⟨n, mem_walk_node.mpr (.inr ⟨c, mem, inside⟩), expanded, by omega⟩

theorem IsDerivation.height_pos {rules : Rules} {t : Tree} {name : String}
    (complete : t.IsDerivation rules) (root : t.symbol = .nonterminal name) : 0 < t.height := by
  cases complete with
  | terminal text => cases root
  | node rule chosen shape below => exact Nat.succ_pos _

end Tree

namespace Growth

theorem worst_treesFrom {table : CostTable Cost} {later : Nat → Tree} {symbols : List Symbol}
    {first : Nat} (exact : ∀ (k : Nat) (used : String),
      (symbols.filterMap Symbol.name?)[k]? = some used →
        Cost.ofName table used = .finite (later (first + k)).height) :
    Cost.ofExpansion table (.unweighted symbols) =
      .finite (Tree.heightAll (Bud.treesFrom later first symbols)) := by
  induction symbols generalizing first with
  | nil => rfl
  | cons s rest ih =>
    cases s with
    | terminal text =>
      have cost : Cost.ofExpansion table (.unweighted (.terminal text :: rest)) =
        Cost.ofExpansion table (.unweighted rest) := rfl
      rw [cost, ih exact, Bud.treesFrom, Tree.heightAll, Tree.height]
      exact congrArg Cost.finite (Nat.zero_max _).symm
    | nonterminal name =>
      have cost : Cost.ofExpansion table (.unweighted (.nonterminal name :: rest)) =
        Cost.max (Cost.ofName table name) (Cost.ofExpansion table (.unweighted rest)) := rfl
      have tail : ∀ (k : Nat) (used : String), (rest.filterMap Symbol.name?)[k]? = some used →
          Cost.ofName table used = .finite (later (first + 1 + k)).height := by
        intro k used named
        rw [show first + 1 + k = first + (k + 1) by omega]
        exact exact (k + 1) used named
      rw [cost, exact 0 name rfl, ih tail]
      rfl

/-- The numbers that were open once, and those that came up later. -/
def Late (g : Growth) (i : Nat) : Prop := i ∈ g.worklist.toList ∨ g.names.size ≤ i

end Growth

variable {σ : Type} [Draws σ Float] {g : Grammar} {s : Settings} {source : σ}

namespace Run

/-- A name costs one step more than the symbols it was expanded to, which end. -/
structure Cheapest (g : Grammar) (b : Bud) (x : Expanded) : Prop where
  ends : (Cost.ofExpansion g.costs (.unweighted x.symbols)).isFinite = true
  cost : Cost.ofName g.costs b.name = (Cost.ofExpansion g.costs (.unweighted x.symbols)).next

/-- What holds from the run `early` on, at which closing begins: what was on the walk stays there,
and all names that were open or come up later are expanded by cheapest alternatives. -/
structure Closing (g : Grammar) (s : Settings) (early run : Run σ) : Prop where
  valid : Valid g run
  ordered : run.growth.Ordered
  closing : run.nextPhase g s = .closing
  size : early.growth.names.size ≤ run.growth.names.size
  walk : ∀ here ∈ early.growth.walk, here ∈ run.growth.walk
  named : ∀ i < early.growth.names.size, (run.growth.bud i).name = (early.growth.bud i).name
  cheapest : ∀ i b x, early.growth.Late i → run.growth.names[i]? = some b → b.expanded = some x →
    early.growth.names.size ≤ x.first ∧ Cheapest g b x

section Steps
variable {early run next : Run σ} {decision : Decision}

omit [Draws σ Float] in
theorem nextPhase_of_closing (closing : run.phase = .closing) : run.nextPhase g s = .closing := by
  rw [nextPhase, Phase.next, if_pos closing]

omit [Draws σ Float] in
theorem Expands.ordered (expands : Expands g run decision next) (ordered : run.growth.Ordered) :
    next.growth.Ordered := by
  obtain ⟨position, -, -, -, -, -, -, -, -, grown⟩ := expands
  rw [grown]
  exact ordered.expand position

theorem Reachable.ordered (built : g.Built) (unit : Draws.InUnit source)
    (reachable : Reachable g s source run) : run.growth.Ordered := by
  induction reachable with
  | start => exact .start _
  | step before moved ih =>
    exact ((before.valid built unit).expands built (advance_of_moved moved)).ordered ih

/-- An alternative that was chosen while closing costs one step less than its name. -/
theorem next_ofExpansion (built : g.Built) {name : String} {alternatives : List Expansion}
    {e : Expansion} {index : Nat} (rule : g.rules.get? name = some alternatives)
    (chosen : alternatives[index]? = some e)
    (candidate : index ∈ Choice.candidates g.costs .closing alternatives) :
    (Cost.ofExpansion g.costs e).isFinite = true ∧
      Cost.ofName g.costs name = (Cost.ofExpansion g.costs e).next := by
  obtain ⟨e', taken, finite, cheapest⟩ := Choice.mem_candidates_closing.mp candidate
  rw [chosen, Option.some.injEq] at taken
  subst taken
  exact ⟨finite, by rw [built.ofName_eq rule, Cost.ofRule, cheapest]⟩

theorem Closing.start (valid : Valid g early) (ordered : early.growth.Ordered)
    (closing : early.nextPhase g s = .closing) : Closing g s early early := by
  refine ⟨valid, ordered, closing, Nat.le_refl _, fun _ => id, fun _ _ => rfl, ?_⟩
  rintro i b x (opened | new) found expanded
  · obtain ⟨c, there, unexpanded⟩ := (valid.follows.opened i).mp opened
    rw [found, Option.some.injEq] at there
    rw [there, unexpanded] at expanded
    cases expanded
  · have := (Array.getElem?_eq_some_iff.mp found).1
    omega

theorem Closing.advance (built : g.Built) (closing : Closing g s early run)
    (advance : Advance g s run decision next) : Closing g s early next := by
  have expands := closing.valid.expands built advance
  have phase : decision.phase = .closing := advance.phase.trans closing.closing
  refine ⟨closing.valid.advance built advance, expands.ordered closing.ordered,
    nextPhase_of_closing (advance.kept.trans phase), ?_, ?_, ?_, ?_⟩
  all_goals
    obtain ⟨position, leaf, -, rule, -, -, -, candidate, chosen, grown⟩ := expands
    rw [grown]
  · rw [Growth.size_expand]
    exact Nat.le_add_right_of_le closing.size
  · intro here inside
    rw [closing.ordered.walk_expand position]
    exact List.mem_flatMap.mpr ⟨here, closing.walk here inside, List.mem_cons_self⟩
  · intro i inside
    rw [Growth.bud_name_expand (Nat.lt_of_lt_of_le inside closing.size)]
    exact closing.named i inside
  · intro i b x late found expanded
    cases phase
    rcases Growth.names_expand_cases leaf found with ⟨rfl, rfl⟩ | ⟨-, -, old⟩ | ⟨_, _, _, _, _, opened⟩
    · cases expanded
      obtain ⟨ends, cost⟩ := next_ofExpansion built rule chosen candidate
      exact ⟨closing.size, ends, cost⟩
    · exact closing.cheapest i b x late old expanded
    · rw [opened] at expanded
      cases expanded

theorem Closing.resume (built : g.Built) (closing : Closing g s early run) {fuel : Nat}
    {last : Run σ} (closed : resume g s fuel run = .closed last) :
    Closing g s early last ∧ last.growth.isComplete = true := by
  induction fuel generalizing run with
  | zero => cases closed
  | succ fuel ih =>
    unfold Run.resume at closed
    split at closed
    · rename_i last' same
      cases closed
      obtain ⟨rfl, complete⟩ := complete_of_closed same
      exact ⟨closing, complete⟩
    · cases closed
    · rename_i decision next moved
      exact ih (closing.advance built (advance_of_moved moved)) closed

theorem Reachable.resume_closed {fuel : Nat} {last : Run σ}
    (closed : resume g s fuel (Run.start g.start source) = .closed last)
    (reachable : Reachable g s source run) : ∃ rest, resume g s rest run = .closed last := by
  induction reachable with
  | start => exact ⟨fuel, closed⟩
  | step before moved ih =>
    obtain ⟨rest, later⟩ := ih
    cases rest with
    | zero => cases later
    | succ rest =>
      unfold Run.resume at later
      rw [moved] at later
      exact ⟨rest, later⟩

end Steps

theorem Closing.cost_eq {early last : Run σ} (closing : Closing g s early last)
    (complete : last.growth.isComplete = true) {i : Nat} {b : Bud} (late : early.growth.Late i)
    (found : last.growth.names[i]? = some b) :
    Cost.ofName g.costs b.name = .finite (Growth.treeAt last.growth.names i).height := by
  -- An alternative refers to later names only, so the induction is on how many there are.
  generalize behind : last.growth.names.size - i = n
  induction n using Nat.strongRecOn generalizing i b with
  | ind n ih =>
    obtain ⟨later, made, agree⟩ := Growth.treeAt_eq found
    have place := (Array.getElem?_eq_some_iff.mp found).1
    cases expanded : b.expanded with
    | none =>
      have inside := (closing.valid.follows.opened i).mpr ⟨b, found, expanded⟩
      rw [Growth.toList_of_isComplete complete] at inside
      cases inside
    | some x =>
      obtain ⟨new, cheapest⟩ := closing.cheapest i b x late found expanded
      obtain ⟨-, after, below⟩ := closing.valid.follows.recorded i b x found expanded
      have each : ∀ (k : Nat) (used : String), (x.symbols.filterMap Symbol.name?)[k]? = some used →
          Cost.ofName g.costs used = .finite (later (x.first + k)).height := by
        intro k used named
        obtain ⟨c, there, rfl⟩ := below k used named
        have bound := (Array.getElem?_eq_some_iff.mp there).1
        rw [agree (x.first + k) (by omega) bound]
        exact ih (last.growth.names.size - (x.first + k)) (by omega) (.inr (by omega)) there rfl
      rw [cheapest.cost, Growth.worst_treesFrom each, made]
      unfold Bud.tree
      rw [expanded]
      rfl

end Run

/-- The name at a number heads a complete subtree, as high as the name costs; no complete tree of
the name is lower. -/
structure Growth.Optimal (g : Grammar) (growth : Growth) (number : Nat) (name : String)
    (depth : Nat) : Prop where
  placed : (depth, treeAt growth.names number) ∈ growth.tree.nodes
  root : (treeAt growth.names number).symbol = .nonterminal name
  complete : (treeAt growth.names number).IsDerivation g.rules
  cost : g.costs.get? name = some (.finite (treeAt growth.names number).height)
  least : g.rules.LeastHeight name (treeAt growth.names number).height

namespace Run

theorem Closing.optimal {early last : Run σ} (built : g.Built) (closing : Closing g s early last)
    (complete : last.growth.isComplete = true) (valid : Valid g early)
    (ordered : early.growth.Ordered) {number : Nat}
    (inside : number ∈ early.growth.worklist.toList) :
    last.growth.Optimal g number (early.growth.bud number).name (early.growth.bud number).depth := by
  have old := valid.follows.size_le_of_mem inside
  have found := Array.getElem?_eq_getElem (Nat.lt_of_lt_of_le old closing.size)
  have cost := closing.cost_eq complete (.inl inside) found
  obtain ⟨root, derivation⟩ := closing.valid.follows.treeAt_isDerivation complete found
  have known := closing.valid.follows.named number _ found
  rw [← Growth.bud_eq found, closing.named number old] at cost root known
  refine ⟨?_, root, derivation, by rw [built.cost known, cost], built.exact.eq_finite_iff.mp cost⟩
  have walked := inside
  rw [ordered.worklist, Growth.numbersOf, List.mem_filter] at walked
  obtain ⟨d, there⟩ := Growth.mem_numbers.mp walked.1
  rw [closing.ordered.nodes_eq, ordered.depth d number there]
  exact List.mem_map.mpr ⟨_, closing.walk _ there, rfl⟩

/-- What holds of runs that close from the first step on: what is done and what is still to do stays
within a full tree, and no open name is without a cost. -/
structure Shrinking (g : Grammar) (s : Settings) (run : Run σ) : Prop where
  closing : run.nextPhase g s = .closing
  bounded : run.growth.steps + g.stepsToClose run.growth.openNames ≤ g.leafSteps g.start
  finite : ∀ name ∈ run.growth.openNames, ∃ k, Cost.ofName g.costs name = .finite k

omit [Draws σ Float] in
theorem Shrinking.start {k : Nat}
    (closing : (Run.start g.start source).nextPhase g s = .closing)
    (cost : Cost.ofName g.costs g.start = .finite k) :
    Shrinking g s (Run.start g.start source) := by
  have only : (Run.start g.start source).growth.openNames = [g.start] := rfl
  refine ⟨closing, ?_, ?_⟩
  · rw [only]
    simp [Grammar.stepsToClose, Run.start, Growth.start]
  · intro name inside
    rw [only] at inside
    exact ⟨k, List.mem_singleton.mp inside ▸ cost⟩

theorem Shrinking.advance {run next : Run σ} {decision : Decision} (built : g.Built)
    (valid : Valid g run) (shrinking : Shrinking g s run)
    (advance : Advance g s run decision next) : Shrinking g s next := by
  have expands := valid.expands built advance
  have phase : decision.phase = .closing := advance.phase.trans shrinking.closing
  refine ⟨nextPhase_of_closing (advance.kept.trans phase), ?_, ?_⟩
  · have less := expands.stepsToClose built valid phase
    have bounded := shrinking.bounded
    rw [advance.steps]
    omega
  · obtain ⟨p, alternatives, e, -, -, -, finite, candidate, chosen, names⟩ :=
      expands.openNames_eq valid
    rw [phase] at candidate
    intro name inside
    rw [names, List.mem_append, List.mem_append] at inside
    rcases inside with (before | new) | behind
    · exact shrinking.finite name (List.mem_of_mem_take before)
    · obtain ⟨n, found⟩ := Choice.finite_of_targeted (by decide) candidate chosen name new
      exact ⟨n, by rw [Cost.ofName, found]; rfl⟩
    · exact shrinking.finite name (List.mem_of_mem_drop behind)

theorem Reachable.shrinking (built : g.Built) (unit : Draws.InUnit source) {k : Nat}
    (closing : (Run.start g.start source).nextPhase g s = .closing)
    (cost : Cost.ofName g.costs g.start = .finite k) {run : Run σ}
    (reachable : Reachable g s source run) : Shrinking g s run := by
  induction reachable with
  | start => exact .start closing cost
  | step before moved ih =>
    exact ih.advance built (before.valid built unit) (advance_of_moved moved)

theorem Shrinking.openCount_le {run : Run σ} (built : g.Built) (valid : Valid g run)
    (shrinking : Shrinking g s run) : run.growth.openCount ≤ g.leafSteps g.start := by
  have each : ∀ steps ∈ run.growth.openNames.map g.leafSteps, 1 ≤ steps := by
    intro steps inside
    obtain ⟨name, opened, rfl⟩ := List.mem_map.mp inside
    obtain ⟨k, cost⟩ := shrinking.finite name opened
    obtain ⟨i, mem, rfl⟩ := List.mem_map.mp opened
    obtain ⟨b, found, -⟩ := (valid.follows.opened i).mp mem
    rw [Growth.bud_eq found] at cost ⊢
    obtain ⟨alternatives, rule, -⟩ := built.rule (valid.follows.named i b found)
    obtain ⟨j, rfl, -⟩ := built.best_eq rule cost
    rw [Grammar.leafSteps, cost]
    dsimp only
    rw [Grammar.fullTree_succ]
    exact Nat.succ_le_succ (Nat.zero_le _)
  have count := List.length_le_sum_of_one_le _ each
  rw [List.length_map, Growth.length_openNames] at count
  have bounded := shrinking.bounded
  unfold Grammar.stepsToClose at bounded
  omega

end Run

namespace Generation

omit [Draws σ Float] in
/-- Closing is the phase of the first step if no more than one leaf may be open. -/
theorem closing_of_maximum {low high : Int} (accepted : s.Valid)
    (minimum : s.minimum.split = .inl low) (maximum : s.maximum.split = .inl high)
    (few : high ≤ 1) : (Run.start g.start source).nextPhase g s = .closing := by
  have order : ¬ high < low := by
    have least := accepted.minimum_le_maximum
    rw [Number.lt_of_split maximum minimum] at least
    exact of_decide_eq_false least
  have reached : s.minimum.exceeds 1 = false := by
    rw [Number.exceeds_of_split minimum]
    exact decide_eq_false (by omega)
  have full : s.maximum.exceeds 1 = false := by
    rw [Number.exceeds_of_split maximum]
    exact decide_eq_false (by omega)
  have count : (Run.start g.start source).growth.openCount = 1 := rfl
  rw [Run.nextPhase, Phase.next, count, reached, full]
  simp

omit [Draws σ Float] in
theorem closing_of_budget {limit : Number} (given : s.budget = some limit)
    (nothing : limit.split = .inl 0) : (Run.start g.start source).nextPhase g s = .closing := by
  have spent : Phase.spent s (Run.start g.start source).growth.steps = true := by
    rw [Phase.spent, given, Option.any_some, Number.reachedBy_of_split nothing]
    rfl
  rw [Run.nextPhase, Phase.next, spent]
  simp

/-- A run that closes from the first step on ends, unless one of its steps stops it. -/
theorem closed_or_stopped (built : g.Built) (unit : Draws.InUnit source) {k : Nat}
    (closing : (Run.start g.start source).nextPhase g s = .closing)
    (cost : Cost.ofName g.costs g.start = .finite k) {fuel : Nat}
    (enough : g.leafSteps g.start < fuel) :
    (∃ last, runFor fuel g s source = .closed last) ∨
      ∃ run fault last, Run.Reachable g s source run ∧ run.step g s = .stopped fault last := by
  have reached : (runFor fuel g s source).Reached g s source fuel := reached_runFor built fuel
  cases outcome : runFor fuel g s source with
  | closed last => exact .inl ⟨last, rfl⟩
  | unfinished last =>
    -- as many steps as there was fuel would be more than any reachable run has taken
    rw [outcome] at reached
    have bounded := (reached.1.shrinking built unit closing cost).bounded
    have many := reached.2
    omega
  | stopped fault last =>
    rw [outcome] at reached
    obtain ⟨run, reachable, stopped⟩ := reached
    exact .inr ⟨run, fault, last, reachable, stopped⟩

theorem closed_of_shrinking (built : g.Built) (weighable : g.rules.Weighable)
    (unit : Draws.InUnit source) (unlimited : s.maxSteps = none) {k : Nat}
    (closing : (Run.start g.start source).nextPhase g s = .closing)
    (cost : Cost.ofName g.costs g.start = .finite k) {fuel : Nat}
    (enough : g.leafSteps g.start < fuel) :
    (∃ last, runFor fuel g s source = .closed last) ∨
      ∃ run, Run.Reachable g s source run ∧ Choice.Uncountable s.policy run.growth ∧
        run.growth.openCount ≤ g.leafSteps g.start := by
  rcases closed_or_stopped built unit closing cost enough with
    closed | ⟨run, fault, last, reachable, stopped⟩
  · exact .inl closed
  have valid := reachable.valid built unit
  have shrinking := reachable.shrinking built unit closing cost
  have sound := valid.stepSound (s := s) built weighable
  rw [stopped] at sound
  cases sound with
  | stopped reason _ =>
    cases reason with
    | limited given reached =>
      rw [unlimited] at given
      cases given
    | @barren b number inside leaf barren =>
      have opened : b.name ∈ run.growth.openNames :=
        List.mem_map.mpr ⟨number, inside, by rw [Growth.bud_eq leaf]⟩
      obtain ⟨n, finite⟩ := shrinking.finite b.name opened
      rw [Cost.ofName, barren] at finite
      cases finite
    | uncountable many =>
      exact .inr ⟨run, reachable, many, shrinking.openCount_le built valid⟩

theorem closing_of_closed (built : g.Built) (unit : Draws.InUnit source)
    (closing : (Run.start g.start source).nextPhase g s = .closing) {fuel : Nat} {last : Run σ}
    (closed : runFor fuel g s source = .closed last) :
    Run.Closing g s (Run.start g.start source) last ∧ last.growth.isComplete = true := by
  rw [runFor_eq built] at closed
  have begun : Run.Closing g s (Run.start g.start source) (Run.start g.start source) :=
    .start (.start built unit) (.start _) closing
  exact begun.resume built closed

theorem height_eq_cost (built : g.Built) (unit : Draws.InUnit source) {k : Nat}
    (closing : (Run.start g.start source).nextPhase g s = .closing)
    (cost : Cost.ofName g.costs g.start = .finite k) {fuel : Nat} {last : Run σ}
    (closed : runFor fuel g s source = .closed last) : last.growth.tree.height = k := by
  obtain ⟨done, complete⟩ := closing_of_closed built unit closing closed
  obtain ⟨b, root, named⟩ := done.valid.follows.root
  have height := done.cost_eq complete (.inl (List.mem_singleton_self 0)) root
  rw [named, cost, ← Growth.tree_eq] at height
  exact (Cost.finite.inj height).symm

end Generation

/-- Closing is optimal. In a run that closes, every name that is open at a step of the closing phase
ends with a complete subtree exactly as high as the name costs, and no complete tree of the name is
lower. The phase is that of all steps if at most one leaf may be open or no step may be spent before
it. Such a run, from a start of finite cost and without a step limit, closes after no more steps than
a full tree of that cost has nodes; the deepest expanded node of its tree lies one level above the
cost. Only a tree with more open leaves than a float can count, of which one is to be drawn, stops
it. -/
theorem Generation.closing_optimal {rules : Rules} {start : String} {g : Grammar}
    (mapping : rules.Distinct) (success : Grammar.build? rules start = .ok g)
    (weighable : rules.Weighable) (s : Settings) (unit : Draws.InUnit source) :
    (∀ fuel last, runFor fuel g s source = .closed last → ∀ run decision next,
      Run.Reachable g s source run → run.step g s = .moved decision next →
        decision.phase = .closing → ∀ number ∈ run.growth.worklist.toList,
          last.growth.Optimal g number (run.growth.bud number).name
            (run.growth.bud number).depth) ∧
    (∀ low high : Int, s.Valid → s.minimum.split = .inl low → s.maximum.split = .inl high →
      high ≤ 1 → (Run.start start source).nextPhase g s = .closing) ∧
    (∀ limit, s.budget = some limit → limit.split = .inl 0 →
      (Run.start start source).nextPhase g s = .closing) ∧
    ((Run.start start source).nextPhase g s = .closing → s.maxSteps = none → ∀ k,
      g.costs.get? start = some (.finite k) → ∀ fuel, Grammar.fullTree g.width k < fuel →
        (∃ last, runFor fuel g s source = .closed last ∧ last.growth.tree.IsDerivation rules ∧
          last.growth.tree.symbol = .nonterminal start ∧ last.growth.tree.height = k ∧
          rules.LeastHeight start k ∧
          (∀ n ∈ last.growth.tree.nodes, n.2.leafSymbol? = none → n.1 ≤ k - 1) ∧
          ∃ n ∈ last.growth.tree.nodes, n.2.leafSymbol? = none ∧ n.1 = k - 1) ∨
        ∃ run, Run.Reachable g s source run ∧ Choice.Uncountable s.policy run.growth ∧
          run.growth.openCount ≤ Grammar.fullTree g.width k) := by
  obtain ⟨built, rfl, rfl⟩ := Grammar.built_of_build? mapping success
  refine ⟨?_, ?_, ?_, ?_⟩
  · intro fuel last closed run decision next reachable moved phase number inside
    rw [runFor_eq built] at closed
    obtain ⟨rest, later⟩ := reachable.resume_closed closed
    have valid := reachable.valid built unit
    have ordered := reachable.ordered built unit
    have closing := (Run.advance_of_moved moved).phase.symm.trans phase
    obtain ⟨done, complete⟩ := (Run.Closing.start valid ordered closing).resume built later
    exact done.optimal built complete valid ordered inside
  · intro low high accepted minimum maximum few
    exact closing_of_maximum accepted minimum maximum few
  · intro limit given nothing
    exact closing_of_budget given nothing
  · intro closing unlimited k cost fuel enough
    have value : Cost.ofName g.costs g.start = .finite k := by rw [Cost.ofName, cost]; rfl
    have steps : g.leafSteps g.start = Grammar.fullTree g.width k := by
      rw [Grammar.leafSteps, value]
    rw [← steps] at enough
    rcases closed_of_shrinking built weighable unit unlimited closing value enough with
      ⟨last, closed⟩ | stuck
    · left
      have height := height_eq_cost built unit closing value closed
      obtain ⟨derivation, root⟩ := closed_isDerivation built unit closed
      have least := built.exact.eq_finite_iff.mp value
      have some := derivation.height_pos root
      refine ⟨last, closed, derivation, root, height, least, ?_, ?_⟩
      · intro n inside expanded
        rw [Tree.nodes_eq_walk] at inside
        have := Tree.walk_depth_lt inside expanded
        omega
      · obtain ⟨n, inside, expanded, deep⟩ := Tree.exists_deepest 0 some
        rw [← Tree.nodes_eq_walk] at inside
        exact ⟨n, inside, expanded, by omega⟩
    · rw [steps] at stuck
      exact .inr stuck

def closingSettings : Settings := ⟨.int 0, .int 1, .leftmost, none, none⟩

theorem Generation.closing_optimal_list : listRules.Distinct ∧ listRules.Weighable ∧
    Draws.InUnit (Source.replaying #[0.5]) ∧ ∀ fuel, 3 < fuel → ∃ last,
      runFor fuel ⟨listRules, "list", (Cost.estimate listRules).table⟩ closingSettings
        (Source.replaying #[0.5]) = .closed last ∧ last.growth.tree.height = 2 ∧
      last.growth.Optimal ⟨listRules, "list", (Cost.estimate listRules).table⟩ 0 "list" 0 := by
  have mapping : listRules.Distinct := by decide
  have weighable : listRules.Weighable := by
    simp [Rules.Weighable, listRules, Expansion.effectiveWeight, Expansion.unweighted]
  have unit : Draws.InUnit (Source.replaying #[0.5]) := Source.replaying_inUnit (by decide)
  obtain ⟨subtrees, few, -, whole⟩ :=
    Generation.closing_optimal mapping listRules_build weighable closingSettings unit
  refine ⟨mapping, weighable, unit, fun fuel enough => ?_⟩
  have accepted : closingSettings.Valid := by
    refine ⟨by decide, by decide, ?_, ?_⟩
    · intro limit given
      cases given
    · intro limit given
      cases given
  have closing := few 0 1 accepted rfl rfl (Int.le_refl 1)
  rcases whole closing rfl 2 (by decide) fuel enough with
    ⟨last, closed, -, -, height, -⟩ | ⟨run, -, ⟨drawn, -⟩, -⟩
  · refine ⟨last, closed, height, ?_⟩
    exact subtrees fuel last closed _ _ _ .start rfl rfl 0 (List.mem_singleton_self 0)
  · cases drawn

end GrammarSampler
