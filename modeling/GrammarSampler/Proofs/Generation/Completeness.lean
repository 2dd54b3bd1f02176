import GrammarSampler.Proofs.Generation.Exact
import GrammarSampler.Proofs.Generation.Termination

/-!
Generation is complete. Every derivation tree of the start can be grown: each open name is to become
the tree of one place, the leaf that the policy takes is expanded the way its tree is, and what is
left to expand gets smaller with every step.
-/
namespace GrammarSampler

namespace Tree

def branches (children : List Tree) : List Tree := children.filter fun c => c.symbol.name?.isSome

theorem branches_cons_terminal {c : Tree} {text : String} (root : c.symbol = .terminal text)
    (rest : List Tree) : branches (c :: rest) = branches rest :=
  List.filter_cons_of_neg (by simp [root, Symbol.name?])

theorem branches_cons_name {c : Tree} {name : String} (root : c.symbol = .nonterminal name)
    (rest : List Tree) : branches (c :: rest) = c :: branches rest :=
  List.filter_cons_of_pos (by simp [root, Symbol.name?])

theorem names_branches (children : List Tree) :
    ((children.map symbol).filterMap Symbol.name?).map Symbol.nonterminal =
      (branches children).map symbol := by
  induction children with
  | nil => rfl
  | cons c rest ih =>
    cases root : c.symbol with
    | terminal text =>
      rw [branches_cons_terminal root, List.map_cons, root, List.filterMap_cons_none rfl, ih]
    | nonterminal name =>
      have head : Symbol.name? (.nonterminal name) = some name := rfl
      rw [branches_cons_name root, List.map_cons, root, List.filterMap_cons_some head,
        List.map_cons, List.map_cons, ih, root]

theorem getElem?_branches {children : List Tree} {k : Nat} {used : String}
    (named : ((children.map symbol).filterMap Symbol.name?)[k]? = some used) :
    ∃ c ∈ children, (branches children)[k]? = some c ∧ c.symbol = .nonterminal used := by
  have lists := congrArg (·[k]?) (names_branches children)
  rw [List.getElem?_map, List.getElem?_map, named, Option.map_some, eq_comm,
    Option.map_eq_some_iff] at lists
  obtain ⟨c, found, root⟩ := lists
  exact ⟨c, (List.mem_filter.mp (List.mem_of_getElem? found)).1, found, root⟩

theorem length_branches (children : List Tree) :
    ((children.map symbol).filterMap Symbol.name?).length = (branches children).length := by
  simpa using congrArg List.length (names_branches children)

theorem sum_branches_le (children : List Tree) :
    ((branches children).map count).sum ≤ countAll children := by
  rw [countAll_eq_sum]
  exact (List.filter_sublist.map count).sum_le_sum fun _ _ => Nat.zero_le _

theorem IsDerivation.exists_node {rules : Rules} {t : Tree} {name : String}
    (complete : t.IsDerivation rules) (root : t.symbol = .nonterminal name) :
    ∃ (index : Nat) (alternatives : List Expansion) (e : Expansion) (children : List Tree),
      t = .node name index children ∧ rules.get? name = some alternatives ∧
      alternatives[index]? = some e ∧ children.map symbol = e.symbols ∧
      ∀ c ∈ children, c.IsDerivation rules := by
  cases complete with
  | terminal text => cases root
  | node rule chosen shape below =>
    cases root
    exact ⟨_, _, _, _, rfl, rule, chosen, shape, below⟩

theorem treesFrom_branches {rules : Rules} {later : Nat → Tree} {children : List Tree} {first : Nat}
    (complete : ∀ c ∈ children, c.IsDerivation rules)
    (placed : ∀ (k : Nat) (c : Tree), (branches children)[k]? = some c → later (first + k) = c) :
    Bud.treesFrom later first (children.map symbol) = children := by
  induction children generalizing first with
  | nil => rfl
  | cons c rest ih =>
    have tail : ∀ d ∈ rest, d.IsDerivation rules := fun d inside =>
      complete d (List.mem_cons_of_mem c inside)
    cases complete c List.mem_cons_self with
    | terminal text =>
      rw [List.map_cons, symbol, Bud.treesFrom, ih tail placed]
    | @node name index alternatives e inner rule chosen shape below =>
      have here := placed 0 _ rfl
      have behind := @ih (first + 1) tail fun k d found => by
        rw [show first + 1 + k = first + (k + 1) by omega]
        exact placed (k + 1) d found
      rw [List.map_cons, symbol, Bud.treesFrom, behind]
      exact congrArg (· :: rest) here

end Tree

namespace Growth
variable {rules : Rules} {start : String} {g : Growth} {target : Nat → Tree}

theorem treesFrom_congr {f h : Nat → Tree} {symbols : List Symbol} {first : Nat}
    (same : ∀ (k : Nat) (used : String), (symbols.filterMap Symbol.name?)[k]? = some used →
      f (first + k) = h (first + k)) :
    Bud.treesFrom f first symbols = Bud.treesFrom h first symbols := by
  induction symbols generalizing first with
  | nil => rfl
  | cons s rest ih =>
    cases s with
    | terminal text => rw [Bud.treesFrom, Bud.treesFrom, ih same]
    | nonterminal name =>
      have here : f first = h first := same 0 name rfl
      rw [Bud.treesFrom, Bud.treesFrom, here, ih]
      intro k used named
      rw [show first + 1 + k = first + (k + 1) by omega]
      exact same (k + 1) used named

/-- Every name is to become a complete tree, and what has been expanded agrees with it. -/
structure Toward (rules : Rules) (target : Nat → Tree) (g : Growth) : Prop where
  planned : ∀ i b, g.names[i]? = some b →
    (target i).IsDerivation rules ∧ (target i).symbol = .nonterminal b.name
  agrees : ∀ i b x, g.names[i]? = some b → b.expanded = some x →
    target i = .node b.name x.alternative (Bud.treesFrom target x.first x.symbols)

def extend (target : Nat → Tree) (size : Nat) (new : List Tree) (i : Nat) : Tree :=
  if i < size then target i else new.getD (i - size) default

theorem extend_old {size i : Nat} {new : List Tree} (inside : i < size) :
    extend target size new i = target i := if_pos inside

theorem extend_new {size k : Nat} {new : List Tree} {t : Tree} (found : new[k]? = some t) :
    extend target size new (size + k) = t := by
  rw [extend, if_neg (by omega), Nat.add_sub_cancel_left, List.getD_eq_getElem?_getD, found]
  rfl

theorem map_extend {β : Type} (f : Tree → β) (size : Nat) (new : List Tree) :
    (List.range' size new.length).map (fun i => f (extend target size new i)) = new.map f := by
  apply List.ext_getElem (by simp)
  intro k before after
  rw [List.getElem_map, List.getElem_range', Nat.one_mul, List.getElem_map,
    extend_new (List.getElem?_eq_getElem _)]

def work (target : Nat → Tree) (g : Growth) : Nat :=
  (g.worklist.toList.map fun i => (target i).count).sum

theorem openCount_le_work : g.openCount ≤ g.work target := by
  have each : ∀ n ∈ g.worklist.toList.map fun i => (target i).count, 1 ≤ n := by
    intro n inside
    obtain ⟨i, -, rfl⟩ := List.mem_map.mp inside
    rw [Tree.count_eq_children]
    exact Nat.le_add_left 1 _
  have count := List.length_le_sum_of_one_le _ each
  rwa [List.length_map, Worklist.length_toList] at count

namespace Toward
variable {number p index : Nat} {b : Bud} {e : Expansion} {children : List Tree}

theorem expand (toward : Toward rules target g) (follows : Follows rules start g)
    (found : g.names[number]? = some b) (node : target number = .node b.name index children)
    (complete : ∀ c ∈ children, c.IsDerivation rules) (shape : children.map Tree.symbol = e.symbols) :
    Toward rules (extend target g.names.size (Tree.branches children))
      (g.expandNumber number p index e) := by
  constructor
  · intro i c here
    rcases names_expand_cases found here with ⟨rfl, rfl⟩ | ⟨inside, -, old⟩ |
      ⟨k, used, rfl, named, rfl, -⟩
    · rw [extend_old (Array.getElem?_eq_some_iff.mp found).1]
      exact toward.planned i b found
    · rw [extend_old inside]
      exact toward.planned i c old
    · rw [Expansion.references, ← shape] at named
      obtain ⟨d, mem, placed, root⟩ := Tree.getElem?_branches named
      rw [extend_new placed]
      exact ⟨complete d mem, root⟩
  · intro i c x here expanded
    rcases names_expand_cases found here with ⟨rfl, rfl⟩ | ⟨inside, -, old⟩ | ⟨_, _, _, _, _, opened⟩
    · cases expanded
      rw [extend_old (Array.getElem?_eq_some_iff.mp found).1, node]
      dsimp only
      rw [← shape, Tree.treesFrom_branches complete fun k c => extend_new]
    · obtain ⟨-, -, below⟩ := follows.recorded i c x old expanded
      rw [extend_old inside, toward.agrees i c x old expanded]
      congr 1
      apply treesFrom_congr
      intro k used named
      obtain ⟨d, there, -⟩ := below k used named
      rw [extend_old (Array.getElem?_eq_some_iff.mp there).1]
    · rw [opened] at expanded
      cases expanded

theorem work_expand (follows : Follows rules start g) (place : g.worklist.toList[p]? = some number)
    (node : target number = .node b.name index children)
    (shape : children.map Tree.symbol = e.symbols) :
    (g.expandNumber number p index e).work (extend target g.names.size (Tree.branches children)) + 1 ≤
      g.work target := by
  obtain ⟨inside, here⟩ := List.getElem?_eq_some_iff.mp place
  have old : ∀ l : List Nat, (∀ i ∈ l, i ∈ g.worklist.toList) →
      (l.map fun i => (extend target g.names.size (Tree.branches children) i).count) =
        l.map fun i => (target i).count := by
    intro l from_
    refine List.map_congr_left fun i mem => ?_
    rw [extend_old (follows.size_le_of_mem (from_ i mem))]
  have length : e.references.length = (Tree.branches children).length := by
    rw [Expansion.references, ← shape, Tree.length_branches]
  have split : g.worklist.toList = g.worklist.toList.take p ++ number ::
      g.worklist.toList.drop (p + 1) := by
    rw [← here, ← List.drop_eq_getElem_cons, List.take_append_drop]
  have whole := congrArg (fun l : List Nat => (l.map fun i => (target i).count).sum) split
  rw [List.map_append, List.map_cons, List.sum_append, List.sum_cons, node, Tree.count] at whole
  have few := Tree.sum_branches_le children
  have bound : p < g.openCount := by rwa [openCount, ← Worklist.length_toList]
  rw [work, work, worklist_expand bound, List.map_append, List.map_append,
    old _ fun i => List.mem_of_mem_take, old _ fun i => List.mem_of_mem_drop, length,
    map_extend Tree.count, List.sum_append, List.sum_append]
  omega

theorem treeAt_eq (toward : Toward rules target g) (follows : Follows rules start g)
    (complete : g.isComplete = true) {i : Nat} (found : g.names[i]? = some b) :
    treeAt g.names i = target i := by
  -- An alternative refers to later names only, so the induction is on how many there are.
  generalize behind : g.names.size - i = n
  induction n using Nat.strongRecOn generalizing i b with
  | ind n ih =>
    obtain ⟨later, made, agree⟩ := Growth.treeAt_eq found
    have place := (Array.getElem?_eq_some_iff.mp found).1
    cases expanded : b.expanded with
    | none =>
      have inside := (follows.opened i).mpr ⟨b, found, expanded⟩
      rw [toList_of_isComplete complete] at inside
      cases inside
    | some x =>
      obtain ⟨-, after, below⟩ := follows.recorded i b x found expanded
      have same : Bud.treesFrom later x.first x.symbols = Bud.treesFrom target x.first x.symbols := by
        apply treesFrom_congr
        intro k used named
        obtain ⟨c, there, -⟩ := below k used named
        have bound := (Array.getElem?_eq_some_iff.mp there).1
        rw [agree (x.first + k) (by omega) bound]
        exact ih (g.names.size - (x.first + k)) (by omega) there rfl
      rw [made, toward.agrees i b x found expanded, ← same]
      unfold Bud.tree
      rw [expanded]

end Toward
end Growth

/-- Every alternative weighs a positive fraction. -/
def Rules.Positive (rules : Rules) : Prop :=
  ∀ rule ∈ rules, ∀ e ∈ rule.2, ∃ w : ℚ, Arithmetic.ofExpansion e = .ok w ∧ 0 < w

/-- Settings under which a tree of `n` nodes can be explored: nothing has to be grown first, more
than `n` leaves may be open, and there is no limit below `n` steps. -/
structure Settings.Roomy (s : Settings) (n : Nat) : Prop where
  minimum : s.minimum = .int 0
  maximum : ∃ high : Int, s.maximum = .int high ∧ n < high
  budget : ∀ limit, s.budget = some limit → ∃ steps : Int, limit = .int steps ∧ n ≤ steps
  unlimited : s.maxSteps = none

namespace Run
variable {σ : Type} {g : Grammar} {s : Settings} {n : Nat}

theorem nextPhase_of_roomy (roomy : s.Roomy n) {run : Run σ} (early : run.phase ≠ .closing)
    (steps : run.growth.steps < n) (leaves : run.growth.openCount ≤ n) :
    run.nextPhase g s = .exploration := by
  obtain ⟨high, maximum, wide⟩ := roomy.maximum
  have within : Phase.spent s run.growth.steps = false := by
    cases given : s.budget with
    | none => rw [Phase.spent, given, Option.any_none]
    | some limit =>
      obtain ⟨budget, rfl, long⟩ := roomy.budget limit given
      rw [Phase.spent, given, Option.any_some, Number.reachedBy_int]
      exact decide_eq_false (by omega)
  have grown : s.minimum.exceeds run.growth.openCount = false := by
    rw [roomy.minimum, Number.exceeds_int]
    exact decide_eq_false (by omega)
  have room : s.maximum.exceeds run.growth.openCount = true := by
    rw [maximum, Number.exceeds_int]
    exact decide_eq_true (by omega)
  rw [nextPhase, Phase.next, if_neg early, within, grown, room]
  simp

theorem stepLimit?_of_roomy (roomy : s.Roomy n) (run : Run σ) : stepLimit? s run = none := by
  rw [stepLimit?, roomy.unlimited]

theorem exists_step {growth : Growth} {p number index : Nat} {b : Bud} {e : Expansion}
    {leafDraws draws more : List ℚ} (roomy : s.Roomy n) (unfinished : growth.isComplete = false)
    (steps : growth.steps < n) (leaves : growth.openCount ≤ n)
    (leaf : Choice.Forces leafDraws (fun source => Choice.leaf s.policy growth source) (p : Int))
    (place : growth.worklist.toList[p]? = some number) (found : growth.names[number]? = some b)
    (chosen : Choice.Forces draws (fun source => Choice.alternative g b.name .exploration source)
      index)
    (taken : (g.alternatives b.name)[index]? = some e) [Draws σ ℚ] {run : Run σ}
    (same : run.growth = growth) (early : run.phase ≠ .closing)
    (yields : Draws.Yields run.source (leafDraws ++ (draws ++ more))) :
    ∃ decision next, run.step g s = .moved decision next ∧
      next.growth = growth.expandNumber number p index e ∧ next.phase ≠ .closing ∧
      Draws.Yields next.source more := by
  subst same
  obtain ⟨position, behind⟩ := leaf.2 run.source (draws ++ more) yields
  obtain ⟨drawn, rest⟩ := chosen.2 (run.leafSource s) more behind
  have phase := nextPhase_of_roomy (g := g) roomy early steps leaves
  have placed := Growth.number?_natCast.mpr place
  have bud := Growth.bud_eq found
  obtain ⟨next, moved⟩ := moved_of_parts unfinished (stepLimit?_of_roomy roomy run) position placed
    (by rw [bud, phase]; exact drawn) (by rw [bud]; exact taken)
  have advance := advance_of_moved moved
  refine ⟨_, next, moved, ?_, ?_, ?_⟩
  · obtain ⟨number', e', there, -, taken', grown⟩ := advance.grown
    dsimp only at there taken' grown
    rw [placed, Except.ok.injEq] at there
    subst there
    rw [bud, taken, Option.some.injEq] at taken'
    rw [grown, taken']
  · rw [advance.kept, advance.phase, phase]
    nofun
  · rw [advance.rest]
    dsimp only
    rw [bud, phase]
    exact rest

end Run

namespace Generation

theorem exists_cost {g : Grammar} (built : g.Built) {t : Tree} {name : String}
    (complete : t.IsDerivation g.rules) (root : t.symbol = .nonterminal name) :
    ∃ k, g.costs.get? name = some (.finite k) := by
  have closes := complete.closesIn root
  rw [built.cost closes.defined]
  have bound := (built.exact name t.height).mpr closes
  cases cost : Cost.ofName g.costs name with
  | finite k => exact ⟨k, rfl⟩
  | infinite =>
    rw [cost] at bound
    exact bound.elim

theorem exists_draws {g : Grammar} (built : g.Built) (positive : g.rules.Positive)
    (policy : LeafPolicy) {growth : Growth} {target : Nat → Tree} {n : Nat}
    (follows : growth.Follows g.rules g.start) (toward : growth.Toward g.rules target)
    (bound : growth.steps + growth.work target ≤ n) :
    ∃ draws : List ℚ, (∀ x ∈ draws, 0 ≤ x ∧ x < 1) ∧
      ∀ (s : Settings), s.policy = policy → s.Roomy n → ∀ {σ : Type} [Draws σ ℚ] (run : Run σ),
        run.growth = growth → run.phase ≠ .closing → Draws.Yields run.source draws →
          ∀ fuel, growth.work target < fuel →
            ∃ last, Run.resume g s fuel run = .closed last ∧ last.growth.tree = target 0 := by
  generalize amount : growth.work target = todo
  induction todo using Nat.strongRecOn generalizing growth target with
  | ind todo ih =>
  cases unfinished : growth.isComplete with
  | true =>
    refine ⟨[], nofun, fun s _ _ σ _ run same _ _ fuel enough => ?_⟩
    subst same
    obtain ⟨b, root, -⟩ := follows.root
    refine ⟨run, ?_, by rw [Growth.tree_eq, toward.treeAt_eq follows unfinished root]⟩
    cases fuel with
    | zero => exact absurd enough (Nat.not_lt_zero _)
    | succ fuel => rw [Run.resume, Run.step_of_complete unfinished]
  | false =>
    obtain ⟨p, inside, leafDraws, leaf⟩ := Choice.exists_leaf policy (Run.openCount_pos unfinished)
    rw [Growth.openCount, ← Worklist.length_toList] at inside
    have place := List.getElem?_eq_getElem inside
    generalize growth.worklist.toList[p] = number at place
    obtain ⟨b, found, unexpanded⟩ := follows.at_position place
    obtain ⟨complete, root⟩ := toward.planned number b found
    obtain ⟨k, cost⟩ := exists_cost built complete root
    obtain ⟨index, alternatives, e, children, node, rule, chosen, shape, below⟩ :=
      complete.exists_node root
    have own := Run.alternatives_eq rule
    obtain ⟨draws, settled⟩ := @Choice.exists_alternative g b.name k index cost
      (by rw [own]; exact positive _ (Entries.mem_of_get? rule))
      (by rw [own]; exact (List.getElem?_eq_some_iff.mp chosen).1)
    have grown := follows.expand place found rule chosen fun used mem =>
      built.known rule (List.mem_of_getElem? chosen) mem
    have next := toward.expand (p := p) follows found node below shape
    have less := Growth.Toward.work_expand follows place node shape
    have wide := @Growth.openCount_le_work growth target
    have steps : (growth.expandNumber number p index e).steps = growth.steps + 1 := rfl
    obtain ⟨later, unit, finish⟩ := ih _ (by omega) grown next (by omega) rfl
    refine ⟨leafDraws ++ (draws ++ later), ?_, ?_⟩
    · intro x mem
      rcases List.mem_append.mp mem with first | mem
      · exact leaf.1 x first
      · rcases List.mem_append.mp mem with second | third
        · exact settled.1 x second
        · exact unit x third
    · intro s same roomy σ _ run start early yields fuel enough
      subst same
      obtain ⟨decision, after, moved, growth_eq, open_, rest⟩ := Run.exists_step roomy unfinished
        (by omega) (by omega) leaf place found settled (by rw [own]; exact chosen) start early yields
      cases fuel with
      | zero => exact absurd enough (Nat.not_lt_zero _)
      | succ fuel =>
        obtain ⟨last, closed, tree⟩ := finish s rfl roomy after growth_eq open_ rest fuel (by omega)
        obtain ⟨first, there, -⟩ := follows.root
        rw [Growth.extend_old (Array.getElem?_eq_some_iff.mp there).1] at tree
        refine ⟨last, ?_, tree⟩
        rw [Run.resume, moved]
        exact closed

theorem exists_draws_of_tree {g : Grammar} (built : g.Built) (positive : g.rules.Positive)
    (policy : LeafPolicy) {t : Tree} (complete : t.IsDerivation g.rules)
    (root : t.symbol = .nonterminal g.start) :
    ∃ draws : List ℚ, (∀ x ∈ draws, 0 ≤ x ∧ x < 1) ∧
      ∀ (s : Settings), s.policy = policy → s.Roomy t.count → ∀ {σ : Type} [Draws σ ℚ] (source : σ),
        Draws.Yields source draws → ∀ fuel, t.count < fuel →
          ∃ last, runFor fuel g s source = .closed last ∧ last.growth.tree = t := by
  have follows : (Growth.start g.start).Follows g.rules g.start := .start built.present
  have toward : (Growth.start g.start).Toward g.rules fun _ => t := by
    constructor
    · intro i b found
      cases i with
      | zero =>
        cases found
        exact ⟨complete, root⟩
      | succ i => simp [Growth.start] at found
    · intro i b x found expanded
      cases i with
      | zero =>
        cases found
        cases expanded
      | succ i => simp [Growth.start] at found
  have work : (Growth.start g.start).work (fun _ => t) = t.count := Nat.add_zero _
  have bound : (Growth.start g.start).steps + (Growth.start g.start).work (fun _ => t) ≤ t.count := by
    rw [work]
    exact (Nat.zero_add _).le
  obtain ⟨draws, unit, finish⟩ := exists_draws built positive policy follows toward bound
  refine ⟨draws, unit, fun s same roomy σ _ source yields fuel enough => ?_⟩
  rw [runFor_eq built]
  have opening : (Run.start g.start source).phase ≠ .closing := by
    intro closing
    cases closing
  exact finish s same roomy (Run.start g.start source) rfl opening yields fuel (work ▸ enough)

/-- A budget of `n` steps and room for one more leaf. -/
def roomySettings (policy : LeafPolicy) (n : Nat) : Settings :=
  ⟨.int 0, .int (n + 1), policy, some (.int n), none⟩

theorem roomy_roomySettings (policy : LeafPolicy) (n : Nat) : (roomySettings policy n).Roomy n := by
  refine ⟨rfl, ⟨n + 1, rfl, by omega⟩, fun limit given => ?_, rfl⟩
  cases given
  exact ⟨n, rfl, Int.le_refl _⟩

theorem valid_roomySettings (policy : LeafPolicy) (n : Nat) : (roomySettings policy n).Valid := by
  refine ⟨rfl, ?_, fun b given => ?_, fun k given => ?_⟩
  · rw [roomySettings, Number.lt_int]
    exact decide_eq_false (by omega)
  · cases given
    rw [Number.lt_int]
    exact decide_eq_false (by omega)
  · cases given

theorem lt_stepBound (g : Grammar) (policy : LeafPolicy) (n : Nat) :
    n < (roomySettings policy n).stepBound g + 1 := by
  have bound := @budgetedSteps_le_stepBound g (roomySettings policy n) n (.int n) rfl rfl rfl
  rw [Grammar.budgetedSteps] at bound
  omega

section Closed
variable {σ : Type} [Draws σ ℚ] {g : Grammar} {s : Settings} {source : σ} {last : Run σ}

theorem grow_of_closed (closed : run g s source = .closed last) :
    (grow g s source).1.outcome = .ok last.growth := by
  rw [grow, closed]

theorem sample_of_closed {text : String} (closed : run g s source = .closed last)
    (spelled : last.growth.tree.text? = .ok text) : (sample g s source).1.outcome = .ok text := by
  rw [sample, grow, closed]
  exact spelled

end Closed
end Generation

/-- Generation is complete. If all weights are positive fractions and are reckoned with exactly, then
under every policy each derivation tree of the start has draws on which it is generated, whatever
source yields them, by valid settings and by all that leave room for its nodes. So every text that
the start derives can be sampled. -/
theorem Generation.every_tree_generated {rules : Rules} {start : String} {g : Grammar}
    (mapping : rules.Distinct) (success : Grammar.build? rules start = .ok g)
    (positive : rules.Positive) (policy : LeafPolicy) :
    (∀ t : Tree, t.IsDerivation rules → t.symbol = .nonterminal start →
      ∃ draws : List ℚ, (∀ x ∈ draws, 0 ≤ x ∧ x < 1) ∧
        (∃ s : Settings, s.policy = policy ∧ s.Valid ∧ s.Roomy t.count ∧
          ∀ {σ : Type} [Draws σ ℚ] (source : σ), Draws.Yields source draws →
            ∃ last, (grow g s source).1.outcome = .ok last ∧ last.tree = t) ∧
        ∀ (s : Settings), s.policy = policy → s.Roomy t.count →
          ∀ {σ : Type} [Draws σ ℚ] (source : σ), Draws.Yields source draws →
            ∀ fuel, t.count < fuel →
              ∃ last, runFor fuel g s source = .closed last ∧ last.growth.tree = t) ∧
    ∀ text : String, rules.Derives [.nonterminal start] text.toList →
      ∃ (s : Settings) (draws : List ℚ), s.policy = policy ∧ s.Valid ∧
        (∀ x ∈ draws, 0 ≤ x ∧ x < 1) ∧
        ∀ {σ : Type} [Draws σ ℚ] (source : σ), Draws.Yields source draws →
          (sample g s source).1.outcome = .ok text := by
  obtain ⟨built, rfl, rfl⟩ := Grammar.built_of_build? mapping success
  constructor
  · intro t complete root
    obtain ⟨draws, unit, finish⟩ := exists_draws_of_tree built positive policy complete root
    refine ⟨draws, unit, ⟨roomySettings policy t.count, rfl, valid_roomySettings policy t.count,
      roomy_roomySettings policy t.count, fun source yields => ?_⟩, finish⟩
    obtain ⟨last, closed, same⟩ := finish _ rfl (roomy_roomySettings policy t.count) source yields
      _ (lt_stepBound g policy t.count)
    exact ⟨last.growth, grow_of_closed closed, same⟩
  · intro text derived
    obtain ⟨t, complete, root, spelled⟩ := Tree.derives_iff_tree.mp derived
    obtain ⟨draws, unit, finish⟩ := exists_draws_of_tree built positive policy complete root
    refine ⟨roomySettings policy t.count, draws, rfl, valid_roomySettings policy t.count, unit,
      fun source yields => ?_⟩
    obtain ⟨last, closed, same⟩ := finish _ rfl (roomy_roomySettings policy t.count) source yields
      _ (lt_stepBound g policy t.count)
    refine sample_of_closed closed ?_
    rw [same, complete.text?_eq]
    exact congrArg Except.ok (String.toList_inj.mp ((Tree.toList_sententialForm t).trans spelled))

def itemTree : Tree := .node "item" 0 [.leaf (.terminal "x")]

def pairTree : Tree :=
  .node "list" 1 [itemTree, .leaf (.terminal ","), .node "list" 0 [itemTree]]

theorem pairTree_isDerivation : pairTree.IsDerivation listRules := by
  have item : itemTree.IsDerivation listRules := by
    refine @Tree.IsDerivation.node _ _ 0 _ _ _ rfl rfl rfl fun c inside => ?_
    rw [List.mem_singleton.mp inside]
    exact .terminal "x"
  have rest : (Tree.node "list" 0 [itemTree]).IsDerivation listRules := by
    refine @Tree.IsDerivation.node _ _ 0 _ _ _ rfl rfl rfl fun c inside => ?_
    rw [List.mem_singleton.mp inside]
    exact item
  refine @Tree.IsDerivation.node _ _ 1 _ _ _ rfl rfl rfl fun c inside => ?_
  simp only [List.mem_cons, List.not_mem_nil, or_false] at inside
  rcases inside with rfl | rfl | rfl
  · exact item
  · exact .terminal ","
  · exact rest

theorem Generation.every_tree_generated_list : listRules.Distinct ∧ listRules.Positive ∧
    pairTree.IsDerivation listRules ∧ pairTree.symbol = .nonterminal "list" ∧
    ∃ draws : List ℚ, (∀ x ∈ draws, 0 ≤ x ∧ x < 1) ∧ ∃ last,
      runFor 8 ⟨listRules, "list", (Cost.estimate listRules).table⟩ (roomySettings .random 7) draws =
        .closed last ∧ last.growth.tree = pairTree := by
  have mapping : listRules.Distinct := by decide
  have positive : listRules.Positive := by
    have unweighted : ∀ rule ∈ listRules, ∀ e ∈ rule.2, e.weight = none := by decide
    intro rule inside e chosen
    refine ⟨1, ?_, one_pos⟩
    dsimp only [Arithmetic.ofExpansion]
    rw [unweighted rule inside e chosen]
  have trees := (Generation.every_tree_generated mapping listRules_build positive .random).1
  obtain ⟨draws, unit, -, finish⟩ := trees pairTree pairTree_isDerivation rfl
  have count : pairTree.count = 7 := rfl
  rw [count] at finish
  obtain ⟨last, closed, same⟩ := finish (roomySettings .random 7) rfl
    (roomy_roomySettings .random 7) draws (Draws.yields_self draws) 8 (by decide)
  exact ⟨mapping, positive, pairTree_isDerivation, rfl, draws, unit, last, closed, same⟩

end GrammarSampler
