import GrammarSampler.Proofs.Generation.Dependence
import GrammarSampler.Proofs.Generation.Optimal
import GrammarSampler.Proofs.Generation.Traversal

/-!
Closing without a choice. Where every name has a single cheapest alternative, only the order of the
leaves is left open while closing, and it leaves no trace in the tree: the tree is the one that has
the cheapest alternative at each of its nodes.
-/
namespace GrammarSampler

/-- Of the names that the start leads to, each one that ends has a single cheapest alternative. -/
def Grammar.Decided (g : Grammar) : Prop :=
  ∀ name ∈ g.rules.reachable g.start, ∀ k, g.costs.get? name = some (.finite k) →
    ∃! index : Nat, ∃ e, (g.alternatives name)[index]? = some e ∧
      Cost.ofExpansion g.costs e =
        Cost.best ((g.alternatives name).map (Cost.ofExpansion g.costs))

theorem Cost.next_inj {c d : Cost} (same : c.next = d.next) : c = d := by
  cases c <;> cases d <;> simp_all [Cost.next]

namespace Choice

theorem nodup_candidates (table : CostTable Cost) (alternatives : List Expansion) :
    (candidates table .closing alternatives).Nodup := by
  rw [candidates_of_targeted (by decide)]
  refine List.Nodup.sublist (List.filter_sublist.map Prod.snd) ?_
  rw [List.zipIdx_map_snd]
  exact List.nodup_range'

theorem cheapest_iff_candidate {table : CostTable Cost} {alternatives : List Expansion} {index : Nat}
    (some : ∃ e ∈ alternatives, (Cost.ofExpansion table e).isFinite = true) :
    (∃ e, alternatives[index]? = .some e ∧
      Cost.ofExpansion table e = Cost.best (alternatives.map (Cost.ofExpansion table))) ↔
    index ∈ candidates table .closing alternatives := by
  obtain ⟨target, found⟩ := @exists_target .closing (alternatives.map (Cost.ofExpansion table))
    (by simpa using some)
  have finite := (List.mem_filter.mp (target?_mem found)).2
  rw [target?_closing found] at finite
  rw [mem_candidates_closing]
  constructor
  · rintro ⟨e, chosen, least⟩
    exact ⟨e, chosen, least ▸ finite, least⟩
  · rintro ⟨e, chosen, -, least⟩
    exact ⟨e, chosen, least⟩

theorem existsUnique_cheapest_iff {table : CostTable Cost} {alternatives : List Expansion}
    (some : ∃ e ∈ alternatives, (Cost.ofExpansion table e).isFinite = true) :
    (∃! index : Nat, ∃ e, alternatives[index]? = .some e ∧
      Cost.ofExpansion table e = Cost.best (alternatives.map (Cost.ofExpansion table))) ↔
    ∃ only, candidates table .closing alternatives = [only] := by
  simp only [cheapest_iff_candidate some]
  constructor
  · rintro ⟨only, inside, unique⟩
    refine ⟨only, List.perm_singleton.mp ?_⟩
    refine (List.perm_ext_iff_of_nodup (nodup_candidates table alternatives)
      (List.nodup_singleton only)).mpr fun index => ?_
    rw [List.mem_singleton]
    exact ⟨unique index, fun same => same ▸ inside⟩
  · rintro ⟨only, single⟩
    rw [single]
    exact ⟨only, List.mem_singleton_self only, fun index => List.mem_singleton.mp⟩

section Only
variable {ρ σ : Type} [Arithmetic ρ] [Draws σ ρ] {g : Grammar} {name : String} {phase : Phase}
  {source : σ}

theorem alternative_of_only {k only : Nat} (cost : g.costs.get? name = some (.finite k))
    (single : candidates g.costs phase (g.alternatives name) = [only]) :
    alternative g name phase source = (.ok only, source) := by
  have aimed := @isAimless_of_candidate g.costs phase (g.alternatives name) only
    (single ▸ List.mem_singleton_self only)
  rw [alternative_of_cost cost aimed, single]
  rfl

theorem leaf_source {policy : LeafPolicy} {growth : Growth} (directed : policy ≠ .random) :
    (leaf policy growth source).2 = source := by
  unfold leaf
  split
  · rfl
  · cases policy with
    | random => exact absurd rfl directed
    | leftmost => rfl
    | shallowest =>
      dsimp only
      split <;> rfl

end Only
end Choice

theorem Grammar.Decided.exists_only {g : Grammar} {name : String} (decided : g.Decided)
    (built : g.Built) (reached : g.rules.Reaches g.start name) {k : Nat}
    (cost : g.costs.get? name = some (.finite k)) :
    ∃ only, Choice.candidates g.costs .closing (g.alternatives name) = [only] :=
  (Choice.existsUnique_cheapest_iff (Run.exists_finite_alternative built cost)).mp
    (decided name ((Rules.mem_reachable built.mapping).mpr reached) k cost)

namespace Tree

/-- A complete tree that closing can lead to: a cheapest alternative at each of its nodes. -/
inductive IsCheapest (g : Grammar) : Tree → Prop where
  | terminal (text : String) : IsCheapest g (.leaf (.terminal text))
  | node {name : String} {index : Nat} {alternatives : List Expansion} {e : Expansion}
      {children : List Tree} (rule : g.rules.get? name = some alternatives)
      (chosen : alternatives[index]? = some e)
      (candidate : index ∈ Choice.candidates g.costs .closing alternatives)
      (shape : children.map symbol = e.symbols) (below : ∀ c ∈ children, IsCheapest g c) :
      IsCheapest g (.node name index children)

theorem eq_of_map_symbol {children others : List Tree}
    (same : others.map symbol = children.map symbol)
    (each : ∀ c ∈ children, ∀ d ∈ others, d.symbol = c.symbol → d = c) : others = children := by
  induction children generalizing others with
  | nil => exact List.map_eq_nil_iff.mp same
  | cons c rest ih =>
    cases others with
    | nil => cases same
    | cons d later =>
      obtain ⟨head, tail⟩ := List.cons.inj same
      rw [each c List.mem_cons_self d List.mem_cons_self head, ih tail fun c' inside d' inside' =>
        each c' (List.mem_cons_of_mem c inside) d' (List.mem_cons_of_mem d inside')]

/-- In a decided grammar a name that ends has one such tree at most. -/
theorem IsCheapest.unique {g : Grammar} (built : g.Built) (decided : g.Decided) {t other : Tree}
    (cheapest : t.IsCheapest g) (cheapest' : other.IsCheapest g) (same : other.symbol = t.symbol)
    (ends : ∀ name, t.symbol = .nonterminal name →
      g.rules.Reaches g.start name ∧ ∃ k, g.costs.get? name = some (.finite k)) : other = t := by
  induction cheapest generalizing other with
  | terminal text =>
    cases cheapest' with
    | terminal text' =>
      cases same
      rfl
    | node => cases same
  | @node name index alternatives e children rule chosen candidate shape _ ih =>
    cases cheapest' with
    | terminal text' => cases same
    | @node name' index' alternatives' e' others rule' chosen' candidate' shape' below' =>
      cases same
      rw [rule, Option.some.injEq] at rule'
      subst rule'
      obtain ⟨reached, k, cost⟩ := ends name rfl
      obtain ⟨only, single⟩ := decided.exists_only built reached cost
      rw [Run.alternatives_eq rule] at single
      rw [single, List.mem_singleton] at candidate candidate'
      subst candidate candidate'
      rw [chosen, Option.some.injEq] at chosen'
      subst chosen'
      rw [eq_of_map_symbol (shape'.trans shape.symm) fun c inside d inside' twin =>
        ih c inside (below' d inside') twin fun used head => ?_]
      have inside : used ∈ e.references := by
        refine List.mem_filterMap.mpr ⟨c.symbol, ?_, by rw [head]; rfl⟩
        rw [← shape]
        exact List.mem_map_of_mem inside
      refine ⟨Grammar.reaches_of_alternative reached ?_ inside, ?_⟩
      · rw [Run.alternatives_eq rule]
        exact List.mem_of_getElem? chosen
      · have targeted : Phase.closing ≠ .exploration := by decide
        refine Choice.finite_of_targeted targeted ?_ chosen used inside
        rw [single]
        exact List.mem_singleton_self _

end Tree

variable {σ : Type} [Draws σ Float] {g : Grammar} {s : Settings} {source : σ}

namespace Run

/-- The tree that a run from the start on ends with has cheapest alternatives only. -/
theorem Closing.isCheapest {last : Run σ} (built : g.Built)
    (closing : Closing g s (Run.start g.start source) last)
    (complete : last.growth.isComplete = true) :
    last.growth.tree.symbol = .nonterminal g.start ∧ last.growth.tree.IsCheapest g := by
  obtain ⟨b, root, named⟩ := closing.valid.follows.root
  rw [Growth.tree_eq, ← named]
  refine closing.valid.follows.treeAt_of_nodes complete .terminal ?_ root
  intro i index b x alternatives e children found expanded rule chosen symbols shape below
  have late : (Run.start g.start source).growth.Late i := by
    cases i with
    | zero => exact .inl (List.mem_singleton_self 0)
    | succ i => exact .inr (Nat.succ_le_succ (Nat.zero_le i))
  have cheapest := (closing.cheapest i b x late found expanded).2
  obtain ⟨ends, cost⟩ := cheapest
  rw [symbols] at ends cost
  have least : Cost.ofExpansion g.costs e =
      Cost.best (alternatives.map (Cost.ofExpansion g.costs)) := by
    rw [built.ofName_eq rule, Cost.ofRule] at cost
    exact (Cost.next_inj cost).symm
  exact .node rule chosen (Choice.mem_candidates_closing.mpr ⟨e, chosen, ends, least⟩) shape below

section Steps
variable {run : Run σ} {k : Nat} (built : g.Built) (decided : g.Decided)
  (unit : Draws.InUnit source)
  (closing : (Run.start g.start source).nextPhase g s = .closing)
  (cost : Cost.ofName g.costs g.start = .finite k)
include built decided unit closing cost

theorem Reachable.alternative_eq (reachable : Reachable g s source run) {number : Nat}
    (inside : number ∈ run.growth.worklist.toList) (from_ : σ) :
    ∃ only e, Choice.alternative g (run.growth.bud number).name (run.nextPhase g s) from_ =
        (.ok only, from_) ∧ (g.alternatives (run.growth.bud number).name)[only]? = some e := by
  have valid := reachable.valid built unit
  have shrinking := reachable.shrinking built unit closing cost
  obtain ⟨b, found, -⟩ := (valid.follows.opened number).mp inside
  obtain ⟨decisions, history⟩ := reachable.exists_history
  have reached := history.within.named b (Array.mem_toList_iff.mpr (Array.mem_of_getElem? found))
  obtain ⟨n, finite⟩ := shrinking.finite _ (List.mem_map_of_mem inside)
  rw [Growth.bud_eq found] at finite ⊢
  have table := built.cost (valid.follows.named number b found)
  rw [finite] at table
  obtain ⟨only, single⟩ := decided.exists_only built reached table
  have candidate : only ∈ Choice.candidates g.costs .closing (g.alternatives b.name) := by
    rw [single]
    exact List.mem_singleton_self only
  obtain ⟨e, chosen, -⟩ := Choice.mem_candidates_closing.mp candidate
  rw [shrinking.closing]
  exact ⟨only, e, Choice.alternative_of_only table single, chosen⟩

theorem Reachable.uncountable (unlimited : s.maxSteps = none) {fault : Fault} {last : Run σ}
    (reachable : Reachable g s source run) (stopped : run.step g s = .stopped fault last) :
    Choice.Uncountable s.policy run.growth := by
  have valid := reachable.valid built unit
  rcases valid.fails_cases built (fails_of_stopped stopped).1 with ⟨own, -, reached⟩ |
    ⟨many, -⟩ | ⟨p, number, b, alternatives, -, there, leaf, -, refused, -⟩
  · rw [stepLimit?, unlimited] at reached
    cases reached
  · exact many
  · obtain ⟨only, e, chosen, -⟩ := reachable.alternative_eq built decided unit closing cost
      (List.mem_of_getElem? there) (run.leafSource s)
    rw [Growth.bud_eq leaf] at chosen
    rw [chosen] at refused
    cases refused

theorem Reachable.source_eq (directed : s.policy ≠ .random) (reachable : Reachable g s source run) :
    run.source = source := by
  induction reachable with
  | start => rfl
  | @step run next decision before moved ih =>
    have advance := advance_of_moved moved
    have expands := (before.valid built unit).expands built advance
    obtain ⟨phase, position, name, index⟩ := decision
    obtain ⟨place, leaf, -⟩ := expands
    obtain ⟨only, e, chosen, -⟩ := before.alternative_eq built decided unit closing cost
      (List.mem_of_getElem? place) (run.leafSource s)
    rw [Growth.bud_eq leaf, ← advance.phase] at chosen
    rw [advance.rest, chosen]
    exact (Choice.leaf_source directed).trans ih

end Steps
end Run

namespace Generation

theorem closed_isCheapest (built : g.Built) (unit : Draws.InUnit source)
    (closing : (Run.start g.start source).nextPhase g s = .closing) {fuel : Nat} {last : Run σ}
    (closed : runFor fuel g s source = .closed last) :
    last.growth.tree.symbol = .nonterminal g.start ∧ last.growth.tree.IsCheapest g := by
  obtain ⟨done, complete⟩ := closing_of_closed built unit closing closed
  exact done.isCheapest built complete

theorem closed_of_decided (built : g.Built) (decided : g.Decided) (unit : Draws.InUnit source)
    (unlimited : s.maxSteps = none) {k : Nat}
    (closing : (Run.start g.start source).nextPhase g s = .closing)
    (cost : Cost.ofName g.costs g.start = .finite k) {fuel : Nat}
    (enough : g.leafSteps g.start < fuel) :
    (∃ last, runFor fuel g s source = .closed last ∧
      (s.policy ≠ .random → last.source = source)) ∨
    ∃ run, Run.Reachable g s source run ∧ Choice.Uncountable s.policy run.growth ∧
      run.growth.openCount ≤ g.leafSteps g.start := by
  rcases closed_or_stopped built unit closing cost enough with
    ⟨last, closed⟩ | ⟨run, fault, last, reachable, stopped⟩
  · refine .inl ⟨last, closed, fun directed => ?_⟩
    have reached : (runFor fuel g s source).Reached g s source fuel := reached_runFor built fuel
    rw [closed] at reached
    exact reached.1.source_eq built decided unit closing cost directed
  · have shrinking := reachable.shrinking built unit closing cost
    exact .inr ⟨run, reachable, reachable.uncountable built decided unit closing cost unlimited stopped,
      shrinking.openCount_le built (reachable.valid built unit)⟩

end Generation

/-- Settings with which closing begins at the first step: at most one leaf may be open, or no step
may be spent on anything else. -/
def Settings.ClosesAtOnce (s : Settings) : Prop :=
  (s.Valid ∧ ∃ low high : Int, s.minimum.split = .inl low ∧ s.maximum.split = .inl high ∧
    high ≤ 1) ∨ ∃ limit, s.budget = some limit ∧ limit.split = .inl 0

/-- Closing does not depend on the order of the leaves. If each name that ends has a single cheapest
alternative, all runs that close from the first step on, without a step limit, end with the same
tree: whatever the policy is and whatever is drawn. Policies that are not random draw nothing. Only a
tree with more open leaves than a float can count, of which one is to be drawn, stops a run. -/
theorem Generation.closing_independent {rules : Rules} {start : String} {g : Grammar}
    (mapping : rules.Distinct) (success : Grammar.build? rules start = .ok g) (decided : g.Decided)
    {k : Nat} (cost : g.costs.get? start = some (.finite k)) :
    (∀ (σ : Type) (source : σ) (s : Settings), s.ClosesAtOnce →
      (Run.start start source).nextPhase g s = .closing) ∧
    ∃ tree : Tree, tree.IsDerivation rules ∧ tree.symbol = .nonterminal start ∧ tree.height = k ∧
      ∀ (σ : Type) [Draws σ Float] (source : σ) (s : Settings), Draws.InUnit source →
        s.maxSteps = none → (Run.start start source).nextPhase g s = .closing →
        ∀ fuel, Grammar.fullTree g.width k < fuel →
          (∃ last, runFor fuel g s source = .closed last ∧ last.growth.tree = tree ∧
            (s.policy ≠ .random → last.source = source)) ∨
          ∃ run, Run.Reachable g s source run ∧ Choice.Uncountable s.policy run.growth ∧
            run.growth.openCount ≤ Grammar.fullTree g.width k := by
  obtain ⟨built, rfl, rfl⟩ := Grammar.built_of_build? mapping success
  have value : Cost.ofName g.costs g.start = .finite k := by rw [Cost.ofName, cost]; rfl
  have steps : g.leafSteps g.start = Grammar.fullTree g.width k := by rw [Grammar.leafSteps, value]
  constructor
  · rintro σ source s (⟨accepted, low, high, minimum, maximum, few⟩ | ⟨limit, given, nothing⟩)
    · exact closing_of_maximum accepted minimum maximum few
    · exact closing_of_budget given nothing
  have unit : Draws.InUnit (Source.replaying #[0.5]) := Source.replaying_inUnit (by decide)
  have closing : (Run.start g.start (Source.replaying #[0.5])).nextPhase g closingSettings =
      .closing := rfl
  rcases closed_of_decided built decided unit rfl closing value (Nat.lt_succ_self _) with
    ⟨first, closed, -⟩ | ⟨run, -, ⟨drawn, -⟩, -⟩
  · obtain ⟨root, cheapest⟩ := closed_isCheapest built unit closing closed
    refine ⟨first.growth.tree, (closed_isDerivation built unit closed).1, root,
      height_eq_cost built unit closing value closed, ?_⟩
    intro σ _ source s unit closed_ closing fuel enough
    rw [← steps] at enough ⊢
    rcases closed_of_decided built decided unit closed_ closing value enough with
      ⟨last, done, kept⟩ | stuck
    · obtain ⟨root', cheapest'⟩ := closed_isCheapest built unit closing done
      refine .inl ⟨last, done, cheapest.unique built decided cheapest' (root'.trans root.symm) ?_,
        kept⟩
      intro name same
      rw [root, Symbol.nonterminal.injEq] at same
      subst same
      exact ⟨.start, k, cost⟩
    · exact .inr stuck
  · cases drawn

/-- Both leaves of the fork end at once, though they could go on below another stem. -/
theorem Generation.closing_independent_fork : forkRules.Distinct ∧
    Grammar.build? forkRules "fork" = .ok forkGrammar ∧ forkGrammar.Decided ∧
    forkGrammar.costs.get? "fork" = some (.finite 3) ∧ Draws.InUnit (Source.replaying #[0.5]) ∧
    ∃ tree : Tree, tree.height = 3 ∧ ∀ policy : LeafPolicy, (forkSettings policy).ClosesAtOnce ∧
      ∃ last, runFor 8 forkGrammar (forkSettings policy) (Source.replaying #[0.5]) = .closed last ∧
        last.growth.tree = tree := by
  have mapping : forkRules.Distinct := by decide
  have single : ∀ name ∈ forkRules.reachable "fork",
      Choice.candidates forkGrammar.costs .closing (forkGrammar.alternatives name) = [0] := by decide
  have built : forkGrammar.Built := (Grammar.built_of_build? mapping forkRules_build).1
  have decided : forkGrammar.Decided := fun name inside k finite =>
    (Choice.existsUnique_cheapest_iff (Run.exists_finite_alternative built finite)).mpr
      ⟨0, single name inside⟩
  have cost : forkGrammar.costs.get? "fork" = some (.finite 3) := rfl
  have unit : Draws.InUnit (Source.replaying #[0.5]) := Source.replaying_inUnit (by decide)
  obtain ⟨closes, tree, -, -, height, same⟩ :=
    Generation.closing_independent mapping forkRules_build decided cost
  refine ⟨mapping, forkRules_build, decided, cost, unit, tree, height, fun policy => ?_⟩
  have atOnce : (forkSettings policy).ClosesAtOnce := by
    refine .inl ⟨⟨rfl, rfl, ?_, ?_⟩, 0, 1, rfl, rfl, Int.le_refl 1⟩
    · intro limit given
      cases given
    · intro limit given
      cases given
  refine ⟨atOnce, ?_⟩
  rcases same Source (Source.replaying #[0.5]) (forkSettings policy) unit rfl
    (closes Source (Source.replaying #[0.5]) _ atOnce) 8 (by decide) with
    ⟨last, closed, equal, -⟩ | ⟨run, -, ⟨-, many⟩, few⟩
  · exact ⟨last, closed, equal⟩
  · have small : Grammar.fullTree forkGrammar.width 3 ≤ 1023 := by decide
    have below : ∀ n, n < 2 ^ n := fun n => Nat.lt_two_pow_self
    have large := Nat.lt_of_lt_of_le (below 1023) (Nat.le_trans many few)
    exact absurd small (Nat.not_le_of_lt large)

end GrammarSampler
