import GrammarSampler.Proofs.Generation.Dependence

/-!
The closure of a name under references. It bounds what a generation can meet: whatever the draws are,
and wherever a run is left, its tree has no names but those that the start leads to.
-/
namespace GrammarSampler

namespace Tree

inductive Named (property : String → Prop) : Tree → Prop where
  | terminal (text : String) : Named property (.leaf (.terminal text))
  | leaf {name : String} (holds : property name) : Named property (.leaf (.nonterminal name))
  | node {name : String} {alternative : Int} {children : List Tree} (holds : property name)
      (below : ∀ c ∈ children, Named property c) : Named property (.node name alternative children)

variable {property : String → Prop} {t : Tree} {name : String}

theorem Named.of_mem_walk (named : Named property t) {depth : Nat} {place : Nat × Tree}
    (inside : place ∈ t.walk depth) (symbol : place.2.symbol = .nonterminal name) : property name := by
  induction named generalizing depth with
  | terminal text =>
    rw [List.mem_singleton.mp inside] at symbol
    cases symbol
  | leaf holds =>
    rw [List.mem_singleton.mp inside] at symbol
    cases symbol
    exact holds
  | node holds _ ih =>
    rw [walk, walkAll_eq_flatMap, List.flatMap_map] at inside
    rcases List.mem_cons.mp inside with rfl | below
    · cases symbol
      exact holds
    · obtain ⟨c, chosen, deeper⟩ := List.mem_flatMap.mp below
      exact ih c chosen deeper

theorem Named.of_mem_nodes (named : Named property t) {place : Nat × Tree} (inside : place ∈ t.nodes)
    (symbol : place.2.symbol = .nonterminal name) : property name :=
  named.of_mem_walk (t.nodes_eq_walk ▸ inside) symbol

end Tree

namespace Growth
variable {property : String → Prop}

theorem named_treesFrom {later : Nat → Tree} (each : ∀ i, (later i).Named property) (first : Nat)
    (symbols : List Symbol) : ∀ c ∈ Bud.treesFrom later first symbols, c.Named property := by
  induction symbols generalizing first with
  | nil => exact nofun
  | cons symbol rest ih =>
    intro c inside
    cases symbol with
    | terminal text =>
      rcases List.mem_cons.mp inside with rfl | behind
      · exact .terminal text
      · exact ih first c behind
    | nonterminal name =>
      rcases List.mem_cons.mp inside with rfl | behind
      · exact each first
      · exact ih (first + 1) c behind

theorem named_tree {later : Nat → Tree} (each : ∀ i, (later i).Named property) {b : Bud}
    (holds : property b.name) : (b.tree later).Named property := by
  unfold Bud.tree
  cases b.expanded with
  | none => exact .leaf holds
  | some x => exact .node holds (named_treesFrom each x.first x.symbols)

theorem named_getD {trees : Array Tree} (each : ∀ t ∈ trees, t.Named property) (i : Nat) :
    (trees.getD i default).Named property := by
  rw [Array.getD_eq_getD_getElem?]
  cases found : trees[i]? with
  | none => exact .terminal ""
  | some t => exact each t (Array.mem_of_getElem? found)

theorem named_treesOf (count : Nat) {last : List Bud} (named : ∀ b ∈ last, property b.name) :
    ∀ t ∈ treesOf count last, t.Named property := by
  induction last with
  | nil => exact nofun
  | cons b rest ih =>
    have later := ih fun c inside => named c (List.mem_cons_of_mem b inside)
    intro t inside
    rcases Array.mem_push.mp inside with old | rfl
    · exact later t old
    · exact named_tree (fun i => named_getD later _) (named b List.mem_cons_self)

/-- Expanding a name again does not matter: the tree is made of names that are there. -/
theorem Within.named_tree {g : Growth} (within : Within property g) : g.tree.Named property := by
  have each := named_treesOf g.names.size within.named
  rw [tree_eq, treeAt, trees_eq]
  exact named_getD each _

end Growth

def Outcome.last {σ : Type} : Outcome σ → Run σ
  | closed run => run
  | stopped _ run => run
  | unfinished run => run

section Runs
variable {ρ σ : Type} [Arithmetic ρ] [Draws σ ρ] {g : Grammar} {s : Settings}

theorem Run.within_resume (fuel : Nat) {run : Run σ}
    (within : run.growth.Within (g.rules.Reaches g.start)) :
    (run.resume g s fuel).last.growth.Within (g.rules.Reaches g.start) := by
  induction fuel generalizing run with
  | zero => exact within
  | succ fuel ih =>
    rw [resume]
    cases moved : run.step g s with
    | closed last => exact (complete_of_closed moved).1 ▸ within
    | stopped fault last =>
      dsimp only [Outcome.last]
      exact (fails_of_stopped moved).2 ▸ within
    | moved decision next => exact ih (within_of_moved within moved)

theorem Generation.within_runFor (fuel : Nat) (source : σ) :
    (runFor fuel g s source).last.growth.Within (g.rules.Reaches g.start) := by
  have first : (Run.start g.start source).growth.Within (g.rules.Reaches g.start) := .start .start
  unfold runFor
  dsimp only
  split
  · exact first
  · exact first
  · exact Run.within_resume fuel first

theorem Generation.last_of_grow {source : σ} {growth : Growth}
    (success : (grow g s source).1.outcome = .ok growth) : (run g s source).last.growth = growth := by
  unfold grow at success
  cases outcome : run g s source with
  | closed last =>
    rw [outcome] at success
    exact Except.ok.inj success
  | stopped fault last =>
    rw [outcome] at success
    cases success
  | unfinished last =>
    rw [outcome] at success
    cases success

end Runs

/-- The search from a name goes through to its end and finds the names that chains of references lead
to, each of them once. The rules that no chain from the start leads to are listed in rule order.
Whatever is drawn and however far a run is followed, its tree has no names but those found from the
start. -/
theorem Grammar.reachable_is_closure {rules : Rules} {start : String} {g : Grammar}
    (mapping : rules.Distinct) (success : Grammar.build? rules start = .ok g) :
    (∀ name ≠ "", (∀ found, rules.Visits [] [name] found ↔ found = g.reachable name) ∧
      (g.reachable name).Nodup ∧ ∀ used, used ∈ g.reachable name ↔ rules.Leads name used) ∧
    (∀ used, used ∈ g.reachable "" ↔ rules.Leads start used) ∧
    (g.unreachable.Sublist rules.keys ∧
      ∀ name, name ∈ g.unreachable ↔ name ∈ rules.keys ∧ ¬ rules.Leads start name) ∧
    ∀ {ρ σ : Type} [Arithmetic ρ] [Draws σ ρ] (s : Settings) (source : σ),
      (∀ fuel, ∀ place ∈ (Generation.runFor fuel g s source).last.growth.tree.nodes, ∀ name,
        place.2.symbol = .nonterminal name → name ∈ g.reachable "") ∧
      ∀ growth, (Generation.grow g s source).1.outcome = .ok growth → ∀ place ∈ growth.tree.nodes,
        ∀ name, place.2.symbol = .nonterminal name → name ∈ g.reachable "" := by
  obtain ⟨-, rfl, rfl⟩ := Grammar.built_of_build? mapping success
  have exact (root used : String) : used ∈ g.rules.reachable root ↔ g.rules.Leads root used := by
    rw [Rules.mem_reachable mapping, Rules.reaches_iff_leads]
  have whole : g.reachable "" = g.rules.reachable g.start := congrArg g.rules.reachable (if_pos rfl)
  have met {ρ σ : Type} [Arithmetic ρ] [Draws σ ρ] (s : Settings) (fuel : Nat) (source : σ) :
      ∀ place ∈ (Generation.runFor fuel g s source).last.growth.tree.nodes, ∀ name,
        place.2.symbol = .nonterminal name → name ∈ g.reachable "" := by
    intro place inside name symbol
    have within := @Generation.within_runFor _ _ _ _ g s fuel source
    rw [whole, Rules.mem_reachable mapping]
    exact within.named_tree.of_mem_nodes inside symbol
  refine ⟨fun name some => ?_, ?_, ⟨?_, ?_⟩, fun s source => ⟨fun fuel => met s fuel source, ?_⟩⟩
  · have own : g.reachable name = g.rules.reachable name :=
      congrArg g.rules.reachable (if_neg some)
    have visits := Rules.visits_reachable mapping name
    rw [own]
    refine ⟨fun found => ⟨fun again => again.unique visits, ?_⟩, visits.nodup List.nodup_nil,
      exact name⟩
    rintro rfl
    exact visits
  · rw [whole]
    exact exact g.start
  · rw [Grammar.unreachable, Rules.unreachable_eq]
    exact List.filter_sublist
  · intro name
    rw [Grammar.unreachable, Rules.unreachable_eq, List.mem_filter, decide_eq_true_eq, exact]
  · intro growth success
    rw [← Generation.last_of_grow success]
    exact met s _ source

theorem Grammar.reachable_is_closure_list : listRulesApart.Distinct ∧
    listRulesApart.Leads "spare" "item" ∧ ¬ listRulesApart.Leads "list" "spare" ∧
    ∀ used, listRulesApart.Leads "none" used ↔ used = "none" := by
  have mapping : listRulesApart.Distinct := by decide
  have success : Grammar.build? listRulesApart "list" =
      .ok ⟨listRulesApart, "list", (Cost.estimate listRulesApart).table⟩ :=
    Grammar.build?_eq_ok_iff.mpr ⟨⟨by decide, by decide, by decide⟩, rfl⟩
  obtain ⟨each, fromStart, -, -⟩ := Grammar.reachable_is_closure mapping success
  refine ⟨mapping, ((each "spare" (by decide)).2.2 "item").mp (by decide),
    (fromStart "spare").not.mp (by decide), fun used => ?_⟩
  rw [← (each "none" (by decide)).2.2 used]
  exact List.mem_singleton

end GrammarSampler
