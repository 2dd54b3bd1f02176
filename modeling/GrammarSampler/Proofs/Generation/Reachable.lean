import GrammarSampler.Proofs.Generation.Step
import GrammarSampler.Proofs.Grammar.Built
import GrammarSampler.Proofs.Tree.Complete

/-!
Reachable runs. With draws from zero to below one the growing tree of every reachable run follows
the rules of the grammar, and whatever moves expands an open name by an alternative of its rule.
-/
namespace GrammarSampler
variable {σ : Type} [Draws σ Float] {g : Grammar} {s : Settings} {source : σ}

namespace Run

inductive Reachable (g : Grammar) (s : Settings) (source : σ) : Run σ → Prop where
  | start : Reachable g s source (.start g.start source)
  | step {run next : Run σ} {decision : Decision} (before : Reachable g s source run)
      (moved : run.step g s = .moved decision next) : Reachable g s source next

/-- An open name is expanded by a candidate of its phase. Its rule, the costs that were compared
and at least one finite cost among them were there. -/
inductive Expands (g : Grammar) (run : Run σ) : Decision → Run σ → Prop where
  | intro {phase : Phase} {p number index : Nat} {b : Bud} {alternatives : List Expansion}
      {e : Expansion} {next : Run σ}
      (position : run.growth.worklist.toList[p]? = some number)
      (leaf : run.growth.names[number]? = some b) (unexpanded : b.expanded = none)
      (rule : g.rules.get? b.name = some alternatives)
      (cost : ∃ k, g.costs.get? b.name = some (.finite k))
      (costs : ∀ d ∈ alternatives, ∀ used ∈ d.references, ∃ c, g.costs.get? used = some c)
      (finite : ∃ d ∈ alternatives, (Cost.ofExpansion g.costs d).isFinite = true)
      (candidate : index ∈ Choice.candidates g.costs phase alternatives)
      (chosen : alternatives[index]? = some e)
      (grown : next.growth = run.growth.expandNumber number p index e) :
      Expands g run ⟨phase, p, b.name, index⟩ next

structure Valid (g : Grammar) (run : Run σ) : Prop where
  follows : run.growth.Follows g.rules g.start
  unit : Draws.InUnit run.source

theorem openCount_pos {growth : Growth} (unfinished : growth.isComplete = false) :
    0 < growth.openCount := by
  simp only [Growth.isComplete, Worklist.isEmpty, Array.isEmpty] at unfinished
  simp only [Growth.openCount, Worklist.size]
  have := of_decide_eq_false unfinished
  omega

theorem alternatives_eq {name : String} {alternatives : List Expansion}
    (found : g.rules.get? name = some alternatives) : g.alternatives name = alternatives := by
  rw [Grammar.alternatives, found]
  rfl

theorem exists_finite (built : g.Built) {name : String} {alternatives : List Expansion} {k : Nat}
    (rule : g.rules.get? name = some alternatives) (cost : g.costs.get? name = some (.finite k)) :
    ∃ e ∈ alternatives, (Cost.ofExpansion g.costs e).isFinite = true := by
  have value : Cost.ofName g.costs name = .finite k := by rw [Cost.ofName, cost]; rfl
  obtain ⟨j, -, best⟩ := built.best_eq rule value
  have bound : (Cost.best (alternatives.map (Cost.ofExpansion g.costs))).AtMost j := by
    rw [best]
    exact Nat.le_refl j
  obtain ⟨c, inside, low⟩ := Cost.atMost_best.mp bound
  obtain ⟨e, chosen, rfl⟩ := List.mem_map.mp inside
  refine ⟨e, chosen, ?_⟩
  cases own : Cost.ofExpansion g.costs e with
  | finite n => rfl
  | infinite => rw [own] at low; exact low.elim

theorem exists_finite_alternative (built : g.Built) {name : String} {k : Nat}
    (cost : g.costs.get? name = some (.finite k)) :
    ∃ e ∈ g.alternatives name, (Cost.ofExpansion g.costs e).isFinite = true := by
  have known : name ∈ g.costs.keys := (Entries.get?_isSome_iff _ _).mp (by rw [cost]; rfl)
  obtain ⟨alternatives, rule, -⟩ := built.rule (built.keys ▸ known)
  rw [alternatives_eq rule]
  exact exists_finite built rule cost

namespace Valid
variable {run next : Run σ} {decision : Decision}

theorem start (built : g.Built) (unit : Draws.InUnit source) :
    Valid g (Run.start g.start source) :=
  ⟨.start built.present, unit⟩

theorem leaf (valid : Valid g run) (built : g.Built) {p : Nat} (inside : p < run.growth.openCount) :
    ∃ number b alternatives, run.growth.worklist.toList[p]? = some number ∧
      run.growth.names[number]? = some b ∧ b.expanded = none ∧
      g.rules.get? b.name = some alternatives := by
  rw [Growth.openCount, ← Worklist.length_toList] at inside
  have place := List.getElem?_eq_getElem inside
  obtain ⟨b, found, unexpanded⟩ := valid.follows.at_position place
  obtain ⟨alternatives, rule, -⟩ := built.rule (valid.follows.named _ b found)
  exact ⟨_, b, alternatives, place, found, unexpanded, rule⟩

theorem taken (valid : Valid g run) (built : g.Built) (unfinished : run.growth.isComplete = false)
    {position : Int} (leaf : (Choice.leaf s.policy run.growth run.source).1 = .ok position) :
    ∃ (p number : Nat) (b : Bud) (alternatives : List Expansion), position = p ∧
      run.growth.worklist.toList[p]? = some number ∧ run.growth.names[number]? = some b ∧
      b.expanded = none ∧ g.rules.get? b.name = some alternatives := by
  rcases @Choice.leaf_cases _ _ s.policy _ _ (openCount_pos unfinished) valid.unit with
    ⟨p, inside, value⟩ | ⟨-, value⟩
  · rw [value] at leaf
    cases leaf
    obtain ⟨number, b, alternatives, parts⟩ := valid.leaf built inside
    exact ⟨p, number, b, alternatives, rfl, parts⟩
  · rw [value] at leaf
    cases leaf

theorem expands (valid : Valid g run) (built : g.Built)
    (advance : Advance g s run decision next) : Expands g run decision next := by
  obtain ⟨phase, position, name, index⟩ := decision
  obtain ⟨unfinished, -, -, -, found, chosen, -, number, e, place, named, taken, grown⟩ := advance
  dsimp only at found chosen place named taken grown
  obtain ⟨p, other, b, alternatives, rfl, there, leaf, unexpanded, rule⟩ :=
    valid.taken built unfinished found
  obtain rfl : other = number := by
    rw [Growth.number?_natCast, there] at place
    exact Option.some.inj place
  rw [Growth.bud_eq leaf] at named
  subst named
  obtain ⟨candidate, cost⟩ := Choice.alternative_ok chosen
  rw [alternatives_eq rule] at candidate taken
  refine .intro there leaf unexpanded rule cost ?_ ?_ candidate taken grown
  · intro d own used inside
    exact ⟨_, built.cost (built.known rule own inside)⟩
  · obtain ⟨k, cost⟩ := cost
    exact exists_finite built rule cost

/-- A step fails at the step limit, where more leaves are open than one can be drawn from, or at the
name of an open leaf for which no alternative is chosen. -/
theorem fails_cases (valid : Valid g run) (built : g.Built) {fault : Fault}
    (fails : Fails g s run fault) :
    (∃ own, fault = .generation own ∧ stepLimit? s run = some own) ∨
      Choice.Uncountable s.policy run.growth ∧ fault = .number .tooLargeForFloat ∧
        (Choice.leaf s.policy run.growth run.source).1 = .error fault ∧ stepLimit? s run = none ∨
      ∃ (p number : Nat) (b : Bud) (alternatives : List Expansion),
        (Choice.leaf s.policy run.growth run.source).1 = .ok (p : Int) ∧
        run.growth.worklist.toList[p]? = some number ∧ run.growth.names[number]? = some b ∧
        g.rules.get? b.name = some alternatives ∧ (Choice.alternative g b.name (run.nextPhase g s)
          (run.leafSource s)).1 = .error fault ∧ stepLimit? s run = none := by
  cases fails with
  | limit _ reached => exact .inl ⟨_, rfl, reached⟩
  | leaf unfinished below refused =>
    rcases @Choice.leaf_cases _ _ s.policy _ _ (openCount_pos unfinished) valid.unit with
      ⟨p, -, value⟩ | ⟨many, value⟩
    · rw [refused] at value
      cases value
    · rw [refused] at value
      cases value
      exact .inr (.inl ⟨many, rfl, refused, below⟩)
  | place unfinished below leaf absent =>
    obtain ⟨p, number, b, alternatives, rfl, there, -⟩ := valid.taken built unfinished leaf
    rw [Growth.number?_natCast.mpr there] at absent
    cases absent
  | alternative unfinished below leaf place refused =>
    obtain ⟨p, number, b, alternatives, rfl, there, found, -, rule⟩ :=
      valid.taken built unfinished leaf
    rw [Growth.number?_natCast.mpr there] at place
    cases place
    rw [Growth.bud_eq found] at refused
    exact .inr (.inr ⟨p, _, b, alternatives, leaf, there, found, rule, refused, below⟩)
  | missing _ _ _ _ chosen missing =>
    have bound := Choice.lt_of_mem_candidates (Choice.alternative_ok chosen).1
    rw [List.getElem?_eq_getElem bound] at missing
    cases missing

theorem expand {run next : Run σ} (valid : Valid g run) (built : g.Built)
    (expands : Expands g run decision next) (unit : Draws.InUnit next.source) : Valid g next := by
  obtain ⟨position, leaf, -, rule, -, -, -, -, chosen, grown⟩ := expands
  refine ⟨?_, unit⟩
  rw [grown]
  exact valid.follows.expand position leaf rule chosen fun used inside =>
    built.known rule (List.mem_of_getElem? chosen) inside

theorem advance (valid : Valid g run) (built : g.Built)
    (advance : Advance g s run decision next) : Valid g next := by
  refine valid.expand built (valid.expands built advance) ?_
  rw [advance.rest]
  exact Choice.alternative_inUnit (Choice.leaf_inUnit valid.unit)

end Valid

theorem Expands.openNames_eq {run next : Run σ} {decision : Decision} (valid : Valid g run)
    (expands : Expands g run decision next) :
    ∃ p alternatives e, run.growth.openNames[p]? = some decision.name ∧
      g.rules.get? decision.name = some alternatives ∧
      (∃ k, g.costs.get? decision.name = some (.finite k)) ∧
      (∃ d ∈ alternatives, (Cost.ofExpansion g.costs d).isFinite = true) ∧
      decision.alternative ∈ Choice.candidates g.costs decision.phase alternatives ∧
      alternatives[decision.alternative]? = some e ∧
      next.growth.openNames =
        run.growth.openNames.take p ++ e.references ++ run.growth.openNames.drop (p + 1) := by
  obtain ⟨position, leaf, -, rule, cost, -, finite, candidate, chosen, grown⟩ := expands
  rename_i phase p number index b alternatives e
  have inside := Growth.lt_openCount position
  refine ⟨p, alternatives, e, Growth.getElem?_openNames position leaf, rule, cost, finite,
    candidate, chosen, ?_⟩
  rw [grown]
  exact valid.follows.openNames_expand inside

theorem Reachable.valid (built : g.Built) (unit : Draws.InUnit source) {run : Run σ}
    (reachable : Reachable g s source run) : Valid g run := by
  induction reachable with
  | start => exact .start built unit
  | step _ moved ih => exact ih.advance built (advance_of_moved moved)

end Run

def Outcome.Reached (g : Grammar) (s : Settings) (source : σ) (steps : Nat) : Outcome σ → Prop
  | .closed run => Run.Reachable g s source run ∧ run.growth.isComplete = true
  | .stopped fault last => ∃ run, Run.Reachable g s source run ∧ run.step g s = .stopped fault last
  | .unfinished run => Run.Reachable g s source run ∧ steps ≤ run.growth.steps

namespace Run

theorem reached_resume {run : Run σ} (reachable : Reachable g s source run) (fuel : Nat) :
    (resume g s fuel run).Reached g s source (run.growth.steps + fuel) := by
  induction fuel generalizing run with
  | zero => exact ⟨reachable, Nat.le_refl _⟩
  | succ fuel ih =>
    unfold resume
    split
    · rename_i last closed
      obtain ⟨rfl, complete⟩ := complete_of_closed closed
      exact ⟨reachable, complete⟩
    · rename_i fault last same
      exact ⟨run, reachable, same⟩
    · rename_i decision next moved
      have later := ih (.step reachable moved)
      rwa [(advance_of_moved moved).steps, Nat.add_right_comm] at later

end Run

theorem Generation.runFor_eq {ρ σ : Type} [Arithmetic ρ] [Draws σ ρ] {source : σ} (built : g.Built)
    (fuel : Nat) :
    Generation.runFor fuel g s source = Run.resume g s fuel (Run.start g.start source) := by
  obtain ⟨alternatives, rule, some⟩ := built.rule built.present
  unfold Generation.runFor
  rw [show g.alternatives? g.start = .ok alternatives by rw [Grammar.alternatives?, rule]]
  cases alternatives with
  | nil => exact absurd rfl some
  | cons e rest => rfl

theorem Generation.reached_runFor (built : g.Built) (fuel : Nat) :
    (Generation.runFor fuel g s source).Reached g s source fuel := by
  have reached := Run.reached_resume (.start : Run.Reachable g s source _) fuel
  rw [show (Run.start g.start source).growth.steps + fuel = fuel from Nat.zero_add fuel] at reached
  rw [Generation.runFor_eq built]
  exact reached

end GrammarSampler
