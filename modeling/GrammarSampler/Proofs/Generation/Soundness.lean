import GrammarSampler.Proofs.Generation.Reachable

/-!
Generation is sound. Every step of every run is well defined, and a run that closes has grown a
complete derivation tree of the grammar.
-/
namespace GrammarSampler
variable {σ : Type} [Draws σ Float] {g : Grammar} {s : Settings} {source : σ}

/-- The weights of all alternatives are floats or become floats. -/
def Rules.Weighable (rules : Rules) : Prop :=
  ∀ rule ∈ rules, ∀ e ∈ rule.2, ∃ x, e.effectiveWeight = .ok x

/-- Why a run may stop: at the step limit, at a name that never ends, or where more leaves are open
than a float can count. -/
inductive Run.Stops (g : Grammar) (s : Settings) (run : Run σ) : Fault → Prop where
  | limited {limit : Number} (given : s.maxSteps = some limit)
      (reached : limit.reachedBy run.growth.steps = true) :
      Stops g s run (.generation (.stepLimit limit run.growth.openCount run.growth.steps))
  | barren {b : Bud} {number : Nat} (inside : number ∈ run.growth.worklist.toList)
      (leaf : run.growth.names[number]? = some b) (cost : g.costs.get? b.name = some .infinite) :
      Stops g s run (.generation (.nonTerminating b.name))
  | uncountable (many : Choice.Uncountable s.policy run.growth) :
      Stops g s run (.number .tooLargeForFloat)

inductive Run.StepSound (g : Grammar) (s : Settings) (run : Run σ) : Step σ → Prop where
  | closed (complete : run.growth.isComplete = true) : StepSound g s run (.closed run)
  | stopped {fault : Fault} {last : Run σ} (reason : Stops g s run fault)
      (kept : last.growth = run.growth) : StepSound g s run (.stopped fault last)
  | moved {decision : Decision} {next : Run σ} (expands : Expands g run decision next)
      (phase : decision.phase = run.nextPhase g s) : StepSound g s run (.moved decision next)

namespace Run
variable {run : Run σ}

omit [Draws σ Float] in
theorem stepLimit?_eq_some {fault : GenerationFault} (limit : stepLimit? s run = some fault) :
    Stops g s run (.generation fault) := by
  unfold stepLimit? at limit
  cases given : s.maxSteps with
  | none => rw [given] at limit; cases limit
  | some k =>
    rw [given] at limit
    dsimp only at limit
    split at limit
    · rename_i reached
      cases limit
      exact .limited given reached
    · cases limit

theorem Valid.stops_of_fails (valid : Valid g run) (built : g.Built) (weighable : g.rules.Weighable)
    {fault : Fault} (fails : Fails g s run fault) : Stops g s run fault := by
  rcases valid.fails_cases built fails with ⟨own, rfl, reached⟩ | ⟨many, rfl, -⟩ |
    ⟨p, number, b, alternatives, -, there, leaf, rule, refused, -⟩
  · exact stepLimit?_eq_some reached
  · exact .uncountable many
  · have known := built.cost (valid.follows.named _ b leaf)
    have own := alternatives_eq rule
    cases cost : Cost.ofName g.costs b.name with
    | infinite =>
      rw [cost] at known
      rw [Choice.alternative_of_infinite known] at refused
      cases refused
      exact .barren (List.mem_of_getElem? there) leaf known
    | finite k =>
      rw [cost] at known
      obtain ⟨index, chosen⟩ := @Choice.alternative_of_finite _ _ g b.name (run.nextPhase g s)
        (run.leafSource s) k known (by rw [own]; exact exists_finite built rule known)
        (by rw [own]; exact weighable _ (Entries.mem_of_get? rule))
      rw [chosen] at refused
      cases refused

theorem Valid.stepSound (valid : Valid g run) (built : g.Built) (weighable : g.rules.Weighable) :
    StepSound g s run (run.step g s) := by
  have takes := takes_step g s run
  generalize run.step g s = step at takes ⊢
  cases takes with
  | closed complete => exact .closed complete
  | stopped fails kept => exact .stopped (valid.stops_of_fails built weighable fails) kept
  | moved advance => exact .moved (valid.expands built advance) advance.phase

end Run

namespace Generation

theorem closed_of_sample {text : String} (success : (sample g s source).1.outcome = .ok text) :
    ∃ last, run g s source = .closed last ∧ last.growth.tree.text? = .ok text := by
  unfold sample grow at success
  cases outcome : run g s source with
  | closed last =>
    rw [outcome] at success
    exact ⟨last, rfl, success⟩
  | stopped fault last =>
    rw [outcome] at success
    cases success
  | unfinished last =>
    rw [outcome] at success
    cases success

theorem fault_of_sample {fault : Fault} (failure : (sample g s source).1.outcome = .error fault) :
    (∃ last, run g s source = .closed last ∧ last.growth.tree.text? = .error fault) ∨
      (∃ last, run g s source = .stopped fault last) ∨ fault = .unfinished := by
  unfold sample grow at failure
  cases outcome : run g s source with
  | closed last =>
    rw [outcome] at failure
    exact .inl ⟨last, rfl, failure⟩
  | stopped other last =>
    rw [outcome] at failure
    cases failure
    exact .inr (.inl ⟨last, rfl⟩)
  | unfinished last =>
    rw [outcome] at failure
    cases failure
    exact .inr (.inr rfl)

theorem closed_isDerivation (built : g.Built) (unit : Draws.InUnit source) {fuel : Nat}
    {last : Run σ} (closed : runFor fuel g s source = .closed last) :
    last.growth.tree.IsDerivation g.rules ∧ last.growth.tree.symbol = .nonterminal g.start := by
  have reached : (runFor fuel g s source).Reached g s source fuel := reached_runFor built fuel
  rw [closed] at reached
  obtain ⟨reachable, complete⟩ := reached
  exact (reachable.valid built unit).follows.isDerivation complete

theorem stops_of_stopped (built : g.Built) (weighable : g.rules.Weighable)
    (unit : Draws.InUnit source) {fuel : Nat} {fault : Fault} {last : Run σ}
    (stopped : runFor fuel g s source = .stopped fault last) :
    ∃ run, Run.Reachable g s source run ∧ Run.Stops g s run fault := by
  have reached : (runFor fuel g s source).Reached g s source fuel := reached_runFor built fuel
  rw [stopped] at reached
  obtain ⟨run, reachable, step⟩ := reached
  have sound := (reachable.valid built unit).stepSound (s := s) built weighable
  rw [step] at sound
  cases sound with
  | stopped reason _ => exact ⟨run, reachable, reason⟩

theorem derives_text {rules : Rules} {t : Tree} {name : String} (complete : t.IsDerivation rules)
    (root : t.symbol = .nonterminal name) : ∃ text, t.text? = .ok text ∧
      rules.Derives [.nonterminal name] text.toList := by
  refine ⟨t.sententialForm, complete.text?_eq, ?_⟩
  rw [Tree.toList_sententialForm, ← root]
  exact complete.derives

end Generation

/-- Generation from a built grammar is sound whatever the settings and the draws are. Every step is
well defined; a run that closes has a complete derivation tree of the start, whose text the start
derives; a run that stops has reached the step limit, a name that never ends or an uncountable
number of leaves; no generation fails because its tree is open. -/
theorem Generation.sound {rules : Rules} {start : String} {g : Grammar} (mapping : rules.Distinct)
    (success : Grammar.build? rules start = .ok g) (weighable : rules.Weighable) (s : Settings)
    (unit : Draws.InUnit source) :
    (∀ run, Run.Reachable g s source run → Run.StepSound g s run (run.step g s)) ∧
    (∀ fuel last, runFor fuel g s source = .closed last →
      last.growth.tree.IsDerivation rules ∧ last.growth.tree.symbol = .nonterminal start ∧
      ∃ text, last.growth.tree.text? = .ok text ∧ rules.Derives [.nonterminal start] text.toList) ∧
    (∀ fuel fault last, runFor fuel g s source = .stopped fault last →
      ∃ run, Run.Reachable g s source run ∧ Run.Stops g s run fault) ∧
    (∀ text, (sample g s source).1.outcome = .ok text →
      rules.Derives [.nonterminal start] text.toList) ∧
    ∀ name, (sample g s source).1.outcome ≠ .error (.generation (.treeOpen name)) := by
  obtain ⟨built, rfl, rfl⟩ := Grammar.built_of_build? mapping success
  refine ⟨?_, ?_, ?_, ?_, ?_⟩
  · intro run reachable
    exact (reachable.valid built unit).stepSound built weighable
  · intro fuel last closed
    obtain ⟨complete, root⟩ := closed_isDerivation built unit closed
    exact ⟨complete, root, derives_text complete root⟩
  · intro fuel fault last stopped
    exact stops_of_stopped built weighable unit stopped
  · intro text success
    obtain ⟨last, closed, spelled⟩ := closed_of_sample success
    obtain ⟨complete, root⟩ := closed_isDerivation built unit closed
    obtain ⟨other, same, derived⟩ := derives_text complete root
    rw [spelled, Except.ok.injEq] at same
    exact same ▸ derived
  · intro name failure
    rcases fault_of_sample failure with ⟨last, closed, open_⟩ | ⟨last, stopped⟩ | other
    · obtain ⟨complete, root⟩ := closed_isDerivation built unit closed
      rw [complete.text?_eq] at open_
      cases open_
    · obtain ⟨run, -, reason⟩ := stops_of_stopped built weighable unit stopped
      cases reason
    · cases other

def listRules : Rules :=
  [("list", [.unweighted [.nonterminal "item"], .unweighted [.nonterminal "item", .terminal ",",
      .nonterminal "list"]]),
    ("item", [.unweighted [.terminal "x"]])]

theorem listRules_build : Grammar.build? listRules "list" =
    .ok ⟨listRules, "list", (Cost.estimate listRules).table⟩ :=
  Grammar.build?_eq_ok_iff.mpr ⟨⟨by decide, by decide, by decide⟩, rfl⟩

theorem Generation.sound_list : listRules.Distinct ∧ listRules.Weighable ∧
    Draws.InUnit (Source.replaying #[0.5, 0.25]) ∧ ∀ text,
      (sample ⟨listRules, "list", (Cost.estimate listRules).table⟩ Settings.standard
        (Source.replaying #[0.5, 0.25])).1.outcome = .ok text →
      listRules.Derives [.nonterminal "list"] text.toList := by
  have mapping : listRules.Distinct := by decide
  have weighable : listRules.Weighable := by
    simp [Rules.Weighable, listRules, Expansion.effectiveWeight, Expansion.unweighted]
  have unit : Draws.InUnit (Source.replaying #[0.5, 0.25]) := by
    apply Source.replaying_inUnit
    decide
  have sound := Generation.sound mapping listRules_build weighable Settings.standard unit
  exact ⟨mapping, weighable, unit, sound.2.2.2.1⟩

end GrammarSampler
