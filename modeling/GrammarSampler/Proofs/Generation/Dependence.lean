import GrammarSampler.Proofs.Generation.History
import GrammarSampler.Proofs.Generation.Soundness
import GrammarSampler.Proofs.Grammar.Reaches
import GrammarSampler.Proofs.Number.Limit

/-!
What a generation depends on. Two grammars with the same rules for what can be reached from the
start agree on the costs of these names, and runs of both never meet another name. So they do the
same, step by step.
-/
namespace GrammarSampler

namespace Worklist
variable {α : Type} {w : Worklist α}

theorem mem_of_get? {position : Int} {a : α} (found : w.get? position = some a) : a ∈ w.toList := by
  obtain ⟨i, -, place⟩ := Option.bind_eq_some_iff.mp found
  rw [toList, List.mem_reverse]
  exact Array.mem_toList_iff.mpr (Array.mem_of_getElem? place)

theorem toList_replace (w : Worklist α) (first last : Int) (new : List α) :
    ∃ low high, (w.replace first last new).toList =
      w.toList.take low ++ new ++ w.toList.drop high := by
  obtain ⟨xs⟩ := w
  refine ⟨clamp xs.size first, max (clamp xs.size first) (clamp xs.size last), ?_⟩
  simp [replace, toList, List.take_reverse, List.drop_reverse, List.take_of_length_le]

theorem mem_of_mem_replace {first last : Int} {new : List α} {a : α}
    (inside : a ∈ (w.replace first last new).toList) : a ∈ w.toList ∨ a ∈ new := by
  obtain ⟨low, high, parts⟩ := w.toList_replace first last new
  rw [parts, List.mem_append, List.mem_append] at inside
  rcases inside with (before | here) | after
  · exact .inl (List.mem_of_mem_take before)
  · exact .inr here
  · exact .inl (List.mem_of_mem_drop after)

end Worklist

namespace Growth

/-- All names have a property, and the worklist holds numbers of names. -/
structure Within (property : String → Prop) (g : Growth) : Prop where
  listed : ∀ number ∈ g.worklist.toList, number < g.names.size
  named : ∀ b ∈ g.names.toList, property b.name

namespace Within
variable {property : String → Prop} {g : Growth}

theorem start {name : String} (holds : property name) : Within property (.start name) := by
  constructor
  · intro number inside
    rw [List.mem_singleton.mp inside]
    exact Nat.zero_lt_one
  · intro b inside
    rw [List.mem_singleton.mp inside]
    exact holds

theorem bud (within : Within property g) {position : Int} {number : Nat}
    (place : g.number? position = .ok number) : property (g.bud number).name := by
  unfold number? at place
  split at place
  · rename_i number' found
    cases place
    have inside := within.listed _ (Worklist.mem_of_get? found)
    rw [bud_eq (Array.getElem?_eq_getElem inside)]
    exact within.named _ (Array.getElem_mem_toList inside)
  · cases place

theorem expand (within : Within property g) {number : Nat} {position alternative : Int} {e : Expansion}
    (holds : ∀ used ∈ e.references, property used) :
    Within property (g.expandNumber number position alternative e) := by
  constructor
  · intro i inside
    have size : (g.expandNumber number position alternative e).names.size =
        g.names.size + e.references.length := by
      rw [← Array.length_toList, expandNumber, toList_foldl_push]
      simp
    rw [size]
    rcases Worklist.mem_of_mem_replace inside with old | new
    · have := within.listed i old
      omega
    · have := (List.mem_range'_1.mp new).2
      omega
  · intro b inside
    rw [expandNumber, toList_foldl_push, List.mem_append] at inside
    rcases inside with old | new
    · obtain ⟨i, small, rfl⟩ := Array.mem_iff_getElem.mp (Array.mem_toList_iff.mp old)
      rw [Array.getElem_modify]
      have named := within.named _ (Array.getElem_mem_toList (by simpa using small))
      split <;> exact named
    · obtain ⟨used, named, rfl⟩ := List.mem_map.mp new
      exact holds used named

end Within
end Growth

namespace Rules
variable {rules other : Rules} {start name : String}

theorem Reaches.closesIn_iff
    (same : ∀ name, rules.Reaches start name → rules.get? name = other.get? name) {k : Nat}
    (reached : rules.Reaches start name) : rules.ClosesIn k name ↔ other.ClosesIn k name := by
  -- What an alternative refers to is reached as well, so the hypothesis holds one level below.
  induction k generalizing name with
  | zero => exact Iff.rfl
  | succ k ih =>
    unfold ClosesIn
    rw [← same name reached]
    constructor
    · rintro ⟨alternatives, rule, e, chosen, below⟩
      exact ⟨alternatives, rule, e, chosen, fun used inside =>
        (ih (reached.step ((mem_successors rule).mpr ⟨e, chosen, inside⟩))).mp (below used inside)⟩
    · rintro ⟨alternatives, rule, e, chosen, below⟩
      exact ⟨alternatives, rule, e, chosen, fun used inside =>
        (ih (reached.step ((mem_successors rule).mpr ⟨e, chosen, inside⟩))).mpr (below used inside)⟩

end Rules

namespace Grammar
variable {g h : Grammar} {name : String}

theorem Built.known_of_reaches (built : g.Built) (reached : g.rules.Reaches g.start name) :
    name ∈ g.rules.keys := by
  induction reached with
  | start => exact built.present
  | step _ next ih =>
    obtain ⟨alternatives, rule, -⟩ := built.rule ih
    obtain ⟨e, chosen, inside⟩ := (Rules.mem_successors rule).mp next
    exact built.known rule chosen inside

theorem reaches_of_alternative (reached : g.rules.Reaches g.start name) {e : Expansion}
    (chosen : e ∈ g.alternatives name) {used : String} (inside : used ∈ e.references) :
    g.rules.Reaches g.start used := by
  apply reached.step
  rw [Rules.successors, Rules.references, List.mem_flatMap]
  exact ⟨e, chosen, inside⟩

structure Agree (g h : Grammar) : Prop where
  start : g.start = h.start
  rule : ∀ name, g.rules.Reaches g.start name → g.rules.get? name = h.rules.get? name
  cost : ∀ name, g.rules.Reaches g.start name → g.costs.get? name = h.costs.get? name

namespace Agree

theorem of_built (built : g.Built) (other : h.Built) (start : g.start = h.start)
    (same : ∀ name, g.rules.Reaches g.start name → g.rules.get? name = h.rules.get? name) :
    Agree g h := by
  refine ⟨start, same, ?_⟩
  intro name reached
  have known := built.known_of_reaches reached
  have known' : name ∈ h.rules.keys := by
    rwa [← Entries.get?_isSome_iff, ← same name reached, Entries.get?_isSome_iff]
  rw [built.cost known, other.cost known', Option.some.injEq]
  apply Cost.eq_of_atMost
  intro k
  rw [built.exact, other.exact]
  exact reached.closesIn_iff same

theorem alternatives (agree : Agree g h) (reached : g.rules.Reaches g.start name) :
    g.alternatives name = h.alternatives name := by
  rw [Grammar.alternatives, Grammar.alternatives, agree.rule name reached]

theorem expansions (agree : Agree g h) (reached : g.rules.Reaches g.start name) :
    (g.alternatives name).map (Cost.ofExpansion g.costs) =
      (g.alternatives name).map (Cost.ofExpansion h.costs) := by
  apply List.map_congr_left
  intro e chosen
  rw [Cost.ofExpansion, Cost.ofExpansion]
  congr 1
  apply List.map_congr_left
  intro used inside
  rw [Cost.ofName, Cost.ofName, agree.cost used (reaches_of_alternative reached chosen inside)]

theorem alternative {ρ σ : Type} [Arithmetic ρ] [Draws σ ρ] (agree : Agree g h)
    (reached : g.rules.Reaches g.start name) (phase : Phase) (source : σ) :
    Choice.alternative g name phase source = Choice.alternative h name phase source := by
  unfold Choice.alternative Choice.candidates Choice.isAimless
  dsimp only
  rw [← agree.cost name reached, ← agree.alternatives reached, agree.expansions reached]

end Agree
end Grammar

/-- The number of rules only tells how long growth may stall, which it never does from a minimum of
one on. -/
theorem Phase.next_congr {s : Settings} {rules others openCount : Nat}
    (count : rules = others ∨ s.minimum.le (.int 1) = true) (some : 0 < openCount) (phase : Phase)
    (steps stalled : Nat) :
    next s rules phase openCount steps stalled = next s others phase openCount steps stalled := by
  rcases count with rfl | low
  · rfl
  · have reached : s.minimum.reachedBy openCount = true := Number.reachedBy_mono low some
    simp [next, Number.exceeds_eq_false reached]

namespace Run
variable {ρ σ : Type} [Arithmetic ρ] [Draws σ ρ] {g h : Grammar} {s : Settings} {run : Run σ}

theorem step_congr (agree : g.Agree h)
    (count : g.rules.length = h.rules.length ∨ s.minimum.le (.int 1) = true)
    (within : run.growth.Within (g.rules.Reaches g.start)) : run.step g s = run.step h s := by
  cases unfinished : run.growth.isComplete with
  | true => rw [step_of_complete unfinished, step_of_complete unfinished]
  | false =>
  cases limit : stepLimit? s run with
  | some fault => rw [step_of_limit unfinished limit, step_of_limit unfinished limit]
  | none =>
  have phase : run.nextPhase g s = run.nextPhase h s :=
    Phase.next_congr count (openCount_pos unfinished) _ _ _
  rw [step_of_open unfinished limit, step_of_open unfinished limit, phase]
  unfold move
  rw [growth_enter, source_enter]
  split
  · rfl
  · dsimp only
    split
    · rfl
    · rename_i number place
      have reached := within.bud place
      rw [agree.alternative reached, agree.alternatives reached]

theorem within_of_moved {decision : Decision} {next : Run σ}
    (within : run.growth.Within (g.rules.Reaches g.start))
    (moved : run.step g s = .moved decision next) :
    next.growth.Within (g.rules.Reaches g.start) := by
  obtain ⟨number, e, place, named, chosen, grown⟩ := (advance_of_moved moved).grown
  have reached := within.bud place
  rw [← named] at reached
  rw [grown]
  exact within.expand fun used inside =>
    Grammar.reaches_of_alternative reached (List.mem_of_getElem? chosen) inside

theorem resume_congr (agree : g.Agree h)
    (count : g.rules.length = h.rules.length ∨ s.minimum.le (.int 1) = true) (fuel : Nat)
    (within : run.growth.Within (g.rules.Reaches g.start)) :
    run.resume g s fuel = run.resume h s fuel := by
  induction fuel generalizing run with
  | zero => rfl
  | succ fuel ih =>
    have same := step_congr agree count within
    unfold resume
    rw [← same]
    cases moved : run.step g s with
    | closed last => rfl
    | stopped fault last => rfl
    | moved decision next => exact ih (within_of_moved within moved)

theorem History.within {source : σ} {decisions : List Decision}
    (history : History g s source decisions run) :
    run.growth.Within (g.rules.Reaches g.start) := by
  induction history with
  | start => exact .start .start
  | step _ moved ih => exact within_of_moved ih moved

theorem history_congr (agree : g.Agree h)
    (count : g.rules.length = h.rules.length ∨ s.minimum.le (.int 1) = true) {source : σ}
    {decisions : List Decision} :
    History g s source decisions run ↔ History h s source decisions run := by
  constructor
  · intro history
    induction history with
    | start =>
      rw [agree.start]
      exact .start
    | step before moved ih => exact .step ih (step_congr agree count before.within ▸ moved)
  · intro history
    induction history with
    | start =>
      rw [← agree.start]
      exact .start
    | step _ moved ih => exact .step ih (step_congr agree count ih.within ▸ moved)

end Run

/-- Rules that cannot be reached and the order of the rules do not influence a generation. If the
rules that can be reached from the start are the same in two grammars, then both generate in the
same steps, whatever the draws are, and end with the same tree or fault, the same source and the
same notices. Their numbers of rules have to be the same too, unless growth needs no second leaf. -/
theorem Generation.depends_on_reachable {ρ σ : Type} [Arithmetic ρ] [Draws σ ρ]
    {rules other : Rules} {start : String} {g h : Grammar} (mapping : rules.Distinct)
    (distinct : other.Distinct) (success : Grammar.build? rules start = .ok g)
    (success' : Grammar.build? other start = .ok h)
    (same : ∀ name ∈ rules.reachable start, rules.get? name = other.get? name) (s : Settings)
    (count : rules.length = other.length ∨ s.minimum.le (.int 1) = true) (source : σ) :
    (∀ decisions run,
      Run.History g s source decisions run ↔ Run.History h s source decisions run) ∧
    ∀ fuel, runFor fuel g s source = runFor fuel h s source := by
  obtain ⟨built, rfl, rfl⟩ := Grammar.built_of_build? mapping success
  obtain ⟨built', rfl, begins⟩ := Grammar.built_of_build? distinct success'
  have agree : g.Agree h := by
    apply Grammar.Agree.of_built built built' begins.symm
    intro name reached
    exact same name ((Rules.mem_reachable mapping).mpr reached)
  constructor
  · intro decisions run
    exact Run.history_congr agree count
  · intro fuel
    have within : (Run.start g.start source).growth.Within (g.rules.Reaches g.start) :=
      .start .start
    have first : g.alternatives? g.start = h.alternatives? g.start := by
      rw [Grammar.alternatives?, Grammar.alternatives?, agree.rule g.start .start]
    unfold runFor
    dsimp only
    rw [← agree.start, ← first, Run.resume_congr agree count fuel within]

/-- The list rules the other way round, with a rule that nothing refers to. -/
def listRulesApart : Rules :=
  [("spare", [.unweighted [.nonterminal "list"]]),
    ("item", [.unweighted [.terminal "x"]]),
    ("list", [.unweighted [.nonterminal "item"], .unweighted [.nonterminal "item", .terminal ",",
      .nonterminal "list"]])]

theorem Generation.depends_on_reachable_list :
    listRules.Distinct ∧ listRulesApart.Distinct ∧ listRules ≠ listRulesApart ∧
    ∀ fuel, runFor fuel ⟨listRules, "list", (Cost.estimate listRules).table⟩ Settings.standard
        (Source.replaying #[0.5, 0.25]) =
      runFor fuel ⟨listRulesApart, "list", (Cost.estimate listRulesApart).table⟩ Settings.standard
        (Source.replaying #[0.5, 0.25]) := by
  have mapping : listRules.Distinct := by decide
  have distinct : listRulesApart.Distinct := by decide
  have success : Grammar.build? listRulesApart "list" =
      .ok ⟨listRulesApart, "list", (Cost.estimate listRulesApart).table⟩ :=
    Grammar.build?_eq_ok_iff.mpr ⟨⟨by decide, by decide, by decide⟩, rfl⟩
  have runs := (Generation.depends_on_reachable mapping distinct listRules_build success (by decide)
    Settings.standard (.inr (by decide)) (Source.replaying #[0.5, 0.25])).2
  exact ⟨mapping, distinct, by decide, runs⟩

end GrammarSampler
