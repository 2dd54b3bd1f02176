import GrammarSampler.Proofs.Generation.Barren

/-!
Weights and counts that no float holds. A weight may be any positive whole number, but it becomes a
float only where it is compared with others; so is the number of open leaves where one is drawn.
Nothing else stops a run for a reason that is not the generation's own.
-/
namespace GrammarSampler

theorem Number.toFloat_cases (n : Number) :
    (∃ x, n.toFloat = .ok x) ∨ n.toFloat = .error .tooLargeForFloat := by
  unfold toFloat
  split
  · exact .inl ⟨_, rfl⟩
  · dsimp only
    split
    · exact .inl ⟨_, rfl⟩
    · exact .inr rfl

theorem Number.toFloat_of_lt {n k : Nat} (small : n < 2 ^ k) (short : k ≤ 1023) :
    ∃ x, (int n).toFloat = .ok x := by
  refine toFloat_of_log2 ?_
  by_cases zero : n = 0
  · simp [zero]
  · have := (Nat.log2_lt zero).mpr small
    omega

theorem Expansion.effectiveWeight_cases (e : Expansion) :
    (∃ x, e.effectiveWeight = .ok x) ∨ e.effectiveWeight = .error .tooLargeForFloat := by
  unfold effectiveWeight
  split
  · exact .inl ⟨_, rfl⟩
  · exact Number.toFloat_cases _

theorem Expansion.effectiveWeight_of_small {e : Expansion}
    (small : ∀ n, e.weight = some (.int n) → 0 < n ∧ n < (2 ^ 1023 : Nat)) :
    ∃ x, e.effectiveWeight = .ok x := by
  unfold effectiveWeight
  cases given : e.weight with
  | none => exact ⟨_, rfl⟩
  | some w =>
    cases w with
    | int n =>
      obtain ⟨positive, bound⟩ := small n given
      obtain ⟨m, rfl⟩ := Int.eq_ofNat_of_zero_le (Int.le_of_lt positive)
      exact Number.toFloat_of_lt (Int.ofNat_lt.mp bound) (Nat.le_refl 1023)
    | float x => exact ⟨x, rfl⟩
    | truth b =>
      obtain ⟨x, found⟩ := @Number.toFloat_of_log2 b.toNat (by cases b <;> decide)
      cases b with
      | false => exact ⟨x, found⟩
      | true => exact ⟨x, found⟩

namespace Choice

theorem mapM_cases {β γ ε : Type} {f : β → Except ε γ} {fault : ε} {items : List β}
    (each : ∀ b ∈ items, (∃ c, f b = .ok c) ∨ f b = .error fault) :
    ((∃ results, items.mapM f = .ok results) ∧ ∀ b ∈ items, f b ≠ .error fault) ∨
      items.mapM f = .error fault ∧ ∃ b ∈ items, f b = .error fault := by
  induction items with
  | nil => exact .inl ⟨⟨[], rfl⟩, nofun⟩
  | cons b rest ih =>
    rw [List.mapM_cons]
    rcases each b List.mem_cons_self with ⟨c, first⟩ | first
    · rw [first]
      rcases ih fun d inside => each d (List.mem_cons_of_mem b inside) with
        ⟨⟨cs, later⟩, none⟩ | ⟨later, d, inside, fails⟩
      · refine .inl ⟨⟨c :: cs, by rw [later]; rfl⟩, List.forall_mem_cons.mpr ⟨?_, none⟩⟩
        rw [first]
        nofun
      · exact .inr ⟨by rw [later]; rfl, d, List.mem_cons_of_mem b inside, fails⟩
    · exact .inr ⟨by rw [first]; rfl, b, List.mem_cons_self, first⟩

def Overweight (g : Grammar) (name : String) (phase : Phase) : Prop :=
  (candidates g.costs phase (g.alternatives name)).length ≠ 1 ∧
    ∃ index ∈ candidates g.costs phase (g.alternatives name), ∃ e,
      (g.alternatives name)[index]? = some e ∧ e.effectiveWeight = .error .tooLargeForFloat

section Overflows
variable {σ : Type} [Draws σ Float] {g : Grammar} {name : String} {phase : Phase} {source : σ}

/-- An alternative of a name that ends is refused exactly where a weight is too large. -/
theorem alternative_cases {k : Nat} (cost : g.costs.get? name = some (.finite k))
    (some : ∃ e ∈ g.alternatives name, (Cost.ofExpansion g.costs e).isFinite = true) :
    ((∃ index, (alternative g name phase source).1 = .ok index) ∧ ¬ Overweight g name phase) ∨
      (alternative g name phase source).1 = .error (.number .tooLargeForFloat) ∧
        Overweight g name phase := by
  have nonempty := @candidates_ne_nil g.costs phase _ some
  rw [alternative_of_cost cost (isAimless_of_some some)]
  unfold pick
  split
  · rename_i only same
    refine .inl ⟨⟨only, rfl⟩, fun heavy => heavy.1 ?_⟩
    rw [same]
    rfl
  · rename_i unequal
    have several : (candidates g.costs phase (g.alternatives name)).length ≠ 1 := by
      intro single
      obtain ⟨only, same⟩ := List.length_eq_one_iff.mp single
      exact unequal only same
    have taken : ∀ e, e ∈ (candidates g.costs phase (g.alternatives name)).filterMap
        ((g.alternatives name).toArray[·]?) ↔
      ∃ index ∈ candidates g.costs phase (g.alternatives name),
        (g.alternatives name)[index]? = .some e := fun e => by simp
    rcases mapM_cases fun e _ => Expansion.effectiveWeight_cases e with
      ⟨⟨weights, converted⟩, light⟩ | ⟨refused, e, inside, heavy⟩
    · change List.mapM (@Arithmetic.ofExpansion Float _) _ = _ at converted
      dsimp only
      rw [converted]
      dsimp only [drawn]
      obtain ⟨index, found⟩ := weighted_isSome nonempty weights (Draws.draw source).1
      rw [found]
      refine .inl ⟨⟨index, rfl⟩, ?_⟩
      rintro ⟨-, i, candidate, e, place, heavy⟩
      exact light e ((taken e).mpr ⟨i, candidate, place⟩) heavy
    · change List.mapM (@Arithmetic.ofExpansion Float _) _ = _ at refused
      dsimp only
      rw [refused]
      obtain ⟨i, candidate, place⟩ := (taken e).mp inside
      exact .inr ⟨rfl, several, i, candidate, e, place, heavy⟩

theorem leaf_error_iff {policy : LeafPolicy} {growth : Growth} {fault : Fault}
    (some : 0 < growth.openCount) (unit : Draws.InUnit source) :
    (leaf policy growth source).1 = .error fault ↔ fault = .number .tooLargeForFloat ∧
      policy = .random ∧ (Number.int growth.openCount).toFloat = .error .tooLargeForFloat := by
  constructor
  · intro refused
    rcases @leaf_cases _ _ policy _ _ some unit with ⟨p, -, value⟩ | ⟨⟨drawn, -⟩, value⟩
    · rw [value] at refused
      cases refused
    · rw [value] at refused
      cases refused
      refine ⟨rfl, drawn, ?_⟩
      rcases Number.toFloat_cases (.int growth.openCount) with ⟨whole, counted⟩ | uncounted
      · subst drawn
        unfold leaf at value
        split at value
        · cases value
        · obtain ⟨p, -, found⟩ := spread_eq unit.head.1 unit.head.2 some counted
          dsimp only at value
          rw [found] at value
          cases value
      · exact uncounted
  · rintro ⟨rfl, rfl, uncounted⟩
    unfold leaf
    split
    · rename_i single
      obtain ⟨x, counted⟩ := @Number.toFloat_of_log2 1 (by decide)
      rw [single, counted] at uncounted
      cases uncounted
    · dsimp only
      rw [spread_of_uncounted uncounted]
      rfl

end Overflows

end Choice

namespace Run
variable {σ : Type} [Draws σ Float] {g : Grammar} {s : Settings} {source : σ} {run : Run σ}

/-- The next step has to turn into a float what is too large for one: the number of leaves that one
is drawn from, or a weight of the name that is expanded. -/
inductive Overflows (g : Grammar) (s : Settings) (run : Run σ) : Prop where
  | count (drawn : s.policy = .random)
      (many : (Number.int run.growth.openCount).toFloat = .error .tooLargeForFloat)
  | weight {position : Int} {number : Nat}
      (leaf : (Choice.leaf s.policy run.growth run.source).1 = .ok position)
      (place : run.growth.number? position = .ok number)
      (ends : ∃ k, g.costs.get? (run.growth.bud number).name = some (.finite k))
      (heavy : Choice.Overweight g (run.growth.bud number).name (run.nextPhase g s))

theorem Valid.stopped_cases (valid : Valid g run) (built : g.Built) {fault : Fault} {last : Run σ}
    (stopped : run.step g s = .stopped fault last) :
    (∃ own, fault = .generation own) ∨ fault = .number .tooLargeForFloat ∧
      run.growth.isComplete = false ∧ stepLimit? s run = none ∧ Overflows g s run := by
  obtain ⟨fails, -⟩ := fails_of_stopped stopped
  have unfinished := fails.unfinished
  rcases valid.fails_cases built fails with ⟨own, rfl, -⟩ | ⟨-, -, refused, below⟩ |
    ⟨p, number, b, alternatives, taken, there, leaf, rule, refused, below⟩
  · exact .inl ⟨own, rfl⟩
  · obtain ⟨same, drawn, many⟩ :=
      (Choice.leaf_error_iff (openCount_pos unfinished) valid.unit).mp refused
    exact .inr ⟨same, unfinished, below, .count drawn many⟩
  · have known := built.cost (valid.follows.named _ b leaf)
    have own := alternatives_eq rule
    cases cost : Cost.ofName g.costs b.name with
    | infinite =>
      rw [cost] at known
      rw [Choice.alternative_of_infinite known] at refused
      cases refused
      exact .inl ⟨_, rfl⟩
    | finite k =>
      rw [cost] at known
      rcases @Choice.alternative_cases _ _ g b.name (run.nextPhase g s) (run.leafSource s) k known
        (by rw [own]; exact exists_finite built rule known) with
        ⟨⟨index, chosen⟩, -⟩ | ⟨value, heavy⟩
      · rw [chosen] at refused
        cases refused
      · rw [value] at refused
        cases refused
        rw [← Growth.bud_eq leaf] at known heavy
        exact .inr ⟨rfl, unfinished, below,
          .weight taken (Growth.number?_natCast.mpr there) ⟨k, known⟩ heavy⟩

theorem Overflows.stopped (overflows : Overflows g s run) (valid : Valid g run) (built : g.Built)
    (unfinished : run.growth.isComplete = false) (below : stepLimit? s run = none) :
    ∃ last, run.step g s = .stopped (.number .tooLargeForFloat) last := by
  rcases overflows with ⟨drawn, many⟩ | ⟨taken, place, ⟨k, cost⟩, heavy⟩
  · have refused :=
      (Choice.leaf_error_iff (openCount_pos unfinished) valid.unit).mpr ⟨rfl, drawn, many⟩
    obtain ⟨last, same, -⟩ := stopped_of_leaf (g := g) unfinished below refused
    exact ⟨last, same⟩
  · obtain ⟨p, number, b, alternatives, rfl, there, leaf, -, rule⟩ :=
      valid.taken built unfinished taken
    obtain rfl := Except.ok.inj ((Growth.number?_natCast.mpr there).symm.trans place)
    have some : ∃ e ∈ g.alternatives b.name, (Cost.ofExpansion g.costs e).isFinite = true := by
      rw [Growth.bud_eq leaf] at cost
      rw [alternatives_eq rule]
      exact exists_finite built rule cost
    rw [← Growth.bud_eq leaf] at some
    rcases @Choice.alternative_cases _ _ g _ _ (run.leafSource s) k cost some with
      ⟨-, light⟩ | ⟨refused, -⟩
    · exact absurd heavy light
    · obtain ⟨last, same, -⟩ := stopped_of_alternative unfinished below taken place refused
      exact ⟨last, same⟩

theorem Overflows.count_of_small (overflows : Overflows g s run)
    (small : ∀ rule ∈ g.rules, ∀ e ∈ rule.2, ∀ n, e.weight = some (.int n) →
      0 < n ∧ n < (2 ^ 1023 : Nat)) : Choice.Uncountable s.policy run.growth := by
  rcases overflows with ⟨drawn, many⟩ | ⟨-, -, -, -, index, -, e, found, heavy⟩
  · refine ⟨drawn, ?_⟩
    by_contra few
    obtain ⟨x, counted⟩ := Number.toFloat_of_lt (Nat.lt_of_not_le few) (Nat.le_refl 1023)
    rw [many] at counted
    cases counted
  · have inside := List.mem_of_getElem? found
    unfold Grammar.alternatives at inside
    cases rule : g.rules.get? _ with
    | none =>
      rw [rule] at inside
      cases inside
    | some alternatives =>
      rw [rule] at inside
      obtain ⟨x, light⟩ := Expansion.effectiveWeight_of_small
        (small _ (Entries.mem_of_get? rule) e inside)
      rw [heavy] at light
      cases light

end Run

theorem Generation.cases_of_runFor {σ : Type} [Draws σ Float] {g : Grammar} {s : Settings} {source : σ}
    (built : g.Built) (unit : Draws.InUnit source) {fuel : Nat} {fault : Fault} {last : Run σ}
    (stopped : runFor fuel g s source = .stopped fault last) :
    (∃ limit openCount steps, fault = .generation (.stepLimit limit openCount steps)) ∨
      (∃ name, fault = .generation (.nonTerminating name)) ∨
      fault = .number .tooLargeForFloat ∧ ∃ run, Run.Reachable g s source run ∧
        run.growth.isComplete = false ∧ Run.stepLimit? s run = none ∧ Run.Overflows g s run := by
  obtain ⟨run, reachable, same⟩ := exists_stopped built stopped
  rcases (reachable.valid built unit).stopped_cases built same with
    ⟨own, rfl⟩ | ⟨rfl, unfinished, below, overflows⟩
  · rcases Run.cases_of_stopped same with ⟨limit, rfl⟩ | ⟨position, number, -, -, -, -, rfl, -⟩
    · exact .inl ⟨limit, _, _, rfl⟩
    · exact .inr (.inl ⟨_, rfl⟩)
  · exact .inr (.inr ⟨rfl, run, reachable, unfinished, below, overflows⟩)

/-- A run that stops has reached the step limit, a name that never ends, or what is too large for a
float. It stops for the last reason exactly at the steps that have to turn such a number into a
float: the number of open leaves where one of them is drawn, or the weight of an alternative that is
compared with others. No such weight is met if all whole weights are below 2 ^ 1023. -/
theorem Generation.stops_at_overflow {σ : Type} [Draws σ Float] {source : σ} {rules : Rules}
    {start : String} {g : Grammar} (mapping : rules.Distinct)
    (success : Grammar.build? rules start = .ok g) (s : Settings) (unit : Draws.InUnit source) :
    (∀ run, Run.Reachable g s source run →
      ((∃ last, run.step g s = .stopped (.number .tooLargeForFloat) last) ↔
        run.growth.isComplete = false ∧ Run.stepLimit? s run = none ∧ Run.Overflows g s run)) ∧
    (∀ fuel fault last, runFor fuel g s source = .stopped fault last →
      (∃ limit openCount steps, fault = .generation (.stepLimit limit openCount steps)) ∨
        (∃ name, fault = .generation (.nonTerminating name)) ∨
        fault = .number .tooLargeForFloat ∧ ∃ run, Run.Reachable g s source run ∧
          run.growth.isComplete = false ∧ Run.stepLimit? s run = none ∧ Run.Overflows g s run) ∧
    (∀ fault, (sample g s source).1.outcome = .error fault →
      fault.isGrammarFault = true ∨ fault = .unfinished ∨
        fault = .number .tooLargeForFloat ∧ ∃ run, Run.Reachable g s source run ∧
          Run.Overflows g s run) ∧
    ((∀ rule ∈ rules, ∀ e ∈ rule.2, ∀ n, e.weight = some (.int n) →
        0 < n ∧ n < (2 ^ 1023 : Nat)) →
      ∀ fuel fault last, runFor fuel g s source = .stopped fault last →
        fault.isGrammarFault = true ∨ ∃ run, Run.Reachable g s source run ∧
          Choice.Uncountable s.policy run.growth) := by
  obtain ⟨built, rfl, rfl⟩ := Grammar.built_of_build? mapping success
  refine ⟨?_, fun fuel fault last => cases_of_runFor built unit, ?_, ?_⟩
  · intro run reachable
    have valid := reachable.valid built unit
    constructor
    · rintro ⟨last, stopped⟩
      rcases valid.stopped_cases built stopped with ⟨own, other⟩ | ⟨-, found⟩
      · cases other
      · exact found
    · rintro ⟨unfinished, below, overflows⟩
      exact overflows.stopped valid built unfinished below
  · intro fault failure
    rcases fault_of_sample failure with ⟨last, closed, unspelled⟩ | ⟨last, stopped⟩ | rfl
    · obtain ⟨complete, root⟩ := closed_isDerivation built unit closed
      rw [complete.text?_eq] at unspelled
      cases unspelled
    · rcases cases_of_runFor built unit stopped with ⟨_, _, _, rfl⟩ | ⟨_, rfl⟩ |
        ⟨rfl, run, reachable, -, -, overflows⟩
      · exact .inl rfl
      · exact .inl rfl
      · exact .inr (.inr ⟨rfl, run, reachable, overflows⟩)
    · exact .inr (.inl rfl)
  · intro small fuel fault last stopped
    rcases cases_of_runFor built unit stopped with ⟨_, _, _, rfl⟩ | ⟨_, rfl⟩ |
      ⟨rfl, run, reachable, -, -, overflows⟩
    · exact .inl rfl
    · exact .inl rfl
    · exact .inr ⟨run, reachable, overflows.count_of_small small⟩

/-- A list that goes on with one chance in four. -/
def sparseRules : Rules :=
  [("list", [⟨[.terminal "x"], some (.int 3)⟩,
    ⟨[.terminal "x", .nonterminal "list"], some (.int 1)⟩])]

theorem Generation.stops_at_overflow_sparse : sparseRules.Distinct ∧
    Draws.InUnit (Source.replaying #[0.5, 0.25]) ∧ ∀ fuel fault last,
      runFor fuel ⟨sparseRules, "list", (Cost.estimate sparseRules).table⟩ closingSettings
        (Source.replaying #[0.5, 0.25]) = .stopped fault last → fault.isGrammarFault = true := by
  have mapping : sparseRules.Distinct := by decide
  have unit : Draws.InUnit (Source.replaying #[0.5, 0.25]) := Source.replaying_inUnit (by decide)
  have success : Grammar.build? sparseRules "list" =
      .ok ⟨sparseRules, "list", (Cost.estimate sparseRules).table⟩ :=
    Grammar.build?_eq_ok_iff.mpr ⟨⟨by decide, by decide, by decide⟩, rfl⟩
  obtain ⟨-, -, -, light⟩ := Generation.stops_at_overflow mapping success closingSettings unit
  refine ⟨mapping, unit, fun fuel fault last stopped => ?_⟩
  have small : ∀ rule ∈ sparseRules, ∀ e ∈ rule.2, ∀ n, e.weight = some (.int n) →
      0 < n ∧ n < (2 ^ 1023 : Nat) := by
    intro rule inside e chosen n weight
    simp only [sparseRules, List.mem_singleton] at inside
    subst inside
    simp only [List.mem_cons, List.not_mem_nil, or_false] at chosen
    have room : ∀ k bits : Nat, k < 2 ^ 2 → 2 ≤ bits → (k : Int) < (2 ^ bits : Nat) :=
      fun k bits few enough =>
        Int.ofNat_lt.mpr (Nat.lt_of_lt_of_le few (Nat.pow_le_pow_right (by decide) enough))
    rcases chosen with rfl | rfl
    · cases weight
      exact ⟨by decide, room 3 1023 (by decide) (by decide)⟩
    · cases weight
      exact ⟨by decide, room 1 1023 (by decide) (by decide)⟩
  rcases light small fuel fault last stopped with own | ⟨run, -, drawn, -⟩
  · exact own
  · cases drawn

/-- A weight that is larger than all floats. -/
def heavyWeight : Number := .int ((2 ^ 256) ^ 4 : Nat)

def heavyRules : Rules :=
  [("S", [⟨[.terminal "a"], some heavyWeight⟩, .unweighted [.terminal "b"]])]

theorem Generation.stopped_at_weight :
    Expansion.ofDraft [.symbol (.terminal "a")] (some heavyWeight) =
        .ok ⟨[.terminal "a"], some heavyWeight⟩ ∧
      Grammar.build? heavyRules "S" = .ok ⟨heavyRules, "S", (Cost.estimate heavyRules).table⟩ ∧
      Draws.InUnit (Source.replaying #[0.5]) ∧
      ∃ last, run ⟨heavyRules, "S", (Cost.estimate heavyRules).table⟩ Settings.standard
          (Source.replaying #[0.5]) = .stopped (.number .tooLargeForFloat) last ∧
        (Fault.number .tooLargeForFloat).isGrammarFault = false := by
  have success : Grammar.build? heavyRules "S" =
      .ok ⟨heavyRules, "S", (Cost.estimate heavyRules).table⟩ :=
    Grammar.build?_eq_ok_iff.mpr ⟨⟨by decide, by decide, by decide⟩, rfl⟩
  have unit : Draws.InUnit (Source.replaying #[0.5]) := Source.replaying_inUnit (by decide)
  obtain ⟨built, -, -⟩ := Grammar.built_of_build? (by decide) success
  have weight : heavyWeight.toFloat = .error .tooLargeForFloat := by decide +kernel
  have heavy : Run.Overflows ⟨heavyRules, "S", (Cost.estimate heavyRules).table⟩ Settings.standard
      (Run.start "S" (Source.replaying #[0.5])) :=
    .weight rfl rfl ⟨1, rfl⟩ ⟨by decide, 0, by decide, _, rfl, weight⟩
  refine ⟨rfl, success, unit, ?_⟩
  obtain ⟨last, stopped⟩ := heavy.stopped (.start built unit) built rfl rfl
  refine ⟨last, ?_, rfl⟩
  rw [run, runFor_eq built, Run.resume, stopped]

end GrammarSampler
