import GrammarSampler.Proofs.Cost.Exactness
import GrammarSampler.Proofs.Cost.Lookups
import GrammarSampler.Proofs.Grammar.Built

/-!
What rules are refused for, whatever else is wrong with them: a start without a rule, else what is
wrong with the first rule at fault. Rules that pass are never short of a name when their costs are
estimated.
-/
namespace GrammarSampler

namespace Rules
variable {rules : Rules} {start name : String} {alternatives : List Expansion}

/-- A rule has alternatives, and every name they use has a rule. -/
def Sound (rules : Rules) (alternatives : List Expansion) : Prop :=
  alternatives ≠ [] ∧ ∀ e ∈ alternatives, ∀ used ∈ e.references, used ∈ rules.keys

/-- What comes first of all that is wrong. -/
inductive Refused (rules : Rules) (start : String) : GrammarFault → Prop where
  | noStart (absent : start ∉ rules.keys) : Refused rules start (.noStart start)
  | noAlternatives {before after : Rules} {name : String} (present : start ∈ rules.keys)
      (place : rules = before ++ (name, []) :: after) (sound : ∀ rule ∈ before, rules.Sound rule.2) :
      Refused rules start (.noAlternatives name)
  | undefined {before after : Rules} {name used : String} {alternatives : List Expansion}
      {read rest : List String} (present : start ∈ rules.keys)
      (place : rules = before ++ (name, alternatives) :: after)
      (sound : ∀ rule ∈ before, rules.Sound rule.2)
      (reading : references alternatives = read ++ used :: rest)
      (known : ∀ other ∈ read, other ∈ rules.keys) (unknown : used ∉ rules.keys) :
      Refused rules start (.undefined name used)

theorem ruleFault?_eq_some_iff {defined : String → Bool} {fault : GrammarFault} :
    ruleFault? defined name alternatives = some fault ↔
      alternatives = [] ∧ fault = .noAlternatives name ∨
      ∃ read used rest, references alternatives = read ++ used :: rest ∧
        (∀ other ∈ read, defined other = true) ∧ defined used = false ∧ fault = .undefined name used := by
  cases alternatives with
  | nil =>
    have own : ruleFault? defined name [] = some (.noAlternatives name) := rfl
    rw [own, Option.some.injEq]
    constructor
    · rintro rfl
      exact .inl ⟨rfl, rfl⟩
    · rintro (⟨-, rfl⟩ | ⟨read, used, rest, reading, -⟩)
      · rfl
      · exact absurd reading (by simp [references])
  | cons first later =>
    simp only [ruleFault?, List.isEmpty_cons, Bool.false_eq_true, if_false, reduceCtorEq, false_and,
      false_or, Option.map_eq_some_iff, List.find?_eq_some_iff_append, Bool.not_eq_true',
      Bool.not_not]
    constructor
    · rintro ⟨used, ⟨unknown, read, rest, reading, known⟩, rfl⟩
      exact ⟨read, used, rest, reading, known, unknown, rfl⟩
    · rintro ⟨read, used, rest, reading, known, unknown, rfl⟩
      exact ⟨used, ⟨unknown, read, rest, reading, known⟩, rfl⟩

theorem fault?_eq_some_iff {fault : GrammarFault} :
    rules.fault? start = some fault ↔ Refused rules start fault := by
  rw [fault?_eq]
  by_cases present : start ∈ rules.keys
  · simp only [present, not_true_eq_false, if_false, List.findSome?_eq_some_iff, ruleFault?_eq_some_iff,
      Grammar.ruleFault?_eq_none_iff, decide_eq_true_eq, decide_eq_false_iff_not]
    constructor
    · rintro ⟨before, ⟨name, alternatives⟩, after, place, faulty, sound⟩
      rcases faulty with ⟨rfl, rfl⟩ | ⟨read, used, rest, reading, known, unknown, rfl⟩
      · exact .noAlternatives present place sound
      · exact .undefined present place sound reading known unknown
    · rintro (absent | ⟨-, place, sound⟩ | ⟨-, place, sound, reading, known, unknown⟩)
      · exact absurd present absent
      · exact ⟨_, _, _, place, .inl ⟨rfl, rfl⟩, sound⟩
      · exact ⟨_, _, _, place, .inr ⟨_, _, _, reading, known, unknown, rfl⟩, sound⟩
  · simp only [present, not_false_eq_true, if_true, Option.some.injEq]
    constructor
    · rintro rfl
      exact .noStart present
    · rintro (_ | ⟨there, -, -⟩ | ⟨there, -, -, -, -, -⟩)
      · rfl
      · exact absurd there present
      · exact absurd there present

end Rules

theorem Entries.keys_of_mapM {α β : Type} {step : String × α → Except Fault (String × β)}
    (keep : ∀ a b, step a = .ok b → b.1 = a.1) {es : Entries α} {made : Entries β}
    (run : es.mapM step = .ok made) : made.keys = es.keys := by
  induction es generalizing made with
  | nil =>
    cases run
    rfl
  | cons entry rest ih =>
    rw [List.mapM_cons] at run
    cases first : step entry with
    | error fault =>
      rw [first] at run
      cases run
    | ok b =>
      cases later : rest.mapM step with
      | error fault =>
        rw [first, later] at run
        cases run
      | ok others =>
        rw [first, later] at run
        cases run
        exact congrArg₂ List.cons (keep entry b first) (ih later)

theorem Rules.keys_ofDrafts {drafts : List (String × List Draft)} {rules : Rules}
    (read : ofDrafts drafts = .ok rules) : rules.keys = (Entries.ofPairs drafts).keys := by
  refine Entries.keys_of_mapM ?_ read
  rintro ⟨name, alternatives⟩ b converted
  dsimp only at converted
  cases expansions : Draft.expansions? alternatives with
  | error fault =>
    rw [expansions] at converted
    cases converted
  | ok alternatives' =>
    rw [expansions] at converted
    cases converted
    rfl

namespace Grammar
variable {rules : Rules} {start : String}

theorem wellFormed_iff :
    WellFormed rules start ↔ start ∈ rules.keys ∧ ∀ rule ∈ rules, rules.Sound rule.2 := by
  simp only [WellFormed, Rules.Sound, Rules.Closed, Rules.allReferences, Rules.references,
    List.mem_flatMap]
  constructor
  · rintro ⟨present, nonempty, closed⟩
    exact ⟨present, fun rule inside => ⟨nonempty rule inside, fun e chosen used mem =>
      closed used ⟨rule, inside, e, chosen, mem⟩⟩⟩
  · rintro ⟨present, sound⟩
    refine ⟨present, fun rule inside => (sound rule inside).1, ?_⟩
    rintro used ⟨rule, inside, e, chosen, mem⟩
    exact (sound rule inside).2 e chosen used mem

theorem build_outcome_eq_error_iff {fault : Fault} : (build rules start).outcome = .error fault ↔
    ∃ own, fault = .grammar own ∧ Rules.Refused rules start own := by
  simp only [← Rules.fault?_eq_some_iff]
  unfold build
  cases rules.fault? start with
  | none => simp
  | some own =>
    simp only [Report.fail, Except.error.injEq, Option.some.injEq]
    constructor
    · rintro rfl
      exact ⟨own, rfl, rfl⟩
    · rintro ⟨_, rfl, rfl⟩
      rfl

theorem estimate_lookups (distinct : rules.Distinct) (closed : rules.Closed) :
    Cost.Checked.estimate rules = .ok (Cost.estimate rules) ∧
      Cost.Checked.pass rules (Cost.estimate rules).table = .ok ⟨(Cost.estimate rules).table, false⟩ := by
  obtain ⟨still, same⟩ := (Cost.estimate_exact distinct).1.unchanged distinct
  have idle : Cost.pass rules (Cost.estimate rules).table = ⟨(Cost.estimate rules).table, false⟩ := by
    rw [← still]
    exact congrArg (Cost.Relaxation.mk · _) same
  refine ⟨(Cost.Checked.estimate_eq rules).trans (Cost.estimate?_eq closed), ?_⟩
  rw [Cost.Checked.pass_eq (Cost.keys_estimate rules), (Rules.undefined?_eq_none_iff rules).mpr closed,
    idle]
  rfl

/-- Rules make a grammar if the start has a rule and all rules are sound, and are refused for what
comes first otherwise. The costs of a grammar are looked up without fail. -/
theorem build_decided {drafts : List (String × List Draft)} (read : Rules.ofDrafts drafts = .ok rules)
    (start : String) :
    rules.keys = (Entries.ofPairs drafts).keys ∧
      ((∃ g, (build rules start).outcome = .ok g) ↔
        start ∈ rules.keys ∧ ∀ rule ∈ rules, rules.Sound rule.2) ∧
      (∀ fault, (build rules start).outcome = .error fault ↔
        ∃ own, fault = .grammar own ∧ Rules.Refused rules start own) ∧
      ∀ g, (build rules start).outcome = .ok g → g.rules = rules ∧ g.start = start ∧
        ∃ estimate, Cost.Checked.estimate rules = .ok estimate ∧
          Cost.Checked.pass rules estimate.table = .ok ⟨estimate.table, false⟩ ∧
          g.costs = estimate.table := by
  have keys := Rules.keys_ofDrafts read
  have distinct : rules.Distinct := by
    unfold Entries.Distinct
    rw [keys]
    exact Entries.distinct_ofPairs drafts
  have succeeds (g : Grammar) : (build rules start).outcome = .ok g ↔
      WellFormed rules start ∧ g = ⟨rules, start, (Cost.estimate rules).table⟩ := by
    rw [← build?_eq_ok_iff, build_outcome]
    cases build? rules start <;> simp [Except.mapError]
  refine ⟨keys, ?_, fun fault => build_outcome_eq_error_iff, fun g success => ?_⟩
  · simp only [succeeds, exists_and_left, exists_eq, and_true, wellFormed_iff]
  · obtain ⟨wellFormed, rfl⟩ := (succeeds g).mp success
    obtain ⟨estimated, idle⟩ := estimate_lookups distinct wellFormed.2.2
    exact ⟨rfl, rfl, Cost.estimate rules, estimated, idle, rfl⟩

/-- A rule with two names that are not defined, before a rule without alternatives. -/
def wrongRules : Rules :=
  [("S", [⟨[.terminal "a", .nonterminal "S"], none⟩, .unweighted [.nonterminal "lost"],
      .unweighted [.nonterminal "gone"]]),
    ("empty", [])]

theorem build_decided_wrong :
    (build wrongRules "S").outcome = .error (.grammar (.undefined "S" "lost")) ∧
      (build wrongRules "T").outcome = .error (.grammar (.noStart "T")) := by
  let drafts : List (String × List Draft) := wrongRules.map fun rule => (rule.1, rule.2.map .expansion)
  have read : Rules.ofDrafts drafts = .ok wrongRules := by rfl
  refine ⟨((build_decided read "S").2.2.1 _).mpr ⟨_, rfl, ?_⟩,
    ((build_decided read "T").2.2.1 _).mpr ⟨_, rfl, .noStart (by decide)⟩⟩
  exact @Rules.Refused.undefined _ _ [] _ _ _ _ ["S"] ["gone"] (by decide) rfl nofun rfl (by decide)
    (by decide)

end Grammar
end GrammarSampler
