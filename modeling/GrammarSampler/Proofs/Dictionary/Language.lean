import GrammarSampler.Proofs.Dictionary.Rounds

/-!
What a dictionary grammar means: its definitions are equations between languages, and a name stands
for its language in the least solution. A dictionary whose alternatives are well formed is always
converted, to rules that derive exactly that.
-/
namespace GrammarSampler.Dictionary
open Ebnf (Environment)

section Names

mutual
theorem Part.language_congr {env env' : Environment} : ∀ part : Part,
    (∀ name ∈ part.names, env name = env' name) → part.language env = part.language env'
  | .literal _, _ => rfl
  | .reference name signs, same => by
    rw [Part.language, same name (List.mem_singleton_self name)]
    rfl
  | .group parts first more, same => by
    rw [Part.language, Part.languageAll_congr parts same]
    rfl

theorem Part.languageAll_congr {env env' : Environment} : ∀ parts : List Part,
    (∀ name ∈ Part.namesAll parts, env name = env' name) →
      Part.languageAll env parts = Part.languageAll env' parts
  | [], _ => rfl
  | part :: rest, same => by
    rw [Part.languageAll, Part.language_congr part fun name mem =>
      same name (List.mem_append_left _ mem), Part.languageAll_congr rest fun name mem =>
      same name (List.mem_append_right _ mem)]
    rfl
end

/-- Definitions that use only names of their own say the same where these stand for the same. -/
theorem Closed.spelled_congr {definitions : List Definition} (closed : Closed definitions)
    {env env' : Environment}
    (same : ∀ name ∈ definitions.map Definition.name, env name = env' name) (name : String) :
    spelled definitions env name = spelled definitions env' name := by
  have each : ∀ d ∈ definitions, ∀ parts ∈ d.alternatives,
      Part.languageAll env parts = Part.languageAll env' parts := by
    intro d inside parts chosen
    exact Part.languageAll_congr parts fun used mem => same used (closed d inside parts chosen used mem)
  ext w
  constructor
  · rintro ⟨d, inside, named, parts, chosen, word⟩
    exact ⟨d, inside, named, parts, chosen, each d inside parts chosen ▸ word⟩
  · rintro ⟨d, inside, named, parts, chosen, word⟩
    exact ⟨d, inside, named, parts, chosen, (each d inside parts chosen).symm ▸ word⟩

theorem bareName_bracketed {key name : String} (written : key.toList = bracketed name)
    (named : IsName name) : bareName key = name := by
  unfold bareName
  simp only [written, bracketed, List.getLast?_concat, List.dropLast_concat]
  cases spelling : name.toList with
  | nil => exact absurd spelling named.1
  | cons c rest =>
    simp only
    rw [← spelling, String.ofList_toList]

end Names

section Entries
variable {key : String}

theorem exists_weight {options : Entries Json} (positive : WeighsPositive options) :
    ∃ weight, weight? key options = .ok weight ∧ ∀ n, weight = some n → n.isPositive = true := by
  unfold WeighsPositive at positive
  unfold weight?
  cases found : options.get? "weight" with
  | none => exact ⟨none, rfl, nofun⟩
  | some value =>
    rw [found] at positive
    cases value with
    | null => exact ⟨none, rfl, nofun⟩
    | number n =>
      refine ⟨some n, rfl, ?_⟩
      rintro m same
      cases same
      exact positive
    | text _ => exact positive.elim
    | list _ => exact positive.elim
    | object _ => exact positive.elim

theorem exists_alternative {value : Json} {parts : List Part} (spells : Spells value parts) :
    ∃ item, (alternative key value).outcome = .ok item ∧ Prepared parts item := by
  cases spells with
  | bare written good => exact ⟨_, rfl, written, good, nofun⟩
  | @weighted text options _ written good positive =>
    obtain ⟨weight, found, positive⟩ := @exists_weight key options positive
    refine ⟨(text.toList, weight), ?_, written, good, positive⟩
    rw [alternative, Report.outcome_bind (a := ()) rfl, Report.outcome_bind (a := weight) found]
    rfl

theorem exists_allAlternatives {items : List Json} {alternatives : List (List Part)}
    (each : List.Forall₂ Spells items alternatives) :
    ∃ prepared, (allAlternatives key items).outcome = .ok prepared ∧
      List.Forall₂ Prepared alternatives prepared := by
  induction each with
  | nil => exact ⟨[], rfl, .nil⟩
  | cons here _ ih =>
    obtain ⟨item, one, first⟩ := @exists_alternative key _ _ here
    obtain ⟨prepared, all, rest⟩ := ih
    refine ⟨item :: prepared, ?_, .cons first rest⟩
    rw [allAlternatives, Report.outcome_bind one, Report.outcome_bind all]
    rfl

theorem exists_entries {members : Entries Json} {definitions : List Definition}
    (written : List.Forall₂ Defines members definitions) :
    ∃ queue, (entries members).outcome = .ok queue ∧
      List.Forall₂ Definition.Queued definitions queue := by
  induction written with
  | nil => exact ⟨[], rfl, .nil⟩
  | cons here _ ih =>
    obtain ⟨queue, all, rest⟩ := ih
    cases here with
    | @intro key name items alternatives spelling named each =>
      obtain ⟨prepared, one, first⟩ := @exists_allAlternatives key items alternatives each
      refine ⟨⟨bareName key, prepared⟩ :: queue, ?_,
        .cons ⟨bareName_bracketed spelling named, named, first⟩ rest⟩
      rw [entries, Report.outcome_bind (a := items) rfl, Report.outcome_bind one,
        Report.outcome_bind all]
      rfl

theorem names_eq {members : Entries Json} {definitions : List Definition}
    (written : List.Forall₂ Defines members definitions) :
    members.keys.map bareName = definitions.map Definition.name := by
  induction written with
  | nil => rfl
  | cons here _ ih =>
    cases here with
    | intro spelling named each =>
      rw [List.map_cons, ← ih]
      exact congrArg (· :: _) (bareName_bracketed spelling named)

end Entries

/-- A dictionary whose alternatives are well formed and use only names that it defines is converted
to rules that derive from every name its language in the least solution. -/
theorem rules_isLeast {members : Entries Json} {definitions : List Definition}
    (written : List.Forall₂ Defines members definitions) (closed : Closed definitions) :
    ∃ rules, (Dictionary.rules members).outcome = .ok rules ∧
      ∃ least, IsLeast {env | Solves definitions env} least ∧
        ∀ d ∈ definitions, ∀ w, rules.Derives [.nonterminal d.name] w ↔ w ∈ least d.name := by
  obtain ⟨queue, read, queued⟩ := exists_entries written
  obtain ⟨f, drained, words⟩ := @exists_drain (definitions.map Definition.name) definitions queue
    queued fun d inside => List.mem_map_of_mem inside
  have means : ∀ env, ∀ name ∈ definitions.map Definition.name,
      f.rules.expanded (definitions.map Definition.name) env f.rules name =
        spelled definitions env name := by
    intro env name inside
    rw [words env name inside]
    exact closed.spelled_congr (fun other known => Rules.reading_given known) name
  refine ⟨f.rules, ?_, f.rules.derived (definitions.map Definition.name), ⟨?_, ?_⟩, ?_⟩
  · rw [← names_eq written] at drained
    rw [Dictionary.rules, Report.outcome_bind read, Report.outcome_bind (a := f) drained]
    rfl
  · refine Rules.derived_solves means ?_
    intro env name outside
    exact spelled_eq_zero fun d inside same => outside (same ▸ List.mem_map_of_mem inside)
  · intro env solves
    exact Rules.derived_le means solves
  · intro d inside w
    rw [Rules.mem_derived]
    exact ⟨fun derives => ⟨List.mem_map_of_mem inside, derives⟩, fun both => both.2⟩

/-- Nested groups, chained operators, an operator character that is literal, a weight and an empty
alternative. -/
def nestedMembers : Entries Json :=
  [("<s>", .list [.text "(a(b<d>?)+c)*?<d>+*x+",
      .list [.text "<s>", .object [("weight", .number (.int 3))]]]),
    ("<d>", .list [.text "0", .text ""])]

def nestedParts : List Part :=
  [.group [.literal 'a', .group [.literal 'b', .reference "d" [.optional]] .plus [], .literal 'c']
      .star [.optional],
    .reference "d" [.plus, .star], .literal 'x', .literal '+']

def nestedDefinitions : List Definition :=
  [⟨"s", [nestedParts, [.reference "s" []]]⟩, ⟨"d", [[.literal '0'], []]⟩]

theorem rules_isLeast_nested : List.Forall₂ Defines nestedMembers nestedDefinitions ∧
    Closed nestedDefinitions ∧ ∃ rules, (Dictionary.rules nestedMembers).outcome = .ok rules ∧
      ∃ least, IsLeast {env | Solves nestedDefinitions env} least ∧
        ∀ d ∈ nestedDefinitions, ∀ w,
          rules.Derives [.nonterminal d.name] w ↔ w ∈ least d.name := by
  have written : List.Forall₂ Defines nestedMembers nestedDefinitions := by
    refine .cons (.intro (by decide) (by decide) ?_)
      (.cons (.intro (by decide) (by decide) ?_) .nil)
    · exact .cons (.bare (by decide) (by decide +kernel))
        (.cons (.weighted (by decide) (by decide +kernel) rfl) .nil)
    · exact .cons (.bare (by decide) (by decide +kernel))
        (.cons (.bare (by decide) (by decide +kernel)) .nil)
  have closed : Closed nestedDefinitions := by decide
  exact ⟨written, closed, rules_isLeast written closed⟩

end GrammarSampler.Dictionary
