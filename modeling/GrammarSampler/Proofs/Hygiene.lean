import GrammarSampler.Proofs.Dictionary.Hygiene
import GrammarSampler.Proofs.GrammarText.Hygiene

/-!
Names that are used but not defined, in grammar texts and in dictionaries. Rules that are made up keep
clear of the names that are defined, but not of those that are only used: such a name is bound if it
looks like one that is made up, and refused otherwise.
-/
namespace GrammarSampler
open Dictionary (IsName bareName)

/-- An undefined name of a text is bound exactly if it is a defined name with a number behind it that
is reached while rules are made for the constructs of that name; an undefined name of a dictionary is
bound only if it is a defined name with one or two numbers behind it. No grammar is built with any
other undefined name. -/
theorem undefined_names (text : String) (members : Entries Json) :
    ((GrammarText.parse text).outcome = .ok () →
      ∃ definitions, GrammarText.definitions? text.toList = .ok definitions ∧
        ∀ d ∈ definitions, ∀ name ∈ GrammarText.referredNames d.body,
          name ∉ definitions.map GrammarText.Definition.name →
          (name ∈ (GrammarText.parse text).rules.keys ↔
            ∃ own ∈ definitions, ∃ k, name = Fresh.candidate own.name k ∧
              Fresh.freeBefore (definitions.map GrammarText.Definition.name) own.name k <
                GrammarText.constructs definitions own.name) ∧
          (name ∉ (GrammarText.parse text).rules.keys →
            ∀ start, ∃ fault, Grammar.build? (GrammarText.parse text).rules start = .error fault)) ∧
    ∀ rules, (Dictionary.rules members).outcome = .ok rules →
      ∃ queue, (Dictionary.entries members).outcome = .ok queue ∧
        ∀ name, IsName name → (∃ p ∈ queue, p.Mentions name) → name ∉ members.keys.map bareName →
          (name ∈ rules.keys → ∃ first ∈ members.keys.map bareName, ∃ j, 0 < j ∧
            (name = Fresh.candidate first j ∨
              ∃ k, 0 < k ∧ name = Fresh.candidate (Fresh.candidate first j) k)) ∧
          (name ∉ rules.keys → ∀ start, ∃ fault, Grammar.build? rules start = .error fault) := by
  constructor
  · intro accepted
    exact GrammarText.parse_undefined accepted
  · intro rules accepted
    exact Dictionary.rules_undefined accepted

def strayText : String := "<a> ::= \x7b\"x\"\x7d <b>"

def strayDefinitions : List GrammarText.Definition := [⟨"a", "\x7b\"x\"\x7d <b>".toList, 1⟩]

def strayMembers : Entries Json := [("<s>", .list [.text "<s>*<y>"])]

def strayRules : Rules :=
  [("s-1", [.unweighted [], .unweighted [.nonterminal "s", .nonterminal "s-1"]]),
    ("s", [.unweighted [.nonterminal "s-1", .nonterminal "y"]])]

theorem undefined_names_stray :
    (∃ fault, Grammar.build? (GrammarText.parse strayText).rules "a" = .error fault) ∧
    (Dictionary.rules strayMembers).outcome = .ok strayRules ∧
    ∃ fault, Grammar.build? strayRules "s" = .error fault := by
  have found : GrammarText.definitions? strayText.toList = .ok strayDefinitions :=
    GrammarText.eq_ok_of_toOption (by decide +kernel)
  have parsed : (GrammarText.parse strayText).outcome = .ok () :=
    GrammarText.eq_ok_of_toOption (by decide +kernel)
  have converted : (Dictionary.rules strayMembers).outcome = .ok strayRules :=
    GrammarText.eq_ok_of_toOption (by decide +kernel)
  obtain ⟨ofText, ofDictionary⟩ := undefined_names strayText strayMembers
  refine ⟨?_, converted, ?_⟩
  · obtain ⟨definitions, same, names⟩ := ofText parsed
    rw [found] at same
    cases same
    exact (names _ (List.mem_singleton_self _) "b" (by decide +kernel) (by decide +kernel)).2
      (by decide +kernel) "a"
  · obtain ⟨queue, same, names⟩ := ofDictionary strayRules converted
    cases same
    exact (names "y" (by decide)
      ⟨_, List.mem_singleton_self _, _, List.mem_singleton_self _, "<s>*".toList, [], rfl⟩
      (by decide)).2 (by decide) "s"

/-- The name that is used is the one that the repetition gets. -/
def capturingText : String := "<a> ::= \x7b\"x\"\x7d <a-1>"

def capturingDefinitions : List GrammarText.Definition := [⟨"a", "\x7b\"x\"\x7d <a-1>".toList, 1⟩]

def capturingMembers : Entries Json := [("<start>", .list [.text "<start>?<start-1>"])]

def capturingRules : Rules :=
  [("start-1", [.unweighted [], .unweighted [.nonterminal "start"]]),
    ("start", [.unweighted [.nonterminal "start-1", .nonterminal "start-1"]])]

theorem undefined_names_captured :
    (GrammarText.definitions? capturingText.toList = .ok capturingDefinitions ∧
      (GrammarText.parse capturingText).outcome = .ok () ∧
      (∃ d ∈ capturingDefinitions, "a-1" ∈ GrammarText.referredNames d.body) ∧
      "a-1" ∉ capturingDefinitions.map GrammarText.Definition.name ∧
      "a-1" ∈ (GrammarText.parse capturingText).rules.keys ∧
      ∃ g, Grammar.build? (GrammarText.parse capturingText).rules "a" = .ok g) ∧
    (∃ queue, (Dictionary.entries capturingMembers).outcome = .ok queue ∧
      ∃ p ∈ queue, p.Mentions "start-1") ∧
    "start-1" ∉ capturingMembers.keys.map bareName ∧
    (Dictionary.rules capturingMembers).outcome = .ok capturingRules ∧
    ∃ g, Grammar.build? capturingRules "start" = .ok g := by
  refine ⟨⟨?_, ?_, ?_, ?_, ?_, ?_⟩, ?_, ?_, ?_, ?_⟩
  · exact GrammarText.eq_ok_of_toOption (by decide +kernel)
  · exact GrammarText.eq_ok_of_toOption (by decide +kernel)
  · exact ⟨_, List.mem_singleton_self _, by decide +kernel⟩
  · decide +kernel
  · decide +kernel
  · exact ⟨_, Grammar.build?_eq_ok_iff.mpr
      ⟨⟨by decide +kernel, by decide +kernel, by decide +kernel⟩, rfl⟩⟩
  · exact ⟨_, rfl, _, List.mem_singleton_self _, _, List.mem_singleton_self _, "<start>?".toList, [], rfl⟩
  · decide
  · exact GrammarText.eq_ok_of_toOption (by decide +kernel)
  · exact ⟨_, Grammar.build?_eq_ok_iff.mpr ⟨⟨by decide, by decide, by decide⟩, rfl⟩⟩

end GrammarSampler
