import GrammarSampler.Proofs.Dictionary.Keeping
import GrammarSampler.Proofs.GrammarText.Keeping

/-!
What a user defines is kept, in grammar texts and in dictionaries: no alternative is lost, written over
or mixed with what is made up for groups, options and repetitions.
-/
namespace GrammarSampler
open Dictionary (Announces Gathered bareName)
open Ebnf (BodyStands)
open GrammarText (Definition Written)

/-- The rules of an accepted text or dictionary are those of the names that it defines and of distinct
names made up beside these, each listed once, and what is made up has no weights. The rule of a name
that is defined has one alternative for each that was written for it, with its weight and in the order
of the source, which stands for what was written. -/
theorem alternatives_kept (text : String) (members : Entries Json) :
    ((GrammarText.parse text).outcome = .ok () →
      ∃ definitions made, GrammarText.definitions? text.toList = .ok definitions ∧
        (GrammarText.parse text).rules.Keeps (definitions.map Definition.name) made ∧
        ∀ name ∈ definitions.map Definition.name, ∃ body lowered, Written name definitions body ∧
          BodyStands (GrammarText.parse text).rules (definitions.map Definition.name) body lowered ∧
            (GrammarText.parse text).rules.get? name = some (lowered.map .unweighted)) ∧
    ∀ rules, (Dictionary.rules members).outcome = .ok rules →
      ∃ queue made, List.Forall₂ Announces members queue ∧
        rules.Keeps (members.keys.map bareName) made ∧
        ∀ name ∈ members.keys.map bareName, ∃ entry,
          Gathered rules (members.keys.map bareName) name queue entry ∧
            rules.get? name = some entry := by
  constructor
  · intro accepted
    exact GrammarText.parse_keeps accepted
  · intro rules accepted
    exact Dictionary.rules_keep accepted

/-- A name that looks like one made up is defined behind the construct that would get it, and another
name is defined twice. -/
def lateText : String := "<a> ::= \x7b'x'\x7d | ['y' | <a-1>]\n<a-1> ::= 'z'\n<a> ::= ('b')+"

def lateDefinitions : List GrammarText.Definition :=
  [⟨"a", "\x7b'x'\x7d | ['y' | <a-1>]".toList, 1⟩, ⟨"a-1", "'z'".toList, 2⟩, ⟨"a", "('b')+".toList, 3⟩]

/-- Two keys name the same rule, and one of them gives its alternatives by the keys of an object. -/
def twiceMembers : Entries Json :=
  [("<a>", .list [.text "<a>?", .list [.text "y", .object [("weight", .number (.int 3))]]]),
    ("a", .object [("z", .null), ("", .null)])]

def twiceRules : Rules :=
  [("a-1", [.unweighted [], .unweighted [.nonterminal "a"]]),
    ("a", [.unweighted [.nonterminal "a-1"], ⟨[.terminal "y"], some (.int 3)⟩,
      .unweighted [.terminal "z"], .unweighted []])]

theorem alternatives_kept_twice :
    (∃ made, (GrammarText.parse lateText).rules.Keeps ["a", "a-1", "a"] made ∧
      ∃ body lowered, Written "a" lateDefinitions body ∧
        BodyStands (GrammarText.parse lateText).rules ["a", "a-1", "a"] body lowered ∧
          (GrammarText.parse lateText).rules.get? "a" = some (lowered.map .unweighted)) ∧
    (Dictionary.rules twiceMembers).outcome = .ok twiceRules ∧
      ∃ queue made, List.Forall₂ Announces twiceMembers queue ∧
        twiceRules.Keeps ["a", "a"] made ∧
        ∃ entry, Gathered twiceRules ["a", "a"] "a" queue entry ∧
          twiceRules.get? "a" = some entry := by
  have found : GrammarText.definitions? lateText.toList = .ok lateDefinitions :=
    GrammarText.eq_ok_of_toOption (by decide +kernel)
  have parsed : (GrammarText.parse lateText).outcome = .ok () :=
    GrammarText.eq_ok_of_toOption (by decide +kernel)
  have converted : (Dictionary.rules twiceMembers).outcome = .ok twiceRules :=
    GrammarText.eq_ok_of_toOption (by decide +kernel)
  have names : twiceMembers.keys.map bareName = ["a", "a"] := by decide +kernel
  obtain ⟨ofText, ofDictionary⟩ := alternatives_kept lateText twiceMembers
  constructor
  · obtain ⟨definitions, made, same, keeps, entries⟩ := ofText parsed
    rw [found] at same
    cases same
    exact ⟨made, keeps, entries "a" (by decide)⟩
  · obtain ⟨queue, made, announced, keeps, entries⟩ := ofDictionary twiceRules converted
    rw [names] at keeps entries
    exact ⟨converted, queue, made, announced, keeps, entries "a" (by decide)⟩

end GrammarSampler
