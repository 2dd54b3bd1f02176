import GrammarSampler.Entries
import GrammarSampler.Draft
import Std.Data.HashSet

/-!
Rules: names with their alternatives, in the order in which they were defined, and the check that
they form a grammar.
-/
namespace GrammarSampler

abbrev Rules := Entries (List Expansion)

namespace Rules

def references (alternatives : List Expansion) : List String :=
  alternatives.flatMap Expansion.references

def allReferences (rules : Rules) : List String :=
  rules.flatMap fun (_, alternatives) => references alternatives

def defined (rules : Rules) : Std.HashSet String := .ofList rules.keys

@[simp] theorem contains_defined (rules : Rules) (name : String) :
    rules.defined.contains name = decide (name ∈ rules.keys) := by
  simp [defined]

def undefined? (rules : Rules) : Option String :=
  let defined := rules.defined
  rules.allReferences.find? fun name => !defined.contains name

def Closed (rules : Rules) : Prop := ∀ name ∈ rules.allReferences, name ∈ rules.keys

instance (rules : Rules) : Decidable rules.Closed :=
  inferInstanceAs (Decidable (∀ name ∈ rules.allReferences, name ∈ rules.keys))

theorem undefined?_eq_none_iff (rules : Rules) : rules.undefined? = none ↔ rules.Closed := by
  simp [undefined?, Closed, List.find?_eq_none]

def ruleFault? (defined : String → Bool) (name : String) (alternatives : List Expansion) :
    Option GrammarFault :=
  if alternatives.isEmpty then some (.noAlternatives name)
  else ((references alternatives).find? fun used => !defined used).map (.undefined name)

def fault? (rules : Rules) (start : String) : Option GrammarFault :=
  let defined := rules.defined
  if !defined.contains start then some (.noStart start)
  else rules.findSome? fun (name, alternatives) => ruleFault? defined.contains name alternatives

theorem fault?_eq (rules : Rules) (start : String) :
    rules.fault? start =
      if start ∉ rules.keys then some (.noStart start)
      else rules.findSome? fun (name, alternatives) =>
        ruleFault? (fun used => decide (used ∈ rules.keys)) name alternatives := by
  have defined : rules.defined.contains = fun used => decide (used ∈ rules.keys) :=
    funext rules.contains_defined
  simp [fault?, defined]

def extend (rules : Rules) (name : String) (alternatives : List Expansion) : Rules :=
  rules.put name ((rules.get? name).getD [] ++ alternatives)

theorem mem_extended {rules : Rules} {name : String} {alternatives : List Expansion} {e : Expansion}
    (chosen : e ∈ (rules.get? name).getD [] ++ alternatives) :
    (∃ before, rules.get? name = some before ∧ e ∈ before) ∨ e ∈ alternatives := by
  rcases List.mem_append.mp chosen with old | new
  · cases found : rules.get? name with
    | none =>
      rw [found] at old
      cases old
    | some before =>
      rw [found] at old
      exact .inl ⟨before, rfl, old⟩
  · exact .inr new

def ofDrafts (drafts : List (String × List Draft)) : Except Fault Rules :=
  (Entries.ofPairs drafts).mapM fun (name, alternatives) => do
    let expansions ← Draft.expansions? alternatives
    return (name, expansions)

def display (rules : Rules) : String :=
  "\n".intercalate <| rules.map fun (name, alternatives) =>
    Symbol.bracketed name ++ " ::= " ++ Expansion.displayAll alternatives

end Rules
end GrammarSampler
