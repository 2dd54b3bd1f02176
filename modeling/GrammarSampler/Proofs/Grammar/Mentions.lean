import GrammarSampler.Proofs.Cost.Exactness
import GrammarSampler.Proofs.Grammar.Built

/-!
Names that rules refer to. Making and extending rules loses no reference, and a grammar is refused
while one of them is not defined.
-/
namespace GrammarSampler.Rules
variable {rules : Rules} {rule name : String} {alternatives : List Expansion}

/-- An alternative of some rule refers to the name. -/
def Mentions (rules : Rules) (name : String) : Prop :=
  ∃ rule alternatives, rules.get? rule = some alternatives ∧ ∃ e ∈ alternatives, name ∈ e.references

theorem mentions_put_self {e : Expansion} (chosen : e ∈ alternatives) (refers : name ∈ e.references) :
    Mentions (rules.put rule alternatives) name :=
  ⟨rule, alternatives, Entries.get?_put_self _ _ _, e, chosen, refers⟩

theorem Mentions.put (mentions : rules.Mentions name) (new : rule ∉ rules.keys) :
    Mentions (rules.put rule alternatives) name := by
  obtain ⟨other, own, found, e, chosen, refers⟩ := mentions
  have apart : rule ≠ other := by
    rintro rfl
    apply new
    rw [← Entries.get?_isSome_iff, found]
    rfl
  exact ⟨other, own, (Entries.get?_put_other _ _ apart).trans found, e, chosen, refers⟩

theorem mentions_extend_self {e : Expansion} (chosen : e ∈ alternatives)
    (refers : name ∈ e.references) : (rules.extend rule alternatives).Mentions name :=
  mentions_put_self (List.mem_append_right _ chosen) refers

theorem Mentions.extend (mentions : rules.Mentions name) :
    (rules.extend rule alternatives).Mentions name := by
  obtain ⟨other, own, found, e, chosen, refers⟩ := mentions
  by_cases same : rule = other
  · subst same
    apply mentions_put_self _ refers
    rw [found]
    exact List.mem_append_left _ chosen
  · exact ⟨other, own, (Entries.get?_put_other _ _ same).trans found, e, chosen, refers⟩

theorem Mentions.build?_eq_error (mentions : rules.Mentions name) (absent : name ∉ rules.keys)
    (start : String) : ∃ fault, Grammar.build? rules start = .error fault := by
  cases built : Grammar.build? rules start with
  | error fault => exact ⟨fault, rfl⟩
  | ok g =>
    obtain ⟨other, own, found, e, chosen, refers⟩ := mentions
    have closed := (Grammar.build?_eq_ok_iff.mp built).1.2.2
    exact absurd (closed name (mem_allReferences.mpr
      ⟨_, Entries.mem_of_get? found, e, chosen, refers⟩)) absent

end GrammarSampler.Rules
