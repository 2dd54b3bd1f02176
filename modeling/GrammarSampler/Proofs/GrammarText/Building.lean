import GrammarSampler.Proofs.Ebnf.Linking
import GrammarSampler.Proofs.GrammarText.Keeping

/-!
Which texts make a grammar: a text that is accepted and uses only names that it defines is built,
with the rules it is parsed into and the name that it defines first as the start.
-/
namespace GrammarSampler.GrammarText
open Ebnf

section Run
variable {given : List String} {l l' : Lowering}

theorem linked_lower {d : Definition} {body : Body} (inside : given ⊆ l.taken) (linked : Linked l)
    (spells : SpellsBody d.body body) (known : ∀ name ∈ bodyNames body, name ∈ given) :
    given ⊆ (d.lower body l).taken ∧ Linked (d.lower body l) := by
  obtain ⟨lowered, refers⟩ := @links_of_spellsBody d.name _ _ _ spells known l inside linked
  refine ⟨List.Subset.trans inside (extends_lowerBody d.name l body).taken, lowered.extend ?_⟩
  refine links_of_refers ?_ refers
  intro none
  have lengths := length_lowerBody d.name l body
  rw [none] at lengths
  exact spells.ne_nil (List.length_eq_zero_iff.mp lengths.symm)

theorem Lowers.linked {definitions : List Definition} (lowers : Lowers definitions l l')
    (inside : given ⊆ l.taken) (within : Within given definitions) (linked : Linked l) :
    Linked l' := by
  induction lowers with
  | nil => exact linked
  | @cons d rest body _ _ spells _ ih =>
    obtain ⟨known, within⟩ := List.forall_mem_cons.mp within
    obtain ⟨inside', linked'⟩ := linked_lower inside linked spells (known body spells)
    exact ih inside' within linked'

end Run

def Definition.read? (d : Definition) : Option (String × Body) :=
  match Ebnf.read d.body with
  | .done body _ => some (d.name, body)
  | .failed _ _ => none

theorem Definition.read?_eq_some_iff {d : Definition} {rule : String × Body} :
    d.read? = some rule ↔ d.name = rule.1 ∧ SpellsBody d.body rule.2 := by
  unfold read?
  constructor
  · intro found
    split at found
    · rename_i body rest read
      cases found
      exact ⟨rfl, (read_eq_done_iff.mp read).2⟩
    · cases found
  · rintro ⟨named, spells⟩
    rw [read_eq_done_iff.mpr ⟨rfl, spells⟩, named]

section Building
variable {text : String} {definitions : List Definition}

theorem wellFormed_parse (found : definitions? text.toList = .ok definitions)
    (accepted : (parse text).outcome = .ok ())
    (within : Within (definitions.map Definition.name) definitions) {start : String}
    (inside : start ∈ definitions.map Definition.name) :
    Grammar.WellFormed (parse text).rules start := by
  obtain ⟨l, rules, lowers⟩ := lowers_parse found accepted
  have kept := lowers.kept (kept_start definitions) fun d => List.mem_map_of_mem
  have linked := lowers.linked (List.Subset.refl _) within fun _ _ none => nomatch none
  rw [rules]
  exact kept.tidy.wellFormed linked inside

theorem startFor_parse (found : definitions? text.toList = .ok definitions) :
    (parse text).startFor none = (definitions.map Definition.name).head?.getD "" := by
  unfold parse
  rw [found]
  dsimp only
  split <;> rfl

section Read
variable {rules : List (String × Body)} (read : definitions.map Definition.read? = rules.map some)
include read

theorem spells_of_read {d : Definition} (inside : d ∈ definitions) :
    ∃ rule ∈ rules, d.name = rule.1 ∧ SpellsBody d.body rule.2 := by
  have listed : d.read? ∈ rules.map some := read ▸ List.mem_map_of_mem inside
  obtain ⟨rule, among, same⟩ := List.mem_map.mp listed
  exact ⟨rule, among, Definition.read?_eq_some_iff.mp same.symm⟩

theorem names_of_read : definitions.map Definition.name = rules.map Prod.fst := by
  have each : definitions.map (fun d => d.read?.map Prod.fst) =
      definitions.map (some ∘ Definition.name) := by
    refine List.map_congr_left ?_
    intro d inside
    have listed : d.read? ∈ rules.map some := read ▸ List.mem_map_of_mem inside
    obtain ⟨rule, -, same⟩ := List.mem_map.mp listed
    rw [← same, Function.comp, (Definition.read?_eq_some_iff.mp same.symm).1]
    rfl
  have both := congrArg (List.map (Option.map Prod.fst)) read
  simp only [List.map_map] at both
  refine List.map_injective_iff.mpr (Option.some_injective String) ?_
  rw [List.map_map, List.map_map, ← each]
  exact both

theorem within_of_read
    (closed : ∀ rule ∈ rules, ∀ name ∈ bodyNames rule.2, name ∈ rules.map Prod.fst) :
    Within (definitions.map Definition.name) definitions := by
  intro d inside body spells name used
  obtain ⟨rule, among, -, spells'⟩ := spells_of_read read inside
  rw [spells.unique spells'] at used
  rw [names_of_read read]
  exact closed rule among name used

theorem spelled_le_of_read {env : Environment}
    (holds : ∀ rule ∈ rules, bodyLanguage env rule.2 ≤ env rule.1) (name : String) :
    spelled definitions env name ≤ env name := by
  rintro w ⟨d, inside, rfl, body, spells, word⟩
  obtain ⟨rule, among, named, spells'⟩ := spells_of_read read inside
  rw [spells.unique spells'] at word
  rw [named]
  exact mem_of_le (holds rule among) word

end Read

/-- A text whose definitions can be read and use only names that it defines is built, with the name
that it defines first as the start. What its rules derive lies within all languages that hold what
its bodies say of them. -/
theorem exists_load {rules : List (String × Body)}
    (read : (definitions? text.toList).toOption.map (List.map Definition.read?) =
      some (rules.map some))
    (closed : ∀ rule ∈ rules, ∀ name ∈ bodyNames rule.2, name ∈ rules.map Prod.fst)
    {start : String} (first : (rules.map Prod.fst).head? = some start) :
    ∃ g, (load text none).outcome = .ok g ∧ g.start = start ∧
      ∀ env, (∀ rule ∈ rules, bodyLanguage env rule.2 ≤ env rule.1) →
        ∀ w, g.rules.Derives [.nonterminal g.start] w → w ∈ env g.start := by
  obtain ⟨definitions, found, read⟩ := Option.map_eq_some_iff.mp read
  have found := eq_ok_of_toOption found
  have names := names_of_read read
  have within := within_of_read read closed
  have accepted : (parse text).outcome = .ok () := by
    refine (parse_ok_iff found).mpr ?_
    intro d inside
    obtain ⟨rule, -, -, spells⟩ := spells_of_read read inside
    exact ⟨rule.2, spells⟩
  have inside : start ∈ definitions.map Definition.name := by
    rw [names]
    exact List.mem_of_mem_head? first
  have built := Grammar.build?_eq_ok_iff.mpr ⟨wellFormed_parse found accepted within inside, rfl⟩
  refine ⟨⟨(parse text).rules, start, (Cost.estimate (parse text).rules).table⟩, ?_, rfl, ?_⟩
  · rw [outcome_load accepted, startFor_parse found, names, first, Option.getD_some, built]
    rfl
  · intro env holds w derives
    obtain ⟨l, lowers, lowered⟩ := lowered_parse found accepted within
    have derives : (parse text).rules.Derives [.nonterminal start] w := derives
    rw [lowers] at derives
    exact Rules.derived_le_of_le lowered.expanded_eq
      (fun name _ => spelled_le_of_read read holds name) _ ⟨inside, derives⟩

end Building
end GrammarSampler.GrammarText
