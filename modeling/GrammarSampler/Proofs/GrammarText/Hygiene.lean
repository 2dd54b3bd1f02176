import GrammarSampler.Proofs.Ebnf.References
import GrammarSampler.Proofs.GrammarText.Language

/-!
Names that a grammar text uses but does not define. The rules that are made for its constructs have
names of their own, and these are told exactly: a name that is none of them stays undefined, so that
no grammar is built.
-/
namespace GrammarSampler.GrammarText
open Ebnf

def Definition.extraRules (d : Definition) : Nat :=
  match Ebnf.read d.body with
  | .done body _ => bodyRules body
  | .failed _ _ => 0

/-- How many rules the bodies of a name need together. -/
def constructs (definitions : List Definition) (name : String) : Nat :=
  ((definitions.filter fun d => d.name = name).map Definition.extraRules).sum

def hints (definitions : List Definition) : List String :=
  definitions.flatMap fun d => List.replicate d.extraRules d.name

theorem count_hints (definitions : List Definition) (name : String) :
    (hints definitions).count name = constructs definitions name := by
  induction definitions with
  | nil => rfl
  | cons d rest ih =>
    have head : hints (d :: rest) = List.replicate d.extraRules d.name ++ hints rest := rfl
    rw [head, List.count_append, ih, List.count_replicate]
    by_cases same : d.name = name <;> simp [constructs, same]

structure Counted (given : List String) (done : List Definition) (l : Lowering) : Prop where
  taken : l.taken = (Fresh.names given (hints done)).2
  keys : ∀ name ∉ given, name ∈ l.rules.keys ↔ name ∈ l.taken
  inside : given ⊆ l.taken
  mentions : ∀ d ∈ done, ∀ name ∈ referredNames d.body, l.rules.Mentions name

namespace Counted
variable {given : List String} {done rest : List Definition} {l l' : Lowering}

theorem start (given : List String) : Counted given [] ⟨given, []⟩ := by
  refine ⟨rfl, ?_, List.Subset.refl given, nofun⟩
  intro name free
  constructor
  · intro none
    cases none
  · intro inside
    exact absurd inside free

theorem ruled (counted : Counted given done l) : l.Ruled := by
  intro name inside
  by_cases known : name ∈ given
  · exact counted.inside known
  · exact (counted.keys name known).mp inside

theorem define {d : Definition} {body : Body} (counted : Counted given done l)
    (named : d.name ∈ given) (spells : SpellsBody d.body body) :
    Counted given (done ++ [d]) (d.lower body l) := by
  have read := read_eq_done_iff.mpr ⟨rfl, spells⟩
  have made := made_lowerBody d.name l body
  have extra : d.extraRules = bodyRules body := by rw [Definition.extraRules, read]
  have refers : referredNames d.body = bodyNames body := by rw [referredNames, read]
  refine ⟨?_, ?_, ?_, ?_⟩
  · have hinted : hints (done ++ [d]) = hints done ++ List.replicate (bodyRules body) d.name := by
      simp [hints, extra]
    rw [hinted, Fresh.names_append, ← counted.taken]
    exact made.taken_eq
  · intro name free
    refine Iff.trans ?_ (made.keys_iff counted.keys name free)
    apply Entries.mem_keys_put.trans
    apply or_iff_right
    rintro rfl
    exact free named
  · exact List.Subset.trans counted.inside (extends_lowerBody d.name l body).taken
  · intro other inside name used
    rcases List.mem_append.mp inside with before | last
    · exact (made.mentions counted.ruled (counted.mentions other before name used)).extend
    · rw [List.mem_singleton.mp last, refers] at used
      rcases mentions_lowerBody d.name l body counted.ruled used with
        ⟨symbols, among, mentioned⟩ | kept
      · exact Rules.mentions_extend_self (List.mem_map_of_mem among)
          (Expansion.mem_references.mpr mentioned)
      · exact kept.extend

theorem of_lowers (lowers : Lowers rest l l') (counted : Counted given done l)
    (named : ∀ d ∈ rest, d.name ∈ given) : Counted given (done ++ rest) l' := by
  induction lowers generalizing done with
  | nil =>
    rw [List.append_nil]
    exact counted
  | cons spells _ ih =>
    obtain ⟨here, later⟩ := List.forall_mem_cons.mp named
    rw [List.append_cons]
    exact ih (counted.define here spells) later

/-- A name that is not given has a rule if it is one of those made up. -/
theorem mem_keys {definitions : List Definition}
    (counted : Counted (definitions.map Definition.name) definitions l) {name : String}
    (undefined : name ∉ definitions.map Definition.name) :
    name ∈ l.rules.keys ↔ ∃ d ∈ definitions, ∃ k, name = Fresh.candidate d.name k ∧
      Fresh.freeBefore (definitions.map Definition.name) d.name k < constructs definitions d.name := by
  have known : ∀ hint ∈ hints definitions, hint ∈ definitions.map Definition.name := by
    intro hint inside
    obtain ⟨d, among, copy⟩ := List.mem_flatMap.mp inside
    rw [List.eq_of_mem_replicate copy]
    exact List.mem_map_of_mem among
  rw [counted.keys name undefined, counted.taken, Fresh.mem_names known]
  constructor
  · rintro (inside | ⟨hint, k, same, -, below⟩)
    · exact absurd inside undefined
    · have used : hint ∈ hints definitions := List.count_pos_iff.mp (by omega)
      obtain ⟨d, among, own⟩ := List.mem_map.mp (known hint used)
      rw [count_hints, ← own] at below
      exact ⟨d, among, k, own ▸ same, below⟩
  · rintro ⟨d, -, k, same, below⟩
    rw [← count_hints] at below
    exact .inr ⟨d.name, k, same, undefined, below⟩

end Counted

section Hygiene
variable {text : String} {definitions : List Definition}

theorem counted_parse (found : definitions? text.toList = .ok definitions)
    (accepted : (parse text).outcome = .ok ()) :
    ∃ l, (parse text).rules = l.rules ∧ Counted (definitions.map Definition.name) definitions l := by
  obtain ⟨l, rules, lowers⟩ := lowers_parse found accepted
  exact ⟨l, rules, .of_lowers lowers (.start _) fun d => List.mem_map_of_mem⟩

theorem exists_definitions (accepted : (parse text).outcome = .ok ()) :
    ∃ definitions, definitions? text.toList = .ok definitions := by
  cases found : definitions? text.toList with
  | ok definitions => exact ⟨definitions, rfl⟩
  | error fault =>
    unfold parse at accepted
    rw [found] at accepted
    cases accepted

/-- A name that an accepted text uses and does not define is bound by a rule made for a construct
exactly if it is a name that the text defines with a number behind it, and fewer free numbers come
before than there are constructs in the bodies of that name. Otherwise no grammar is built. -/
theorem parse_undefined (accepted : (parse text).outcome = .ok ()) :
    ∃ definitions, definitions? text.toList = .ok definitions ∧
      ∀ d ∈ definitions, ∀ name ∈ referredNames d.body, name ∉ definitions.map Definition.name →
        (name ∈ (parse text).rules.keys ↔
          ∃ own ∈ definitions, ∃ k, name = Fresh.candidate own.name k ∧
            Fresh.freeBefore (definitions.map Definition.name) own.name k <
              constructs definitions own.name) ∧
        (name ∉ (parse text).rules.keys →
          ∀ start, ∃ fault, Grammar.build? (parse text).rules start = .error fault) := by
  obtain ⟨definitions, found⟩ := exists_definitions accepted
  refine ⟨definitions, found, ?_⟩
  intro d inside name refers undefined
  obtain ⟨l, same, counted⟩ := counted_parse found accepted
  rw [same]
  constructor
  · exact counted.mem_keys undefined
  · intro absent start
    exact (counted.mentions d inside name refers).build?_eq_error absent start

end Hygiene
end GrammarSampler.GrammarText
