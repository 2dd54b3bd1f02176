import GrammarSampler.Grammar.Reachable
import Mathlib.Data.List.Chain

/-!
The names that chains of references lead to. The search goes on until nothing waits: every reference
joins its frontier at most once, so that it does not run out of steps. What it has found then are
exactly these names.
-/
namespace GrammarSampler.Rules
variable {rules : Rules} {start name used : String} {seen frontier : List String}

/-- Chains of references lead from the start to a name. -/
inductive Reaches (rules : Rules) (start : String) : String → Prop where
  | start : Reaches rules start start
  | step {name used : String} (before : Reaches rules start name)
      (next : used ∈ rules.successors name) : Reaches rules start used

theorem mem_successors {alternatives : List Expansion} (found : rules.get? name = some alternatives) :
    used ∈ rules.successors name ↔ ∃ e ∈ alternatives, used ∈ e.references := by
  simp [successors, found, references]

def unseen (rules : Rules) (seen : List String) : Rules := rules.filter fun rule => rule.1 ∉ seen

theorem unseen_cons (key : String) (alternatives : List Expansion) (rest : Rules) :
    unseen ((key, alternatives) :: rest) seen =
      if key ∈ seen then unseen rest seen else (key, alternatives) :: unseen rest seen := by
  by_cases old : key ∈ seen <;> simp [unseen, old]

theorem unseen_visit (absent : name ∉ rules.keys) :
    rules.unseen (name :: seen) = rules.unseen seen := by
  apply List.filter_congr
  intro rule inside
  have apart : rule.1 ≠ name := by
    rintro rfl
    exact absent (List.mem_map_of_mem inside)
  simp [apart]

theorem length_allReferences_unseen (distinct : rules.Distinct) (new : name ∉ seen) :
    (rules.unseen seen).allReferences.length =
      (rules.successors name).length + (rules.unseen (name :: seen)).allReferences.length := by
  induction rules with
  | nil => rfl
  | cons rule rest ih =>
    obtain ⟨key, alternatives⟩ := rule
    obtain ⟨first, later⟩ := List.nodup_cons.mp distinct
    rw [unseen_cons, unseen_cons]
    by_cases here : key = name
    · subst here
      have own : successors ((key, alternatives) :: rest) key = references alternatives := by
        simp [successors, Entries.get?]
      rw [if_neg new, if_pos List.mem_cons_self, own, unseen_visit first]
      simp [allReferences]
    · have own : successors ((key, alternatives) :: rest) name = successors rest name := by
        simp [successors, Entries.get?, here]
      rw [own]
      by_cases old : key ∈ seen
      · rw [if_pos old, if_pos (List.mem_cons_of_mem name old)]
        exact ih later
      · rw [if_neg old, if_neg (by simp [here, old])]
        have rest_eq := ih later
        simp only [allReferences, List.flatMap_cons, List.length_append] at rest_eq ⊢
        omega

/-- What a search has found is reached, and what it has visited leads only to what it has found. -/
structure Search (rules : Rules) (start : String) (seen frontier : List String) : Prop where
  root : start ∈ seen ∨ start ∈ frontier
  visited : ∀ name ∈ seen, rules.Reaches start name
  waiting : ∀ name ∈ frontier, rules.Reaches start name
  closed : ∀ name ∈ seen, ∀ used ∈ rules.successors name, used ∈ seen ∨ used ∈ frontier

namespace Search

theorem skip (search : Search rules start seen (name :: frontier)) (old : name ∈ seen) :
    Search rules start seen frontier := by
  have found : ∀ {used}, used ∈ seen ∨ used ∈ name :: frontier → used ∈ seen ∨ used ∈ frontier := by
    rintro used (inside | inside)
    · exact .inl inside
    · rcases List.mem_cons.mp inside with rfl | later
      · exact .inl old
      · exact .inr later
  exact ⟨found search.root, search.visited, fun other later =>
    search.waiting other (List.mem_cons_of_mem name later),
    fun other inside used next => found (search.closed other inside used next)⟩

theorem visit (search : Search rules start seen (name :: frontier)) :
    Search rules start (name :: seen) ((rules.successors name).reverse ++ frontier) := by
  have reached := search.waiting name List.mem_cons_self
  have found : ∀ {used}, used ∈ seen ∨ used ∈ name :: frontier →
      used ∈ name :: seen ∨ used ∈ (rules.successors name).reverse ++ frontier := by
    rintro used (inside | inside)
    · exact .inl (List.mem_cons_of_mem name inside)
    · rcases List.mem_cons.mp inside with rfl | later
      · exact .inl List.mem_cons_self
      · exact .inr (List.mem_append_right _ later)
  refine ⟨found search.root, ?_, ?_, ?_⟩
  · intro other inside
    rcases List.mem_cons.mp inside with rfl | old
    · exact reached
    · exact search.visited other old
  · intro other inside
    rcases List.mem_append.mp inside with new | later
    · exact .step reached (List.mem_reverse.mp new)
    · exact search.waiting other (List.mem_cons_of_mem name later)
  · intro other inside used next
    rcases List.mem_cons.mp inside with rfl | old
    · exact .inr (List.mem_append_left _ (List.mem_reverse.mpr next))
    · exact found (search.closed other old used next)

theorem mem_iff (search : Search rules start seen []) : name ∈ seen ↔ rules.Reaches start name := by
  constructor
  · exact search.visited name
  · intro reached
    induction reached with
    | start => simpa using search.root
    | step _ next ih => simpa using search.closed _ ih _ next

end Search

/-- A search from what has been seen and what waits, up to where nothing waits any more. -/
inductive Visits (rules : Rules) : List String → List String → List String → Prop where
  | done {seen : List String} : Visits rules seen [] seen
  | skip {name : String} {seen frontier found : List String} (old : name ∈ seen)
      (rest : Visits rules seen frontier found) : Visits rules seen (name :: frontier) found
  | visit {name : String} {seen frontier found : List String} (new : name ∉ seen)
      (rest : Visits rules (name :: seen) ((rules.successors name).reverse ++ frontier) found) :
      Visits rules seen (name :: frontier) found

namespace Visits
variable {found other : List String}

theorem of_visit (distinct : rules.Distinct) {fuel : Nat}
    (enough : frontier.length + (rules.unseen seen).allReferences.length < fuel) :
    rules.Visits seen frontier (rules.visit fuel seen frontier) := by
  induction fuel generalizing seen frontier with
  | zero => omega
  | succ fuel ih =>
    cases frontier with
    | nil => exact .done
    | cons next frontier =>
      rw [List.length_cons] at enough
      by_cases old : next ∈ seen
      · rw [Rules.visit, if_pos old]
        exact .skip old (ih (by omega))
      · rw [Rules.visit, if_neg old]
        have fewer := length_allReferences_unseen distinct old
        refine .visit old (ih ?_)
        rw [List.length_append, List.length_reverse]
        omega

theorem unique (visits : rules.Visits seen frontier found) (again : rules.Visits seen frontier other) :
    found = other := by
  induction visits with
  | done =>
    cases again
    rfl
  | skip old _ ih =>
    cases again with
    | skip _ rest => exact ih rest
    | visit new _ => exact absurd old new
  | visit new _ ih =>
    cases again with
    | skip old _ => exact absurd old new
    | visit _ rest => exact ih rest

theorem nodup (visits : rules.Visits seen frontier found) (distinct : seen.Nodup) : found.Nodup := by
  induction visits with
  | done => exact distinct
  | skip _ _ ih => exact ih distinct
  | visit new _ ih => exact ih (List.nodup_cons.mpr ⟨new, distinct⟩)

theorem mem_iff (visits : rules.Visits seen frontier found) (search : Search rules start seen frontier) :
    name ∈ found ↔ rules.Reaches start name := by
  induction visits with
  | done => exact search.mem_iff
  | skip old _ ih => exact ih (search.skip old)
  | visit _ _ ih => exact ih search.visit

end Visits

theorem visits_reachable (distinct : rules.Distinct) (start : String) :
    rules.Visits [] [start] (rules.reachable start) := by
  apply Visits.of_visit distinct
  have all : rules.unseen [] = rules := by simp [unseen]
  rw [all, List.length_singleton]
  omega

theorem mem_reachable (distinct : rules.Distinct) :
    name ∈ rules.reachable start ↔ rules.Reaches start name := by
  have first : Search rules start [] [start] := by
    refine ⟨.inr (List.mem_singleton_self start), ?_, ?_, ?_⟩
    · exact fun other inside => absurd inside List.not_mem_nil
    · intro other inside
      rw [List.mem_singleton.mp inside]
      exact .start
    · exact fun other inside => absurd inside List.not_mem_nil
  exact (visits_reachable distinct start).mem_iff first

def Refers (rules : Rules) (name used : String) : Prop :=
  ∃ alternatives, rules.get? name = some alternatives ∧ ∃ e ∈ alternatives, used ∈ e.references

/-- A chain of names, each of which refers to the next one, leads from the first name to the last. -/
def Leads (rules : Rules) (first last : String) : Prop :=
  ∃ chain : List String, (first :: chain).IsChain rules.Refers ∧ (first :: chain).getLast? = some last

theorem mem_successors_iff : used ∈ rules.successors name ↔ rules.Refers name used := by
  cases found : rules.get? name with
  | none => simp [Refers, successors, found, references]
  | some alternatives => simp [Refers, mem_successors found, found]

theorem Reaches.cons {middle : String} (first : rules.Refers start middle)
    (later : rules.Reaches middle name) : rules.Reaches start name := by
  induction later with
  | start => exact .step .start (mem_successors_iff.mpr first)
  | step _ next ih => exact .step ih next

theorem reaches_iff_leads : rules.Reaches start name ↔ rules.Leads start name := by
  constructor
  · intro reached
    induction reached with
    | start => exact ⟨[], .singleton start, rfl⟩
    | @step before used _ next ih =>
      obtain ⟨chain, linked, last⟩ := ih
      refine ⟨chain ++ [used], ?_, by rw [← List.cons_append, List.getLast?_concat]⟩
      rw [← List.cons_append, List.isChain_append]
      refine ⟨linked, .singleton used, ?_⟩
      rw [last]
      rintro _ ⟨⟩ _ ⟨⟩
      exact mem_successors_iff.mp next
  · rintro ⟨chain, linked, last⟩
    induction chain generalizing start with
    | nil =>
      cases last
      exact .start
    | cons middle chain ih =>
      obtain ⟨first, later⟩ := List.isChain_cons_cons.mp linked
      rw [List.getLast?_cons_cons] at last
      exact (ih later last).cons first

end GrammarSampler.Rules
