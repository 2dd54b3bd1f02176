import GrammarSampler.Ebnf.Basic
import GrammarSampler.Proofs.Ebnf.Language
import GrammarSampler.Proofs.Grammar.Derivation

/-!
Derivations in which some names stand for languages that are given and only the others are
replaced by their rules. The rules of repeated content then derive what the operators mean.
-/
namespace GrammarSampler.Rules
open Computability Ebnf

inductive DerivesGiven (rules : Rules) (given : List String) (env : Environment) :
    List Symbol → List Char → Prop where
  | nil : DerivesGiven rules given env [] []
  | terminal {rest : List Symbol} {after : List Char} (text : String)
      (tail : DerivesGiven rules given env rest after) :
      DerivesGiven rules given env (.terminal text :: rest) (text.toList ++ after)
  | given {name : String} {rest : List Symbol} {here after : List Char} (inside : name ∈ given)
      (word : here ∈ env name) (tail : DerivesGiven rules given env rest after) :
      DerivesGiven rules given env (.nonterminal name :: rest) (here ++ after)
  | rule {name : String} {alternatives : List Expansion} {e : Expansion} {rest : List Symbol}
      {here after : List Char} (other : name ∉ given)
      (found : rules.get? name = some alternatives) (chosen : e ∈ alternatives)
      (head : DerivesGiven rules given env e.symbols here)
      (tail : DerivesGiven rules given env rest after) :
      DerivesGiven rules given env (.nonterminal name :: rest) (here ++ after)

def languageGiven (rules : Rules) (given : List String) (env : Environment) (symbols : List Symbol) :
    Language Char := {w | DerivesGiven rules given env symbols w}

section
variable {rules : Rules} {given : List String} {env : Environment}

theorem mem_languageGiven {symbols : List Symbol} {w : List Char} :
    w ∈ languageGiven rules given env symbols ↔ DerivesGiven rules given env symbols w := Iff.rfl

theorem DerivesGiven.append {left right : List Symbol} {u v : List Char}
    (first : DerivesGiven rules given env left u) (second : DerivesGiven rules given env right v) :
    DerivesGiven rules given env (left ++ right) (u ++ v) := by
  induction first with
  | nil => exact second
  | terminal text _ ih => simpa using DerivesGiven.terminal text ih
  | given inside word _ ih => simpa using DerivesGiven.given inside word ih
  | rule other found chosen head _ _ ih => simpa using DerivesGiven.rule other found chosen head ih

theorem DerivesGiven.split {left right : List Symbol} {w : List Char}
    (whole : DerivesGiven rules given env (left ++ right) w) :
    ∃ u, DerivesGiven rules given env left u ∧ ∃ v, DerivesGiven rules given env right v ∧
      u ++ v = w := by
  induction left generalizing w with
  | nil => exact ⟨[], .nil, w, whole, rfl⟩
  | cons symbol rest ih =>
    cases whole with
    | terminal text tail =>
      obtain ⟨u, first, v, second, rfl⟩ := ih tail
      exact ⟨_, .terminal text first, v, second, by simp⟩
    | given inside word tail =>
      obtain ⟨u, first, v, second, rfl⟩ := ih tail
      exact ⟨_, .given inside word first, v, second, by simp⟩
    | rule other found chosen head tail =>
      obtain ⟨u, first, v, second, rfl⟩ := ih tail
      exact ⟨_, .rule other found chosen head first, v, second, by simp⟩

theorem languageGiven_nil : languageGiven rules given env [] = 1 := by
  ext w
  rw [mem_languageGiven, Language.mem_one]
  constructor
  · intro h
    cases h
    rfl
  · rintro rfl
    exact .nil

theorem languageGiven_append (left right : List Symbol) :
    languageGiven rules given env (left ++ right) =
      languageGiven rules given env left * languageGiven rules given env right := by
  ext w
  rw [Language.mem_mul]
  constructor
  · exact DerivesGiven.split
  · rintro ⟨u, first, v, second, rfl⟩
    exact first.append second

theorem languageGiven_terminal (text : String) :
    languageGiven rules given env [.terminal text] = {text.toList} := by
  ext w
  rw [mem_languageGiven]
  constructor
  · intro h
    cases h with
    | terminal text tail =>
      cases tail
      rw [List.append_nil]
      exact Set.mem_singleton _
  · intro same
    rw [Set.mem_singleton_iff.mp same, ← List.append_nil text.toList]
    exact .terminal text .nil

theorem languageGiven_given {name : String} (inside : name ∈ given) :
    languageGiven rules given env [.nonterminal name] = env name := by
  ext w
  rw [mem_languageGiven]
  constructor
  · intro h
    cases h with
    | given _ word tail =>
      cases tail
      rwa [List.append_nil]
    | rule other => exact absurd inside other
  · intro word
    rw [← List.append_nil w]
    exact .given inside word .nil

theorem mem_languageGiven_rule {name : String} {alternatives : List Expansion} {w : List Char}
    (other : name ∉ given) (found : rules.get? name = some alternatives) :
    w ∈ languageGiven rules given env [.nonterminal name] ↔
      ∃ e ∈ alternatives, w ∈ languageGiven rules given env e.symbols := by
  constructor
  · intro h
    cases h with
    | given inside => exact absurd inside other
    | rule _ found' chosen head tail =>
      rw [found, Option.some.injEq] at found'
      subst found'
      cases tail
      rw [List.append_nil]
      exact ⟨_, chosen, head⟩
  · rintro ⟨e, chosen, head⟩
    rw [← List.append_nil w]
    exact .rule other found chosen head .nil

section Repetition
variable {name : String} {base content : List Symbol}

/-- A derivation that ends with a name for repeated content is one of contents and a base. -/
theorem DerivesGiven.repeated (other : name ∉ given) (found : rules.get? name =
      some [.unweighted base, .unweighted (content ++ [.nonterminal name])])
    {symbols : List Symbol} {w : List Char} (h : DerivesGiven rules given env symbols w) :
    ∀ before, symbols = before ++ [.nonterminal name] → w ∈ languageGiven rules given env before *
      ((languageGiven rules given env content)∗ * languageGiven rules given env base) := by
  -- The rule puts the name last again, so `before` is left free for the induction.
  induction h with
  | nil =>
    intro before same
    simp at same
  | terminal text tail ih =>
    intro before same
    cases before with
    | nil => cases same
    | cons first before =>
      cases same
      obtain ⟨u, left, v, right, rfl⟩ := ih before rfl
      exact ⟨_, .terminal text left, v, right, List.append_assoc _ _ _⟩
  | given inside word tail ih =>
    intro before same
    cases before with
    | nil =>
      cases same
      exact absurd inside other
    | cons first before =>
      cases same
      obtain ⟨u, left, v, right, rfl⟩ := ih before rfl
      exact ⟨_, .given inside word left, v, right, List.append_assoc _ _ _⟩
  | rule other' found' chosen head tail ihHead ihTail =>
    intro before same
    cases before with
    | nil =>
      cases same
      cases tail
      rw [found, Option.some.injEq] at found'
      subst found'
      rw [List.append_nil, languageGiven_nil, one_mul]
      rcases List.mem_cons.mp chosen with rfl | second
      · exact ⟨[], Language.nil_mem_kstar _, _, head, rfl⟩
      · rw [List.mem_singleton.mp second] at ihHead
        have more := ihHead content rfl
        rw [← mul_assoc] at more
        exact mem_of_le (mul_le_mul_left mul_kstar_le_kstar _) more
    | cons first before =>
      cases same
      obtain ⟨u, left, v, right, rfl⟩ := ihTail before rfl
      exact ⟨_, .rule other' found' chosen head left, v, right, List.append_assoc _ _ _⟩

theorem languageGiven_repeated (other : name ∉ given) (found : rules.get? name =
      some [.unweighted base, .unweighted (content ++ [.nonterminal name])]) :
    languageGiven rules given env [.nonterminal name] =
      (languageGiven rules given env content)∗ * languageGiven rules given env base := by
  apply le_antisymm
  · intro w h
    have parts := DerivesGiven.repeated other found h [] rfl
    rwa [languageGiven_nil, one_mul] at parts
  · apply kstar_mul_le
    · intro w h
      exact (mem_languageGiven_rule other found).mpr ⟨_, List.mem_cons_self, h⟩
    · rw [← languageGiven_append]
      intro w h
      exact (mem_languageGiven_rule other found).mpr
        ⟨_, List.mem_cons_of_mem _ (List.mem_singleton_self _), h⟩

theorem languageGiven_times (other : name ∉ given) {times : Times}
    (found : rules.get? name = some (times.expansions name content)) :
    languageGiven rules given env [.nonterminal name] =
      times.language (languageGiven rules given env content) := by
  cases times with
  | optional =>
    ext w
    rw [mem_languageGiven_rule other found]
    change _ ↔ w ∈ 1 + languageGiven rules given env content
    rw [Language.mem_add, ← languageGiven_nil]
    constructor
    · rintro ⟨e, chosen, word⟩
      rcases List.mem_cons.mp chosen with rfl | second
      · exact .inl word
      · rw [List.mem_singleton.mp second] at word
        exact .inr word
    · rintro (empty | word)
      · exact ⟨_, List.mem_cons_self, empty⟩
      · exact ⟨_, List.mem_cons_of_mem _ (List.mem_singleton_self _), word⟩
  | star => rw [languageGiven_repeated other found, languageGiven_nil, mul_one]; rfl
  | plus => rw [languageGiven_repeated other found, Language.mul_self_kstar_comm]; rfl

end Repetition

/-- Languages that hold what the rules of the given names derive over them are large enough to
stand for all that these names derive. -/
theorem Derives.derivesGiven (holds : ∀ name ∈ given, ∀ alternatives, rules.get? name =
      some alternatives → ∀ e ∈ alternatives, rules.languageGiven given env e.symbols ≤ env name)
    {symbols : List Symbol} {w : List Char} (h : rules.Derives symbols w) :
    DerivesGiven rules given env symbols w := by
  induction h with
  | nil => exact .nil
  | terminal text _ ih => exact .terminal text ih
  | @nonterminal name alternatives e _ _ _ rule chosen _ _ ihHead ihTail =>
    by_cases inside : name ∈ given
    · exact .given inside (mem_of_le (holds name inside alternatives rule e chosen) ihHead) ihTail
    · exact .rule inside rule chosen ihHead ihTail

end

def derived (rules : Rules) (given : List String) : Environment :=
  fun name => {w | name ∈ given ∧ rules.Derives [.nonterminal name] w}

theorem mem_derived {rules : Rules} {given : List String} {name : String} {w : List Char} :
    w ∈ derived rules given name ↔ name ∈ given ∧ rules.Derives [.nonterminal name] w := Iff.rfl

theorem derivesGiven_derived_iff {rules : Rules} {given : List String} {symbols : List Symbol}
    {w : List Char} :
    DerivesGiven rules given (derived rules given) symbols w ↔ rules.Derives symbols w := by
  constructor
  · intro h
    induction h with
    | nil => exact .nil
    | terminal text _ ih => exact .terminal text ih
    | given _ word _ ih => exact word.2.append ih
    | rule _ found chosen _ _ ihHead ihTail => exact .nonterminal found chosen ihHead ihTail
  · intro h
    induction h with
    | nil => exact .nil
    | terminal text _ ih => exact .terminal text ih
    | @nonterminal name _ _ _ _ _ rule chosen head _ ihHead ihTail =>
      by_cases inside : name ∈ given
      · have whole := derives_nonterminal_iff.mpr ⟨_, rule, _, chosen, head⟩
        exact .given inside ⟨inside, whole⟩ ihTail
      · exact .rule inside rule chosen ihHead ihTail

theorem exists_extend_self {rules : Rules} {name : String} {alternatives : List Expansion}
    {holds : Expansion → Prop} :
    (∃ e ∈ ((rules.extend name alternatives).get? name).getD [], holds e) ↔
      (∃ e ∈ (rules.get? name).getD [], holds e) ∨ ∃ e ∈ alternatives, holds e := by
  simp [Rules.extend, Entries.get?_put_self, or_and_right, exists_or]

theorem get?_extend_other {rules : Rules} {name other : String} (alternatives : List Expansion)
    (apart : name ≠ other) : (rules.extend name alternatives).get? other = rules.get? other :=
  Entries.get?_put_other _ _ apart

section Least
variable {rules : Rules} {given : List String} {means : Environment → Environment}

def expanded (rules : Rules) (given : List String) (env : Environment) (made : Rules) :
    Environment :=
  fun name => {w | ∃ e ∈ (made.get? name).getD [], w ∈ rules.languageGiven given env e.symbols}

theorem mem_expanded {env : Environment} {made : Rules} {name : String} {w : List Char} :
    w ∈ rules.expanded given env made name ↔ ∃ alternatives, made.get? name = some alternatives ∧
      ∃ e ∈ alternatives, w ∈ rules.languageGiven given env e.symbols := by
  change (∃ e ∈ (made.get? name).getD [], _) ↔ _
  cases made.get? name with
  | none => simp
  | some alternatives => simp

theorem expanded_eq_zero {env : Environment} {made : Rules} {name : String}
    (unruled : made.get? name = none) : rules.expanded given env made name = 0 := by
  refine eq_zero_of_notMem ?_
  intro w inside
  obtain ⟨alternatives, found, -⟩ := mem_expanded.mp inside
  rw [unruled] at found
  cases found

theorem expanded_self {env : Environment} {name : String} (other : name ∉ given) :
    rules.expanded given env rules name = rules.languageGiven given env [.nonterminal name] := by
  ext w
  rw [mem_expanded]
  constructor
  · rintro ⟨alternatives, found, chosen⟩
    exact (mem_languageGiven_rule other found).mpr chosen
  · intro derives
    cases derives with
    | given inside => exact absurd inside other
    | rule _ found chosen head tail =>
      cases tail
      rw [List.append_nil]
      exact ⟨_, found, _, chosen, head⟩

theorem derived_solves
    (words : ∀ env, ∀ name ∈ given, rules.expanded given env rules name = means env name)
    (outside : ∀ env, ∀ name ∉ given, means env name = 0) (name : String) :
    rules.derived given name = means (rules.derived given) name := by
  ext w
  rw [mem_derived]
  by_cases inside : name ∈ given
  · rw [← words _ name inside, mem_expanded, derives_nonterminal_iff]
    simp only [mem_languageGiven, derivesGiven_derived_iff]
    exact ⟨fun both => both.2, fun derives => ⟨inside, derives⟩⟩
  · rw [outside _ name inside]
    exact ⟨fun both => absurd both.1 inside, fun none => absurd none (Language.notMem_zero w)⟩

theorem derived_le_of_le
    (words : ∀ env, ∀ name ∈ given, rules.expanded given env rules name = means env name)
    {env : Environment} (holds : ∀ name ∈ given, means env name ≤ env name) :
    rules.derived given ≤ env := by
  intro name w both
  obtain ⟨inside, derives⟩ := both
  have word : w ∈ rules.languageGiven given env [.nonterminal name] := by
    refine derives.derivesGiven ?_
    intro other known alternatives found e chosen v here
    refine mem_of_le (holds other known) ?_
    rw [← words env other known]
    exact mem_expanded.mpr ⟨alternatives, found, e, chosen, here⟩
  rwa [languageGiven_given inside] at word

theorem derived_le
    (words : ∀ env, ∀ name ∈ given, rules.expanded given env rules name = means env name)
    {env : Environment} (solves : ∀ name, env name = means env name) :
    rules.derived given ≤ env :=
  derived_le_of_le words fun name _ => le_of_eq (solves name).symm

end Least
end GrammarSampler.Rules
