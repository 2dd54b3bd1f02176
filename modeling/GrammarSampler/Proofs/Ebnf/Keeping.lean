import GrammarSampler.Proofs.Ebnf.Numbering

/-!
Rules that are made up beside the rules of defined names. Both are written into the same rules, in any
order; since each name made up is fresh, neither gets in the way of the other.
-/
namespace GrammarSampler

/-- The rules of the defined names and of names made up beside these, each listed once. What is made
up has no weights. -/
structure Rules.Keeps (rules : Rules) (defined made : List String) : Prop where
  distinct : rules.Distinct
  once : made.Nodup
  apart : ∀ name ∈ made, name ∉ defined
  keys : ∀ name, name ∈ rules.keys ↔ name ∈ defined ∨ name ∈ made
  plain : ∀ name ∈ made, ∀ alternatives, rules.get? name = some alternatives →
    ∀ e ∈ alternatives, e.weight = none

theorem Rules.getD_extend_self (rules : Rules) (name : String) (alternatives : List Expansion) :
    (Entries.get? name (rules.extend name alternatives)).getD [] =
      (rules.get? name).getD [] ++ alternatives := by
  rw [extend, Entries.get?_put_self, Option.getD_some]

namespace Ebnf

/-- What holds while rules are written: names made up are new, what they get has no weights, and every
name in use has a rule or waits for one. -/
structure Tidy (given waiting : List String) (l : Lowering) : Prop where
  made : ∃ made, l.taken = made ++ given ∧ made.Nodup ∧ ∀ name ∈ made, name ∉ given
  ruled : ∀ name ∈ l.rules.keys, name ∈ l.taken
  distinct : l.rules.Distinct
  plain : ∀ name ∉ given, ∀ alternatives, l.rules.get? name = some alternatives →
    ∀ e ∈ alternatives, e.weight = none
  covered : ∀ name ∈ l.taken, name ∈ l.rules.keys ∨ name ∈ waiting

namespace Tidy
variable {given waiting waiting' : List String} {l l' : Lowering} {hint name : String}
variable {alternatives : List Expansion}

theorem start (given : List String) : Tidy given given ⟨given, []⟩ where
  made := ⟨[], rfl, List.nodup_nil, by simp⟩
  ruled := by simp [Entries.keys]
  distinct := List.nodup_nil
  plain := by simp [Entries.get?]
  covered _ inside := .inr inside

theorem inside (tidy : Tidy given waiting l) : given ⊆ l.taken := by
  obtain ⟨made, parts, -⟩ := tidy.made
  rw [parts]
  exact List.subset_append_right made given

theorem fresh_notMem (tidy : Tidy given waiting l) (hint : String) :
    Fresh.name l.taken hint ∉ given :=
  fun known => Fresh.name_notMem l.taken hint (tidy.inside known)

theorem take (tidy : Tidy given waiting l) (hint : String) :
    Tidy given (waiting ++ [Fresh.name l.taken hint])
      ⟨Fresh.name l.taken hint :: l.taken, l.rules⟩ where
  made := by
    obtain ⟨made, parts, once, apart⟩ := tidy.made
    have kept : ∀ name ∈ made, name ∈ l.taken :=
      fun name old => parts.symm ▸ List.mem_append_left given old
    refine ⟨Fresh.name l.taken hint :: made, by rw [parts, List.cons_append], ?_, ?_⟩
    · exact List.nodup_cons.mpr ⟨fun old => Fresh.name_notMem l.taken hint (kept _ old), once⟩
    · exact List.forall_mem_cons.mpr ⟨tidy.fresh_notMem hint, apart⟩
  ruled name inside := List.mem_cons_of_mem _ (tidy.ruled name inside)
  distinct := tidy.distinct
  plain := tidy.plain
  covered name inside := by
    rw [List.mem_append, List.mem_singleton]
    rcases List.mem_cons.mp inside with same | old
    · exact .inr (.inr same)
    · exact (tidy.covered name old).imp_right .inl

theorem put (tidy : Tidy given waiting l) (known : name ∈ l.taken)
    (plain : name ∉ given → ∀ e ∈ alternatives, e.weight = none)
    (others : ∀ other ∈ waiting, other = name ∨ other ∈ waiting') :
    Tidy given waiting' ⟨l.taken, l.rules.put name alternatives⟩ where
  made := tidy.made
  ruled other inside := by
    rcases Entries.mem_keys_put.mp inside with rfl | old
    · exact known
    · exact tidy.ruled other old
  distinct := Entries.distinct_put name alternatives tidy.distinct
  plain other free new found := by
    rcases Entries.get?_put_eq_some_iff.mp found with ⟨rfl, rfl⟩ | ⟨-, old⟩
    · exact plain free
    · exact tidy.plain other free new old
  covered other inside := by
    rcases tidy.covered other inside with ruled | waits
    · exact .inl (Entries.mem_keys_put.mpr (.inr ruled))
    · exact (others other waits).imp_left fun same => Entries.mem_keys_put.mpr (.inl same)

theorem define (tidy : Tidy given waiting l) (hint : String) {made : String → List Expansion}
    (plain : ∀ name, ∀ e ∈ made name, e.weight = none) :
    Tidy given waiting (l.define hint made).2 := by
  refine (tidy.take hint).put List.mem_cons_self (fun _ => plain _) ?_
  intro other waits
  rcases List.mem_append.mp waits with old | new
  · exact .inr old
  · exact .inl (List.mem_singleton.mp new)

theorem extend (tidy : Tidy given waiting l) (known : name ∈ l.taken)
    (plain : name ∉ given → ∀ e ∈ alternatives, e.weight = none)
    (others : ∀ other ∈ waiting, other = name ∨ other ∈ waiting') :
    Tidy given waiting' ⟨l.taken, l.rules.extend name alternatives⟩ := by
  refine tidy.put known ?_ others
  intro free e chosen
  rcases Rules.mem_extended chosen with ⟨before, found, old⟩ | new
  · exact tidy.plain name free before found e old
  · exact plain free e new

theorem of_made {n : Nat} (made : Made hint l n l') (tidy : Tidy given waiting l) :
    Tidy given waiting l' := by
  induction made with
  | nothing => exact tidy
  | rule _ _ plain ih => exact ih.define hint plain

theorem keeps (tidy : Tidy given [] l) : ∃ made, l.rules.Keeps given made := by
  obtain ⟨made, parts, once, apart⟩ := tidy.made
  refine ⟨made, tidy.distinct, once, apart, ?_, fun name inside => tidy.plain name (apart name inside)⟩
  intro name
  rw [or_comm, ← List.mem_append, ← parts]
  constructor
  · exact tidy.ruled name
  · intro inside
    exact (tidy.covered name inside).resolve_right List.not_mem_nil

end Tidy
end Ebnf
end GrammarSampler
