import GrammarSampler.Proofs.Dictionary.Ending
import GrammarSampler.Proofs.Dictionary.Hygiene
import GrammarSampler.Proofs.Grammar.Reaches

/-!
Names that stay whole in a text. The parentheses of a name may be taken for those of a group, and then
its brackets are torn apart. A name stays whole if no operator stands right behind a closing bracket
in it and its last parenthesis, if it has any, is a closing one. In a text that is read, a whole name
is a symbol and never a part of the literal text.
-/
namespace GrammarSampler

namespace Rules
variable {rules : Rules} {name used : String}

theorem mem_keys_of_successor (next : used ∈ rules.successors name) : name ∈ rules.keys := by
  rw [← Entries.get?_isSome_iff]
  cases found : rules.get? name with
  | some alternatives => rfl
  | none =>
    rw [successors, found] at next
    cases next

def Spells (rules : Rules) (characters : List Char) : Prop :=
  ∃ rule alternatives, rules.get? rule = some alternatives ∧ ∃ e ∈ alternatives,
    ∃ text, Symbol.terminal text ∈ e.symbols ∧ characters <:+: text.toList

end Rules

namespace Dictionary
open Ebnf (Times)

/-- No group that a text is searched for begins or ends inside the name, and it is read again. -/
structure Unbroken (name : String) : Prop where
  inner : ∀ c ∈ name.toList, isNameChar c = true
  tame : Tame name
  closed : (name.toList.filter fun c => !isGroupChar c).getLast? ≠ some '('

instance (name : String) : Decidable (Unbroken name) :=
  have := List.decidableBAll (fun c => isNameChar c = true) name.toList
  decidable_of_iff ((∀ c ∈ name.toList, isNameChar c = true) ∧ Tame name ∧
      (name.toList.filter fun c => !isGroupChar c).getLast? ≠ some '(')
    ⟨fun ⟨inner, tame, closed⟩ => ⟨inner, tame, closed⟩,
      fun unbroken => ⟨unbroken.inner, unbroken.tame, unbroken.closed⟩⟩

structure Solid (name : String) : Prop extends Unbroken name where
  some : name.toList ≠ []

theorem Solid.isToken {name : String} (solid : Solid name) : IsToken name := ⟨solid.some, solid.inner⟩

theorem IsName.solid {name : String} (named : IsName name) : Solid name := by
  refine ⟨⟨named.isToken.2, ?_, ?_⟩, named.1⟩
  · apply List.Pairwise.isChain
    apply List.pairwise_of_forall_mem_list
    rintro b inside c - ⟨closes, -⟩
    have plain := (named.2 b inside).1
    simp only [isPlain, Bool.and_eq_true, bne_iff_ne] at plain
    simp [isCloser, plain] at closes
  · have none : (name.toList.filter fun c => !isGroupChar c) = [] := by
      rw [List.filter_eq_nil_iff]
      intro c inside
      simp [Part.isGroupChar_of_isPlain (named.2 c inside).1]
    simp [none]

theorem Unbroken.numbered {hint : String} (unbroken : Unbroken hint) (k : Nat) :
    Solid (Fresh.candidate hint (k + 1)) := by
  have spelling := Fresh.toList_candidate_succ hint k
  refine ⟨⟨?_, tame_candidate unbroken.tame (k + 1), ?_⟩, by rw [spelling]; simp⟩
  · intro c inside
    rw [spelling] at inside
    rcases List.mem_append.mp inside with old | new
    · exact unbroken.inner c old
    · obtain ⟨plain, solid⟩ := isPlain_of_number new
      exact isNameChar_of_isPlain plain solid
  · have none : (('-' :: Nat.toDigits 10 (k + 1)).filter fun c => !isGroupChar c) = [] := by
      rw [List.filter_eq_nil_iff]
      intro c inside
      simp [Part.isGroupChar_of_isPlain (isPlain_of_number inside).1]
    rw [spelling, List.filter_append, none, List.append_nil]
    exact unbroken.closed

section Cuts
variable {name : String} {m : Match} {text : List Char}

theorem Unbroken.not_closing (unbroken : Unbroken name) {left right rest : List Char} {sign : Char}
    (operator : isSign sign = true) (behind : right <+: sign :: rest) :
    name.toList ++ ['>'] ≠ left ++ ')' :: right := by
  intro whole
  cases right with
  | nil =>
    have last := congrArg List.getLast? whole
    simp at last
  | cons c right =>
    obtain ⟨rfl, -⟩ := List.cons_prefix_cons.mp behind
    have chain : (name.toList ++ ['>']).IsChain fun b c => ¬ (isCloser b = true ∧ isSign c = true) := by
      refine List.isChain_append.mpr ⟨unbroken.tame, List.isChain_singleton _, ?_⟩
      rintro b - d first ⟨-, signs⟩
      cases first
      cases signs
    rw [whole] at chain
    have apart := (List.isChain_cons_cons.mp (List.isChain_append.mp chain).2.1).1
    exact apart ⟨rfl, operator⟩

theorem Unbroken.exists_of_opening (unbroken : Unbroken name) {left right : List Char}
    (whole : name.toList ++ ['>'] = left ++ '(' :: right) : ∃ c ∈ right, isGroupChar c = false := by
  by_contra none
  have plain : ∀ c ∈ right, isGroupChar c = true := by
    intro c inside
    by_contra other
    exact none ⟨c, inside, by simpa using other⟩
  have filtered := congrArg (List.filter fun c => !isGroupChar c) whole
  have empty : (right.filter fun c => !isGroupChar c) = [] := by
    rw [List.filter_eq_nil_iff]
    intro c inside
    simp [plain c inside]
  have bracket : (['>'].filter fun c => !isGroupChar c) = [] := rfl
  rw [List.filter_append, List.filter_append, bracket, List.append_nil,
    List.filter_cons_of_pos rfl, empty] at filtered
  apply unbroken.closed
  rw [filtered, List.getLast?_concat]

theorem Unbroken.not_opening (unbroken : Unbroken name) {left right inner rest : List Char}
    {sign : Char} (plain : ∀ c ∈ inner, isGroupChar c = true) (operator : isSign sign = true)
    (behind : right <+: inner ++ ')' :: sign :: rest) :
    name.toList ++ ['>'] ≠ left ++ '(' :: right := by
  intro whole
  obtain ⟨c, here, parenthesis⟩ := unbroken.exists_of_opening whole
  have outside : c ∉ inner := by
    intro among
    rw [plain c among] at parenthesis
    cases parenthesis
  obtain ⟨after, joined⟩ := behind
  rcases List.append_eq_append_iff.mp joined with ⟨more, within, -⟩ | ⟨more, reach, later⟩
  · exact outside (within ▸ List.mem_append_left more here)
  · cases more with
    | nil => exact outside (by simpa [reach] using here)
    | cons d more =>
      obtain ⟨rfl, tail⟩ := List.cons.inj later
      have all : name.toList ++ ['>'] = (left ++ '(' :: inner) ++ ')' :: more := by
        rw [List.append_assoc, List.cons_append, ← reach]
        exact whole
      exact unbroken.not_closing operator ⟨after, tail.symm⟩ all

theorem bracketed_cases {before after : List Char} {c : Char} (apart : '<' ≠ c)
    (inside : bracketed name <:+: before ++ c :: after) :
    bracketed name <:+: before ∨ bracketed name <:+: after ∨
      ∃ left right, name.toList ++ ['>'] = left ++ c :: right ∧ right <+: after := by
  rcases List.infix_append_iff.mp inside with first | behind | ⟨left, right, parts, suffix_, prefix_⟩
  · exact .inl first
  · exact .inr (.inl (infix_of_head (a := [c]) (by simpa using apart) behind))
  · cases right with
    | nil =>
      rw [List.append_nil] at parts
      exact .inl (parts ▸ suffix_.isInfix)
    | cons d right =>
      obtain ⟨rfl, behind⟩ := List.cons_prefix_cons.mp prefix_
      cases left with
      | nil => exact absurd (List.cons.inj parts).1 apart
      | cons e left => exact .inr (.inr ⟨left, right, (List.cons.inj parts).2, behind⟩)

theorem Solid.mention_group (solid : Solid name) (cuts : m.Cuts '(' ')' isGroupChar text)
    (inside : bracketed name <:+: text) :
    bracketed name <:+: m.before ∨ bracketed name <:+: m.inner ∨ bracketed name <:+: m.after := by
  have sign : '<' ≠ m.sign := by
    intro same
    have found := cuts.sign
    rw [← same] at found
    cases found
  rw [cuts.text_eq] at inside
  rcases bracketed_cases (by decide) inside with before | behind | ⟨left, right, whole, reach⟩
  · exact .inl before
  · rcases bracketed_cases (by decide) behind with inner | after | ⟨left, right, whole, reach⟩
    · exact .inr (.inl inner)
    · exact .inr (.inr (infix_of_head (a := [m.sign]) (by simpa using sign) after))
    · exact absurd whole (solid.not_closing cuts.sign reach)
  · exact absurd whole (solid.not_opening cuts.inner cuts.sign reach)

/-- The brackets of a name whose last parenthesis is an opening one are torn apart by a later group. -/
example : ¬ Unbroken "x(y" ∧ findGroup? (bracketed "x(y" ++ "*q)+".toList) =
    some ⟨"<x".toList, "y>*q".toList, '+', []⟩ := by decide +kernel

end Cuts

/-- How a symbol is read from a text: a name is one that can be read, and no such name stands in the
literal text in its brackets. -/
def IsRead : Symbol → Prop
  | .nonterminal name => IsToken name
  | .terminal text => ∀ name, IsToken name → ¬ bracketed name <:+: text.toList

section Reading
variable {read text : List Char}

def Passed (read text : List Char) : Prop :=
  ∀ name, IsToken name → ∀ later, '<' :: later <:+ read.reverse →
    ¬ name.toList ++ ['>'] <+: later ++ text

theorem passed_nil : Passed [] text := by
  intro name _ later suffix_
  cases List.suffix_nil.mp suffix_

theorem Passed.cons {c : Char} (passed : Passed read (c :: text))
    (none : c = '<' → nameAt? text = none) : Passed (c :: read) text := by
  intro name token later suffix_ begins
  rw [List.reverse_cons] at suffix_
  rcases List.suffix_concat_iff.mp suffix_ with empty | ⟨before, same, ends⟩
  · cases empty
  · cases before with
    | nil =>
      obtain ⟨rfl, rfl⟩ : '<' = c ∧ later = [] := by simpa using same
      obtain ⟨rest, whole⟩ := begins
      rw [List.append_assoc] at whole
      have found := @nameAt?_eq name rest token
      rw [List.singleton_append, List.nil_append] at whole
      rw [whole, none rfl] at found
      cases found
    | cons d before =>
      obtain ⟨rfl, rfl⟩ : '<' = d ∧ later = before ++ [c] := by simpa using same
      rw [List.append_assoc, List.singleton_append] at begins
      exact passed name token before ends begins

theorem isRead_flush (passed : Passed read text) : ∀ symbol ∈ flush read, IsRead symbol := by
  intro symbol inside
  unfold flush at inside
  split at inside
  · cases inside
  · rw [List.mem_singleton.mp inside]
    rintro name token ⟨before, after, whole⟩
    rw [String.toList_ofList, bracketed, List.append_assoc] at whole
    refine passed name token (name.toList ++ ['>'] ++ after) ⟨before, whole⟩ ?_
    rw [List.append_assoc]
    exact List.prefix_append _ _

theorem isRead_tokensFrom {fuel : Nat} (enough : text.length ≤ fuel) (passed : Passed read text) :
    ∀ symbol ∈ tokensFrom fuel read text, IsRead symbol := by
  induction fuel generalizing read text with
  | zero =>
    obtain rfl : text = [] := List.length_eq_zero_iff.mp (by omega)
    exact isRead_flush passed
  | succ fuel ih =>
    cases text with
    | nil => exact isRead_flush passed
    | cons c text =>
      rw [List.length_cons] at enough
      rw [tokensFrom]
      split
      · rename_i opens
        split
        · rename_i used rest found
          obtain ⟨rfl, some, plain⟩ := nameAt?_eq_some found
          rw [List.length_append, List.length_cons] at enough
          intro symbol inside
          rcases List.mem_append.mp inside with here | inside
          · exact isRead_flush passed symbol here
          · rcases List.mem_cons.mp inside with rfl | later
            · exact ⟨by rwa [String.toList_ofList], by rwa [String.toList_ofList]⟩
            · exact ih (by omega) passed_nil symbol later
        · rename_i none
          exact ih (by omega) (passed.cons fun _ => none)
      · rename_i other
        exact ih (by omega) (passed.cons fun opens => absurd opens other)

theorem isRead_tokens (text : List Char) : ∀ symbol ∈ tokens text, IsRead symbol :=
  isRead_tokensFrom (Nat.le_refl _) passed_nil

end Reading

/-- What an alternative of a rule is read from, except that a rule may refer to itself. -/
def ReadFor (rule : String) (e : Expansion) : Prop :=
  ∀ symbol ∈ e.symbols, symbol = .nonterminal rule ∨ IsRead symbol

def AllRead (rules : Rules) : Prop :=
  ∀ rule alternatives, rules.get? rule = some alternatives → ∀ e ∈ alternatives, ReadFor rule e

section Read
variable {rules : Rules} {rule name : String} {alternatives : List Expansion}

theorem readFor_times (token : IsToken name) (times : Times) (fresh : String) :
    ∀ e ∈ times.expansions fresh [.nonterminal name], ReadFor fresh e := by
  have content : IsRead (.nonterminal name) := token
  cases times <;> simp [Times.expansions, ReadFor, Expansion.unweighted, content]

theorem AllRead.put (all : AllRead rules) (new : ∀ e ∈ alternatives, ReadFor rule e) :
    AllRead (rules.put rule alternatives) := by
  intro other own found
  rcases Entries.get?_put_eq_some_iff.mp found with ⟨rfl, rfl⟩ | ⟨-, old⟩
  · exact new
  · exact all other own old

theorem AllRead.extend (all : AllRead rules) (new : ∀ e ∈ alternatives, ReadFor rule e) :
    AllRead (rules.extend rule alternatives) := by
  apply all.put
  intro e chosen
  rcases Rules.mem_extended chosen with ⟨before, found, old⟩ | here
  · exact all rule before found e old
  · exact new e here

theorem AllRead.not_spells (all : AllRead rules) (token : IsToken name) :
    ¬ rules.Spells (bracketed name) := by
  rintro ⟨rule, alternatives, found, e, chosen, text, inside, spells⟩
  rcases all rule alternatives found e chosen _ inside with own | read
  · cases own
  · exact read name token spells

theorem AllRead.eq_of_successor (all : AllRead rules) (torn : ¬ IsToken name)
    (next : name ∈ rules.successors rule) : rule = name := by
  obtain ⟨alternatives, found⟩ := Option.isSome_iff_exists.mp
    ((Entries.get?_isSome_iff rule rules).mpr (Rules.mem_keys_of_successor next))
  obtain ⟨e, chosen, refers⟩ := (Rules.mem_successors found).mp next
  rcases all rule alternatives found e chosen _ (Expansion.mem_references.mp refers) with own | read
  · cases own
    rfl
  · exact absurd read torn

end Read

end Dictionary
end GrammarSampler
