import GrammarSampler.Proofs.Ebnf.Numbering
import GrammarSampler.Proofs.Grammar.Mentions

/-!
The names that a body refers to. Lowering keeps them all: each stands in the symbols of its item or
in a rule that was made for a part of it.
-/
namespace GrammarSampler.Ebnf

def Lowering.Ruled (l : Lowering) : Prop := ∀ name ∈ l.rules.keys, name ∈ l.taken

namespace Made
variable {hint : String} {l l' : Lowering} {n : Nat} {name : String}

theorem ruled (made : Made hint l n l') (ruled : l.Ruled) : l'.Ruled := by
  induction made with
  | nothing => exact ruled
  | @rule n l' _ alternatives _ ih =>
    intro name inside
    rcases Entries.mem_keys_put.mp inside with rfl | old
    · exact List.mem_cons_self
    · exact List.mem_cons_of_mem _ (ih name old)

theorem mentions (made : Made hint l n l') (ruled : l.Ruled) (mentions : l.rules.Mentions name) :
    l'.rules.Mentions name := by
  induction made with
  | nothing => exact mentions
  | @rule n l' before alternatives _ ih =>
    apply ih.put
    intro inside
    exact Fresh.name_notMem l'.taken hint (before.ruled ruled _ inside)

end Made

theorem Times.exists_expansion {content : List Symbol} {name : String}
    (inside : Symbol.nonterminal name ∈ content) (times : Times) (fresh : String) :
    ∃ e ∈ times.expansions fresh content, name ∈ e.references := by
  cases times with
  | optional =>
    exact ⟨.unweighted content, by simp [Times.expansions], Expansion.mem_references.mpr inside⟩
  | star =>
    exact ⟨.unweighted (content ++ [.nonterminal fresh]), by simp [Times.expansions],
      Expansion.mem_references.mpr (List.mem_append_left _ inside)⟩
  | plus =>
    exact ⟨.unweighted content, by simp [Times.expansions], Expansion.mem_references.mpr inside⟩

section Lowering
variable (hint : String) {name : String}

theorem mentions_inline {l : Lowering} {alternatives : List (List Symbol)} {symbols : List Symbol}
    (among : symbols ∈ alternatives) (inside : Symbol.nonterminal name ∈ symbols) :
    Symbol.nonterminal name ∈ (l.inline hint alternatives).1 ∨
      (l.inline hint alternatives).2.rules.Mentions name := by
  rcases inline_eq l hint alternatives with ⟨only, rfl, same⟩ | same
  · rw [same]
    exact .inl (List.mem_singleton.mp among ▸ inside)
  · rw [same]
    exact .inr (Rules.mentions_put_self (List.mem_map_of_mem among)
      (Expansion.mem_references.mpr inside))

mutual
theorem mentions_lowerItem : ∀ (l : Lowering) (item : Item), l.Ruled → name ∈ itemNames item →
    Symbol.nonterminal name ∈ (lowerItem hint l item).1 ∨
      (lowerItem hint l item).2.rules.Mentions name
  | _, .literal _, _, refers => by cases refers
  | _, .reference used, _, refers => by
    rw [itemNames, List.mem_singleton] at refers
    exact .inl (by rw [refers]; exact List.mem_singleton_self _)
  | l, .group alternatives, ruled, refers => by
    rcases mentions_lowerBody l alternatives ruled refers with ⟨symbols, among, inside⟩ | kept
    · exact mentions_inline hint among inside
    · have outer := made_inline hint (lowerBody hint l alternatives).2 (lowerBody hint l alternatives).1
      exact .inr (outer.mentions ((made_lowerBody hint l alternatives).ruled ruled) kept)
  | l, .repeated item times, ruled, refers => by
    have inner := (made_lowerItem hint l item).ruled ruled
    right
    rcases mentions_lowerItem l item ruled refers with inside | kept
    · obtain ⟨e, chosen, own⟩ := times.exists_expansion inside
        (Fresh.name (lowerItem hint l item).2.taken hint)
      exact Rules.mentions_put_self chosen own
    · apply kept.put
      intro old
      exact Fresh.name_notMem _ hint (inner _ old)

theorem mentions_lowerSequence : ∀ (l : Lowering) (items : List Item), l.Ruled →
    name ∈ sequenceNames items → Symbol.nonterminal name ∈ (lowerSequence hint l items).1 ∨
      (lowerSequence hint l items).2.rules.Mentions name
  | _, [], _, refers => by cases refers
  | l, item :: rest, ruled, refers => by
    have next := (made_lowerItem hint l item).ruled ruled
    rcases List.mem_append.mp refers with here | later
    · rcases mentions_lowerItem l item ruled here with inside | kept
      · exact .inl (List.mem_append_left _ inside)
      · exact .inr ((made_lowerSequence hint _ rest).mentions next kept)
    · rcases mentions_lowerSequence _ rest next later with inside | kept
      · exact .inl (List.mem_append_right _ inside)
      · exact .inr kept

theorem mentions_lowerBody : ∀ (l : Lowering) (body : List (List Item)), l.Ruled →
    name ∈ bodyNames body →
      (∃ symbols ∈ (lowerBody hint l body).1, Symbol.nonterminal name ∈ symbols) ∨
        (lowerBody hint l body).2.rules.Mentions name
  | _, [], _, refers => by cases refers
  | l, sequence :: rest, ruled, refers => by
    have next := (made_lowerSequence hint l sequence).ruled ruled
    rcases List.mem_append.mp refers with here | later
    · rcases mentions_lowerSequence l sequence ruled here with inside | kept
      · exact .inl ⟨_, List.mem_cons_self, inside⟩
      · exact .inr ((made_lowerBody hint _ rest).mentions next kept)
    · rcases mentions_lowerBody _ rest next later with ⟨symbols, among, inside⟩ | kept
      · exact .inl ⟨symbols, List.mem_cons_of_mem _ among, inside⟩
      · exact .inr kept
end

end Lowering
end GrammarSampler.Ebnf
