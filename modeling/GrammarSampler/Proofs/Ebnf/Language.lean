import GrammarSampler.Ebnf.Basic
import Mathlib

/-!
The languages of extended bodies, read directly: a bar is union, juxtaposition concatenation, and
the operators are those of regular expressions. Names stand for languages that are given.
-/
namespace GrammarSampler.Ebnf
open Computability

abbrev Environment := String → Language Char

def Times.language (times : Times) (content : Language Char) : Language Char :=
  match times with
  | optional => 1 + content
  | star => content∗
  | plus => content * content∗

mutual
def itemLanguage (env : Environment) : Item → Language Char
  | .literal text => {text.toList}
  | .reference name => env name
  | .group alternatives => bodyLanguage env alternatives
  | .repeated item times => times.language (itemLanguage env item)

def sequenceLanguage (env : Environment) : List Item → Language Char
  | [] => 1
  | item :: rest => itemLanguage env item * sequenceLanguage env rest

def bodyLanguage (env : Environment) : List (List Item) → Language Char
  | [] => 0
  | sequence :: rest => sequenceLanguage env sequence + bodyLanguage env rest
end

mutual
def itemNames : Item → List String
  | .literal _ => []
  | .reference name => [name]
  | .group alternatives => bodyNames alternatives
  | .repeated item _ => itemNames item

def sequenceNames : List Item → List String
  | [] => []
  | item :: rest => itemNames item ++ sequenceNames rest

def bodyNames : List (List Item) → List String
  | [] => []
  | sequence :: rest => sequenceNames sequence ++ bodyNames rest
end

theorem mem_of_le {language larger : Language Char} (le : language ≤ larger) {w : List Char}
    (inside : w ∈ language) : w ∈ larger := Set.mem_of_mem_of_subset inside le

theorem eq_zero_of_notMem {language : Language Char} (none : ∀ w, w ∉ language) : language = 0 :=
  Set.eq_empty_of_forall_notMem none

theorem mem_bodyLanguage {env : Environment} {body : Body} {w : List Char} :
    w ∈ bodyLanguage env body ↔ ∃ sequence ∈ body, w ∈ sequenceLanguage env sequence := by
  induction body with
  | nil =>
    constructor
    · intro none
      exact absurd none (Language.notMem_zero w)
    · rintro ⟨sequence, inside, -⟩
      cases inside
  | cons first rest ih =>
    rw [bodyLanguage, Language.mem_add, ih]
    constructor
    · rintro (here | ⟨sequence, inside, later⟩)
      · exact ⟨first, List.mem_cons_self, here⟩
      · exact ⟨sequence, List.mem_cons_of_mem first inside, later⟩
    · rintro ⟨sequence, inside, word⟩
      rcases List.mem_cons.mp inside with rfl | later
      · exact .inl word
      · exact .inr ⟨sequence, later, word⟩

end GrammarSampler.Ebnf
