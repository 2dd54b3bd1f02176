import GrammarSampler.Ebnf.Basic
import GrammarSampler.Ebnf.Fresh
import GrammarSampler.Grammar.Rules

/-!
Lowering of extended bodies to plain rules. Every optional or repeated item and every group with
several alternatives gets a rule under a fresh name; a group with one alternative is put in place.
-/
namespace GrammarSampler.Ebnf

structure Lowering where
  taken : List String
  rules : Rules
deriving DecidableEq, Repr

namespace Lowering

def define (l : Lowering) (hint : String) (alternatives : String → List Expansion) :
    String × Lowering :=
  let name := Fresh.name l.taken hint
  (name, ⟨name :: l.taken, l.rules.put name (alternatives name)⟩)

def inline (l : Lowering) (hint : String) (alternatives : List (List Symbol)) : List Symbol × Lowering :=
  match alternatives with
  | [only] => (only, l)
  | several =>
    let (name, l) := l.define hint fun _ => several.map .unweighted
    ([.nonterminal name], l)

end Lowering

mutual
def lowerItem (hint : String) (l : Lowering) : Item → List Symbol × Lowering
  | .literal text => ([.terminal text], l)
  | .reference name => ([.nonterminal name], l)
  | .group alternatives =>
    let (lowered, l) := lowerBody hint l alternatives
    l.inline hint lowered
  | .repeated item times =>
    let (content, l) := lowerItem hint l item
    let (name, l) := l.define hint fun name => times.expansions name content
    ([.nonterminal name], l)

def lowerSequence (hint : String) (l : Lowering) : List Item → List Symbol × Lowering
  | [] => ([], l)
  | item :: rest =>
    let (symbols, l) := lowerItem hint l item
    let (later, l) := lowerSequence hint l rest
    (symbols ++ later, l)

def lowerBody (hint : String) (l : Lowering) : List (List Item) → List (List Symbol) × Lowering
  | [] => ([], l)
  | sequence :: rest =>
    let (symbols, l) := lowerSequence hint l sequence
    let (later, l) := lowerBody hint l rest
    (symbols :: later, l)
end

/-- Makes the rule that an operator sign asks for; the empty sign makes a plain group. The name is
taken before the content and the sign are checked. -/
def desugar (sign : String) (content : List DraftItem) (hint : String) (l : Lowering) :
    Except Fault String × Lowering :=
  let name := Fresh.name l.taken hint
  let l := { l with taken := name :: l.taken }
  let build (expansions : List Symbol → List Expansion) : Except Fault String × Lowering :=
    match DraftItem.symbols? content with
    | .error fault => (.error fault, l)
    | .ok symbols => (.ok name, { l with rules := l.rules.put name (expansions symbols) })
  match sign.toList with
  | [] => build fun symbols => [.unweighted symbols]
  | [c] =>
    match Times.ofChar? c with
    | some times => build (times.expansions name)
    | none => (.error (.unknownOperator sign), l)
  | _ => (.error (.unknownOperator sign), l)

end GrammarSampler.Ebnf
