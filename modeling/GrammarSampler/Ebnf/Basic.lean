import GrammarSampler.Symbol

/-!
Extended rule bodies: alternatives of items, where an item may be a group or may be optional or
repeated.
-/
namespace GrammarSampler.Ebnf

inductive Times where
  | optional
  | star
  | plus
deriving DecidableEq, Repr

def Times.ofChar? : Char → Option Times
  | '?' => some .optional
  | '*' => some .star
  | '+' => some .plus
  | _ => none

/-- A group holds alternatives, each of them a sequence of items. -/
inductive Item where
  | literal (text : String)
  | reference (name : String)
  | group (alternatives : List (List Item))
  | repeated (item : Item) (times : Times)
deriving Repr

abbrev Body := List (List Item)

def Times.expansions (times : Times) (name : String) (content : List Symbol) : List Expansion :=
  match times with
  | optional => [.unweighted [], .unweighted content]
  | star => [.unweighted [], .unweighted (content ++ [.nonterminal name])]
  | plus => [.unweighted content, .unweighted (content ++ [.nonterminal name])]

end GrammarSampler.Ebnf
