import GrammarSampler.Number.Display
import GrammarSampler.Text.Quoted

/-!
Grammar symbols and the alternatives built from them.
-/
namespace GrammarSampler

inductive Symbol where
  | terminal (text : String)
  | nonterminal (name : String)
deriving DecidableEq, Repr

namespace Symbol

def name? : Symbol → Option String
  | terminal _ => none
  | nonterminal name => some name

def isTerminal : Symbol → Bool
  | terminal _ => true
  | nonterminal _ => false

def bracketed (name : String) : String := "<" ++ name ++ ">"

def display : Symbol → String
  | terminal text => Quoted.text text
  | nonterminal name => bracketed name

end Symbol

/-- One alternative of a rule. Without symbols it derives the empty text; without a weight it
weighs one. -/
structure Expansion where
  symbols : List Symbol
  weight : Option Number
deriving DecidableEq, Repr

namespace Expansion

def unweighted (symbols : List Symbol) : Expansion := ⟨symbols, none⟩

def references (e : Expansion) : List String := e.symbols.filterMap Symbol.name?

def isTerminal (e : Expansion) : Bool := e.references.isEmpty

def display (e : Expansion) : String :=
  if e.symbols.isEmpty then "\"\"" else " ".intercalate (e.symbols.map Symbol.display)

def effectiveWeight (e : Expansion) : Except NumberFault Float :=
  match e.weight with
  | none => .ok 1.0
  | some w => w.toFloat

def displayAll (alternatives : List Expansion) : String :=
  " | ".intercalate (alternatives.map display)

end Expansion
end GrammarSampler
