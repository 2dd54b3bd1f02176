import GrammarSampler.Tree.Basic
import GrammarSampler.Tree.Worklist

/-!
A tree being grown. Its names are numbered as they come up, so that a name has a smaller number than
the names below it. A worklist holds the numbers of the open names from left to right; expanding a
name puts its new names in its place.
-/
namespace GrammarSampler

/-- How a name was expanded. The names among the symbols are numbered from `first` on. -/
structure Expanded where
  alternative : Int
  symbols : List Symbol
  first : Nat
deriving DecidableEq, Repr

structure Bud where
  name : String
  depth : Nat
  expanded : Option Expanded
deriving DecidableEq, Repr

namespace Bud

def isOpen (b : Bud) : Bool := b.expanded.isNone

def display (b : Bud) : String :=
  match b.expanded with
  | none => Tree.openLabel b.name
  | some e => Tree.nodeLabel b.name e.alternative

def treesFrom (tree : Nat → Tree) (first : Nat) : List Symbol → List Tree
  | [] => []
  | .terminal text :: rest => .leaf (.terminal text) :: treesFrom tree first rest
  | .nonterminal _ :: rest => tree first :: treesFrom tree (first + 1) rest

def tree (later : Nat → Tree) (b : Bud) : Tree :=
  match b.expanded with
  | none => .leaf (.nonterminal b.name)
  | some e => .node b.name e.alternative (treesFrom later e.first e.symbols)

end Bud

/-- Expanding a name again replaces what is below it: the names that were there keep their numbers
but are no longer part of the tree. -/
structure Growth where
  names : Array Bud
  worklist : Worklist Nat
  steps : Nat
deriving DecidableEq, Repr

namespace Growth

def start (name : String) : Growth := ⟨#[⟨name, 0, none⟩], .single 0, 0⟩

def trees (names : Array Bud) : Array Tree :=
  names.foldr (fun b found => found.push (b.tree fun i => found.getD (names.size - 1 - i) default)) #[]

def tree (g : Growth) : Tree := (trees g.names).back?.getD default

def openCount (g : Growth) : Nat := g.worklist.size

def isComplete (g : Growth) : Bool := g.worklist.isEmpty

def number? (g : Growth) (position : Int) : Except Fault Nat :=
  match g.worklist.get? position with
  | some number => .ok number
  | none => .error .outOfRange

def bud (g : Growth) (number : Nat) : Bud := g.names.getD number ⟨"", 0, none⟩

def bud? (g : Growth) (position : Int) : Except Fault Bud := (g.number? position).map g.bud

def buds (g : Growth) : List Bud := g.worklist.toList.map g.bud

def expandNumber (g : Growth) (number : Nat) (position alternative : Int) (e : Expansion) : Growth :=
  match g with
  | ⟨names, worklist, steps⟩ =>
    let first := names.size
    let depth := (names.getD number ⟨"", 0, none⟩).depth + 1
    let new := e.references
    let names := names.modify number fun b => { b with expanded := some ⟨alternative, e.symbols, first⟩ }
    ⟨new.foldl (fun names name => names.push ⟨name, depth, none⟩) names,
      worklist.replace position (position + 1) (List.range' first new.length), steps + 1⟩

def expand? (g : Growth) (position : Int) (alternative : Int) (e : Expansion) : Except Fault Growth := do
  return g.expandNumber (← g.number? position) position alternative e

end Growth
end GrammarSampler
