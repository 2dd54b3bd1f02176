import GrammarSampler.Console.Markup
import GrammarSampler.Tree.Basic

/-!
Outlines: trees of styled labels, and the outline of a derivation tree. Expanded names show the
alternative taken, open ones say so, literals are quoted. The outline of a tree is drawn label by
label, from a stack of nodes whose children are still to be drawn.
-/
namespace GrammarSampler

attribute [local instance (2000)] Zero.ofOfNat0

variable [Markup]

inductive Outline where
  | entry (label : String) (parts : List Outline)
deriving Repr

instance : Inhabited Outline := ⟨.entry "" []⟩

namespace Outline

def label : Outline → String
  | entry label _ => label

mutual
def linesAt (depth : Nat) : Outline → List (Nat × String)
  | entry label parts => (depth, label) :: linesOf (depth + 1) parts

def linesOf (depth : Nat) : List Outline → List (Nat × String)
  | [] => []
  | part :: rest => linesAt depth part ++ linesOf depth rest
end

def lines (o : Outline) : List (Nat × String) := o.linesAt 0

def terminalLabel (text : String) : String :=
  "[green]" ++ Markup.escape (Quoted.text text) ++ "[/green]"

def openLabel (name : String) : String :=
  "[red]" ++ Markup.escape (Symbol.bracketed name) ++ " (open)[/red]"

def nodeLabel (name : String) (alternative : Int) : String :=
  "[cyan]" ++ Markup.escape (Symbol.bracketed name) ++ "[/cyan] #" ++ toString alternative

def labelOf : Tree → String
  | .leaf (.terminal text) => terminalLabel text
  | .leaf (.nonterminal name) => openLabel name
  | .node name alternative _ => nodeLabel name alternative

structure Mark where
  label : String
  below : Array Nat
deriving DecidableEq, Repr

/-- An outline being drawn. The labels are numbered in the order in which they are put down. -/
abbrev Drawing := Array Mark

namespace Drawing

def start (label : String) : Drawing := #[⟨label, #[]⟩]

def add (d : Drawing) (above : Nat) (label : String) : Drawing :=
  let number := d.size
  (d.modify above fun m => { m with below := m.below.push number }).push ⟨label, #[]⟩

/-- Draws children below the label with a number, and stacks them, the last one on top. -/
def spread (above : Nat) : List Tree → Drawing → List (Tree × Nat) → Drawing × List (Tree × Nat)
  | [], d, stack => (d, stack)
  | child :: rest, d, stack => spread above rest (d.add above (labelOf child)) ((child, d.size) :: stack)

theorem stack_spread (above : Nat) (children : List Tree) (d : Drawing) (stack : List (Tree × Nat)) :
    (spread above children d stack).2.map Prod.fst = children.reverse ++ stack.map Prod.fst := by
  induction children generalizing d stack with
  | nil => rfl
  | cons child rest ih => simp [spread, ih]

theorem count_spread (t : Tree) (number : Nat) (d : Drawing) (stack : List (Tree × Nat)) :
    (((spread number t.children d stack).2.map Prod.fst).map Tree.count).sum <
      ((((t, number) :: stack).map Prod.fst).map Tree.count).sum := by
  simp [stack_spread, Tree.count_eq_children t, Tree.countAll_eq_sum]

def draw (d : Drawing) : List (Tree × Nat) → Drawing
  | [] => d
  | (t, number) :: stack =>
    let next := spread number t.children d stack
    draw next.1 next.2
termination_by stack => ((stack.map Prod.fst).map Tree.count).sum
decreasing_by exact count_spread t number d stack

def outlineAt (d : Drawing) : Nat → Nat → Outline
  | 0, _ => default
  | depth + 1, number =>
    let m := d.getD number ⟨"", #[]⟩
    entry m.label (m.below.toList.map (outlineAt d depth))

def outline (d : Drawing) : Outline := outlineAt d d.size 0

end Drawing

def ofTree (t : Tree) : Outline := (Drawing.draw (.start (labelOf t)) [(t, 0)]).outline

end Outline
end GrammarSampler
