import GrammarSampler.Fault

/-!
Derivation trees: a leaf is a terminal, or a name still to be expanded; a node records the number
that its expansion was labelled with, which a generation takes from the alternative's position.
-/
namespace GrammarSampler

-- Zero is the core's, whatever else is in scope.
attribute [local instance (2000)] Zero.ofOfNat0

inductive Tree where
  | leaf (symbol : Symbol)
  | node (name : String) (alternative : Int) (children : List Tree)
deriving Repr

instance : Inhabited Tree := ⟨.leaf (.terminal "")⟩

namespace Tree

def symbol : Tree → Symbol
  | leaf symbol => symbol
  | node name _ _ => .nonterminal name

def isOpen : Tree → Bool
  | leaf (.nonterminal _) => true
  | _ => false

def label : Tree → String
  | leaf (.terminal text) => text
  | leaf (.nonterminal name) => name
  | node name _ _ => name

def openLabel (name : String) : String := Symbol.bracketed name ++ " (open)"

def nodeLabel (name : String) (alternative : Int) : String :=
  Symbol.bracketed name ++ " #" ++ toString alternative

def display : Tree → String
  | leaf (.terminal text) => Quoted.text text
  | leaf (.nonterminal name) => openLabel name
  | node name alternative _ => nodeLabel name alternative

def children : Tree → List Tree
  | leaf _ => []
  | node _ _ children => children

mutual
def walk (depth : Nat) : Tree → List (Nat × Tree)
  | leaf symbol => [(depth, leaf symbol)]
  | node name alternative children =>
    (depth, node name alternative children) :: walkAll (depth + 1) children

def walkAll (depth : Nat) : List Tree → List (Nat × Tree)
  | [] => []
  | child :: rest => walk depth child ++ walkAll depth rest
end

mutual
def count : Tree → Nat
  | leaf _ => 1
  | node _ _ children => countAll children + 1

def countAll : List Tree → Nat
  | [] => 0
  | child :: rest => count child + countAll rest
end

theorem countAll_eq_sum (children : List Tree) : countAll children = (children.map count).sum := by
  induction children with
  | nil => rfl
  | cons child rest ih => simp [countAll, ih]

theorem count_eq_children (t : Tree) : t.count = countAll t.children + 1 := by
  cases t <;> simp [count, children, countAll]

def visit (visited : List (Nat × Tree)) : List (Nat × Tree) → List (Nat × Tree)
  | [] => visited.reverse
  | (depth, t) :: waiting =>
    visit ((depth, t) :: visited) (t.children.map (depth + 1, ·) ++ waiting)
termination_by waiting => (waiting.map fun (_, t) => t.count).sum
decreasing_by simp [count_eq_children t, countAll_eq_sum, Function.comp_def]

def nodes (t : Tree) : List (Nat × Tree) := visit [] [(0, t)]

theorem walkAll_eq_flatMap (depth : Nat) (children : List Tree) :
    walkAll depth children = (children.map (depth, ·)).flatMap fun (d, t) => t.walk d := by
  induction children with
  | nil => rfl
  | cons child rest ih => simp [walkAll, ih]

theorem visit_eq (visited waiting : List (Nat × Tree)) :
    visit visited waiting = visited.reverse ++ waiting.flatMap fun (d, t) => t.walk d := by
  fun_induction visit visited waiting with
  | case1 => simp
  | case2 visited depth t waiting ih =>
    rw [ih]
    cases t with
    | leaf symbol => simp [children, walk]
    | node name alternative children => simp [Tree.children, walk, walkAll_eq_flatMap]

theorem nodes_eq_walk (t : Tree) : t.nodes = t.walk 0 := by simp [nodes, visit_eq]

def size (t : Tree) : Nat := t.nodes.length

def depth (t : Tree) : Nat := (t.nodes.map Prod.fst).foldl Nat.max 0

def leafSymbol? : Tree → Option Symbol
  | leaf symbol => some symbol
  | node .. => none

def frontier (t : Tree) : List Symbol := t.nodes.filterMap fun (_, t) => t.leafSymbol?

def symbolText : Symbol → String
  | .terminal text => text
  | .nonterminal name => Symbol.bracketed name

def sententialForm (t : Tree) : String := String.join (t.frontier.map symbolText)

def gather : List (Nat × Tree) → Except Fault (List String)
  | [] => .ok []
  | (_, .leaf (.nonterminal name)) :: _ => .error (.generation (.treeOpen name))
  | (_, .leaf (.terminal text)) :: rest => (gather rest).map (text :: ·)
  | (_, .node ..) :: rest => gather rest

def text? (t : Tree) : Except Fault String := (gather t.nodes).map String.join

theorem gather_eq (nodes : List (Nat × Tree)) : gather nodes =
    ((nodes.filterMap fun n => n.2.leafSymbol?).findSome? Symbol.name?).elim
      (.ok ((nodes.filterMap fun n => n.2.leafSymbol?).map symbolText))
      fun name => .error (.generation (.treeOpen name)) := by
  induction nodes with
  | nil => rfl
  | cons n rest ih =>
    obtain ⟨depth, t⟩ := n
    cases t with
    | node name alternative children => exact ih
    | leaf symbol =>
      cases symbol with
      | nonterminal name => rfl
      | terminal text =>
        have first : (((depth, leaf (.terminal text)) :: rest).filterMap fun n => n.2.leafSymbol?) =
          .terminal text :: rest.filterMap fun n => n.2.leafSymbol? := rfl
        rw [gather, ih, first, List.findSome?_cons_of_isNone rfl]
        cases (rest.filterMap fun n => n.2.leafSymbol?).findSome? Symbol.name? with
        | none => rfl
        | some name => rfl

theorem text?_eq_frontier (t : Tree) : t.text? = (t.frontier.findSome? Symbol.name?).elim
    (.ok t.sententialForm) fun name => .error (.generation (.treeOpen name)) := by
  rw [text?, gather_eq, sententialForm, frontier]
  cases (t.nodes.filterMap fun n => n.2.leafSymbol?).findSome? Symbol.name? with
  | none => rfl
  | some name => rfl

mutual
/-- The height counts expanded nodes; a node without names below it has height one. -/
def height : Tree → Nat
  | leaf _ => 0
  | node _ _ children => heightAll children + 1

def heightAll : List Tree → Nat
  | [] => 0
  | child :: rest => Nat.max (height child) (heightAll rest)
end

end Tree
end GrammarSampler
