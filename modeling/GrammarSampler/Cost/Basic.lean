import GrammarSampler.Entries
import GrammarSampler.Fault

/-!
Costs: how many expansion steps, nested one in the other, a name needs before only terminals are
left. Tables of costs answer for names and for whole alternatives.
-/
namespace GrammarSampler

inductive Cost where
  | finite (steps : Nat)
  | infinite
deriving DecidableEq, Repr

namespace Cost

def lt : Cost → Cost → Bool
  | finite m, finite n => decide (m < n)
  | finite _, infinite => true
  | infinite, _ => false

def max : Cost → Cost → Cost
  | finite m, finite n => finite (Nat.max m n)
  | _, _ => infinite

def min : Cost → Cost → Cost
  | finite m, finite n => finite (Nat.min m n)
  | finite m, infinite => finite m
  | infinite, c => c

def next : Cost → Cost
  | finite n => finite (n + 1)
  | infinite => infinite

/-- The most expensive of several costs; nothing costs nothing. -/
def worst (costs : List Cost) : Cost := costs.foldr max (finite 0)

def best (costs : List Cost) : Cost := costs.foldr min infinite

def isFinite : Cost → Bool
  | finite _ => true
  | infinite => false

end Cost

class Price (κ : Type) where
  nothing : κ
  isAbove : κ → κ → Bool
  isInfinite : κ → Bool
  whole : κ → Except NumberFault Int
  display : κ → String

instance : Price Cost where
  nothing := .finite 0
  isAbove a b := b.lt a
  isInfinite c := !c.isFinite
  whole
    | .finite n => .ok n
    | .infinite => .error .infiniteToInteger
  display
    | .finite n => toString n
    | .infinite => "inf"

instance : Price Number where
  nothing := .int 0
  isAbove a b := b.lt a
  isInfinite n := n.compare? (.float (1.0 / 0.0)) == some .eq
  whole := Number.toInt
  display := Number.display

abbrev CostTable (κ : Type) := Entries κ

namespace CostTable
variable {κ : Type} [Price κ]

def cost? (table : CostTable κ) (name : String) : Except Fault κ :=
  match table.get? name with
  | some c => .ok c
  | none => .error (.missingName name)

def isFinite? (table : CostTable κ) (name : String) : Except Fault Bool := do
  let c ← table.cost? name
  return !Price.isInfinite c

/-- The first of the most expensive values. -/
def worst (costs : List κ) : κ :=
  match costs with
  | [] => Price.nothing
  | c :: rest => rest.foldl (fun kept next => if Price.isAbove next kept then next else kept) c

def expansionCost? (table : CostTable κ) (e : Expansion) : Except Fault κ := do
  let costs ← e.references.mapM table.cost?
  return worst costs

def unproductive (table : CostTable κ) : List String :=
  (table.filter fun (_, c) => Price.isInfinite c).map Prod.fst

def maxFinite? (table : CostTable κ) : Except NumberFault Int :=
  Price.whole (worst ((table.map Prod.snd).filter fun c => !Price.isInfinite c))

def display (table : CostTable κ) : String :=
  let parts := table.map fun (name, c) => Quoted.text name ++ ": " ++ Price.display c
  "CostTable(\x7b" ++ ", ".intercalate parts ++ "\x7d)"

end CostTable
end GrammarSampler
