import GrammarSampler.Generation.Settings
import GrammarSampler.Grammar.Basic
import GrammarSampler.Random.Source
import GrammarSampler.Tree.Growth

/-!
The choices of a generation: the phase of the next step, the leaf to expand and the alternative to
expand it with.
-/
namespace GrammarSampler

class Arithmetic (ρ : Type) where
  zero : ρ
  add : ρ → ρ → ρ
  mul : ρ → ρ → ρ
  isBelow : ρ → ρ → Bool
  ofCount : Nat → Except NumberFault ρ
  ofExpansion : Expansion → Except NumberFault ρ
  truncate : ρ → Except NumberFault Int

instance : Arithmetic Float where
  zero := 0.0
  add := Float.add
  mul := Float.mul
  isBelow a b := decide (a < b)
  ofCount count := (Number.int count).toFloat
  ofExpansion := Expansion.effectiveWeight
  truncate x := (Number.float x).toInt

inductive Phase where
  | growth
  | exploration
  | closing
deriving DecidableEq, Repr

namespace Phase

def text : Phase → String
  | growth => "growth"
  | exploration => "exploration"
  | closing => "closing"

def all : List Phase := [growth, exploration, closing]

def ofText? (s : String) : Option Phase := all.find? fun p => p.text == s

def ofJson? (value : Json) : Except Fault Phase :=
  let found :=
    match value with
    | .text s => ofText? s
    | _ => none
  match found with
  | some p => .ok p
  | none => .error (.unknownPhase value)

def spent (s : Settings) (steps : Nat) : Bool := s.budget.any fun b => b.reachedBy steps

/-- Growth lasts while too few leaves are open and it does not stall; exploration while fewer than
the maximum are open; closing for good. -/
def next (s : Settings) (ruleCount : Nat) (phase : Phase) (openCount steps stalled : Nat) : Phase :=
  if phase = closing then closing
  else if spent s steps then closing
  else if phase = growth ∧ s.minimum.exceeds openCount ∧ stalled < ruleCount then growth
  else if s.maximum.exceeds openCount then exploration
  else closing

end Phase

namespace Choice
variable {ρ α : Type} [Arithmetic ρ]

def total (weights : List ρ) : ρ := weights.foldl Arithmetic.add Arithmetic.zero

/-- The first candidate whose weight, added to those before it, exceeds the point. -/
def cumulative (point : ρ) : ρ → List (α × ρ) → Option α
  | _, [] => none
  | sum, (candidate, weight) :: rest =>
    let sum := Arithmetic.add sum weight
    if Arithmetic.isBelow point sum then some candidate else cumulative point sum rest

/-- A draw from zero to below one falls on a candidate in proportion to its weight. Rounding may
leave it above all of them: then the last one is taken. -/
def weighted (candidates : List α) (weights : List ρ) (draw : ρ) : Option α :=
  (cumulative (Arithmetic.mul draw (total weights)) Arithmetic.zero (candidates.zip weights)).or
    candidates.getLast?

def firstMinimum? (depths : List Nat) : Option Nat :=
  depths.min?.map fun least => depths.idxOf least

def spread (draw : ρ) (count : Nat) : Except NumberFault Int := do
  let whole ← Arithmetic.ofCount count
  let position ← Arithmetic.truncate (Arithmetic.mul draw whole)
  return min position (count - 1 : Int)

variable {σ : Type} [Draws σ ρ]

def drawn (candidates : List α) (weights : List ρ) (source : σ) : Option α × σ :=
  let (draw, source) := Draws.draw source
  (weighted candidates weights draw, source)

/-- The position of the next leaf. A single open leaf is taken without a draw. -/
def leaf (policy : LeafPolicy) (g : Growth) (source : σ) : Except Fault Int × σ :=
  if g.openCount = 1 then (.ok 0, source)
  else
    match policy with
    | .leftmost => (.ok 0, source)
    | .shallowest =>
      match firstMinimum? (g.buds.map Bud.depth) with
      | some i => (.ok i, source)
      | none => (.error .noOpenLeaf, source)
    | .random =>
      let (draw, source) := Draws.draw source
      ((spread draw g.openCount).mapError .number, source)

def target? (phase : Phase) (costs : List Cost) : Option Cost :=
  match costs.filter Cost.isFinite, phase with
  | [], _ => none
  | finite, .growth => some (Cost.worst finite)
  | finite, _ => some (Cost.best finite)

def isAimless (table : CostTable Cost) (phase : Phase) (alternatives : List Expansion) : Bool :=
  decide (phase ≠ .exploration) && (target? phase (alternatives.map (Cost.ofExpansion table))).isNone

/-- The alternatives to choose from: all of them when exploring, the most expensive finite ones
when growing, the cheapest ones when closing. -/
def candidates (table : CostTable Cost) (phase : Phase) (alternatives : List Expansion) : List Nat :=
  match phase with
  | .exploration => List.range alternatives.length
  | _ =>
    let costs := alternatives.map (Cost.ofExpansion table)
    let target := target? phase costs
    (costs.zipIdx.filter fun (cost, _) => some cost = target).map Prod.snd

/-- One of several alternatives. A single candidate is taken without a draw; weights are converted
before the draw. -/
def pick (alternatives : List Expansion) (candidates : List Nat) (source : σ) : Except Fault Nat × σ :=
  match candidates with
  | [only] => (.ok only, source)
  | several =>
    let all := alternatives.toArray
    match (several.filterMap (all[·]?)).mapM (Arithmetic.ofExpansion (ρ := ρ)) with
    | .error fault => (.error (.number fault), source)
    | .ok weights =>
      let (picked, source) := drawn several weights source
      match picked with
      | some index => (.ok index, source)
      | none => (.error .outOfRange, source)

def alternative (g : Grammar) (name : String) (phase : Phase) (source : σ) : Except Fault Nat × σ :=
  match g.costs.get? name with
  | none => (.error (.missingName name), source)
  | some .infinite => (.error (.generation (.nonTerminating name)), source)
  | some (.finite _) =>
    let alternatives := g.alternatives name
    if isAimless g.costs phase alternatives then
      (.error (.noFiniteCost (decide (phase = .growth))), source)
    else pick alternatives (candidates g.costs phase alternatives) source

end Choice
end GrammarSampler
