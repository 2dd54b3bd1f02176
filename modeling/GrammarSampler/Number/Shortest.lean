import GrammarSampler.Number.ExactValue

/-!
The fewest decimal digits that read back as a given binary64 value. The reals that round to
`significand * 2 ^ exponent` form an interval whose ends belong to it exactly when the
significand is even; the first decimal grid with a point in it gives the digits.
-/
namespace GrammarSampler

attribute [local instance (2000)] instPowNat

structure Decimal where
  digits : Nat
  exponent : Int
deriving DecidableEq, Repr

namespace Decimal

def compareScaled (a : Nat) (i : Int) (n : Nat) (j : Int) : Ordering :=
  compare (a * 10 ^ i.toNat * 2 ^ (-j).toNat) (n * 2 ^ j.toNat * 10 ^ (-i).toNat)

/-- The value below a power of two is only half as far away as the one above it. -/
def narrowBelow (significand : Nat) (exponent : Int) : Bool :=
  significand == 2 ^ (52 : Nat) && decide (-1074 < exponent)

def readsBack (d : Decimal) (significand : Nat) (exponent : Int) : Bool :=
  let low := if narrowBelow significand exponent then 4 * significand - 1 else 4 * significand - 2
  let closed := significand % 2 == 0
  let above := compareScaled d.digits d.exponent low (exponent - 2)
  let below := compareScaled d.digits d.exponent (4 * significand + 2) (exponent - 2)
  (above == .gt || closed && above == .eq) && (below == .lt || closed && below == .eq)

/-- Of two neighbouring grid points, the nearer; a tie goes to the even one. -/
def nearer (lower : Nat) (grid : Int) (significand : Nat) (exponent : Int) : Nat :=
  match compareScaled (2 * lower + 1) grid (2 * significand) exponent with
  | .gt => lower
  | .lt => lower + 1
  | .eq => if lower % 2 = 0 then lower else lower + 1

def onGrid? (lower : Nat) (grid : Int) (significand : Nat) (exponent : Int) : Option Decimal :=
  let low : Decimal := ⟨lower, grid⟩
  let high : Decimal := ⟨lower + 1, grid⟩
  match low.readsBack significand exponent, high.readsBack significand exponent with
  | true, true => some ⟨nearer lower grid significand exponent, grid⟩
  | true, false => some low
  | false, true => some high
  | false, false => none

/-- Three hundred and forty decimal places are enough for every grid that can be needed. -/
def expanded (significand : Nat) (exponent : Int) : Nat :=
  significand * 2 ^ exponent.toNat * 10 ^ (340 : Nat) / 2 ^ (-exponent).toNat

def exact (significand : Nat) (exponent : Int) : Decimal :=
  if 0 ≤ exponent then ⟨significand * 2 ^ exponent.toNat, 0⟩
  else ⟨significand * 5 ^ (-exponent).toNat, exponent⟩

/-- Tries grids of 1, 2, … 17 digits; the exact value stands in if none fits. -/
def shortest (significand : Nat) (exponent : Int) : Decimal :=
  let long := expanded significand exponent
  let width := (Nat.toDigits 10 long).length
  let attempt (count : Nat) : Option Decimal :=
    onGrid? (long / 10 ^ (width - count)) ((width : Int) - 340 - count) significand exponent
  ((List.range 17).findSome? fun i => attempt (i + 1)).getD (exact significand exponent)

def strip : Nat → Decimal → Decimal
  | 0, d => d
  | fuel + 1, d =>
    if d.digits ≠ 0 ∧ d.digits % 10 = 0 then strip fuel ⟨d.digits / 10, d.exponent + 1⟩ else d

end Decimal
end GrammarSampler
