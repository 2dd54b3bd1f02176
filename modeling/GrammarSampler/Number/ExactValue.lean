/-!
Binary64 values read as exact numbers, and their exact comparison with whole numbers.
-/
namespace GrammarSampler

-- Powers are the core's, whatever else is in scope.
attribute [local instance (2000)] instPowNat

/-- A finite value is `significand * 2 ^ exponent`, negated when `negative` holds. -/
inductive ExactValue where
  | notANumber
  | infinite (negative : Bool)
  | finite (negative : Bool) (significand : Nat) (exponent : Int)
deriving DecidableEq, Repr

namespace ExactValue

/-- Subnormal numbers have exponent -1074; the others carry the implicit leading bit. -/
def ofFloat (x : Float) : ExactValue :=
  let bits : Nat := x.toBits.toNat
  let negative := decide (2 ^ (63 : Nat) ≤ bits)
  let biased : Nat := bits / 2 ^ (52 : Nat) % 2 ^ (11 : Nat)
  let fraction : Nat := bits % 2 ^ (52 : Nat)
  if biased = 2047 then
    if fraction = 0 then .infinite negative else .notANumber
  else if biased = 0 then .finite negative fraction (-1074)
  else .finite negative (fraction + 2 ^ (52 : Nat)) (biased - 1075)

def isFinite : ExactValue → Bool
  | .finite .. => true
  | _ => false

def compareScaled (negative : Bool) (significand : Nat) (exponent n : Int) : Ordering :=
  let signed : Int := if negative then -significand else significand
  compare (signed * 2 ^ exponent.toNat) (n * 2 ^ (-exponent).toNat)

/-- No order holds between a whole number and a value that is not a number. -/
def compareInt : ExactValue → Int → Option Ordering
  | .notANumber, _ => none
  | .infinite negative, _ => some (if negative then .lt else .gt)
  | .finite negative significand exponent, n =>
    some (compareScaled negative significand exponent n)

def truncate : ExactValue → Option Int
  | .finite negative significand exponent =>
    let whole := significand * 2 ^ exponent.toNat / 2 ^ (-exponent).toNat
    some (if negative then -whole else whole)
  | _ => none

end ExactValue
end GrammarSampler
