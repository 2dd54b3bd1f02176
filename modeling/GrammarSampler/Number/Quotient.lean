import GrammarSampler.Number.Display

/-!
Quotients of whole numbers as the nearest float, a half going to the even neighbour.
-/
namespace GrammarSampler

attribute [local instance (2000)] instPowNat

def leadingExponent (n d : Nat) : Int :=
  let guess : Int := (n.log2 : Int) - (d.log2 : Int)
  if n * 2 ^ (-guess).toNat < d * 2 ^ guess.toNat then guess - 1 else guess

/-- Fifty-three binary digits, fewer where floats end. -/
def quotient (n d : Nat) : Float :=
  if n = 0 ∨ d = 0 then 0.0
  else
    let shift := min (52 - leadingExponent n d) 1074
    (Float.ofNat (roundHalfEven (n * 2 ^ shift.toNat) (d * 2 ^ (-shift).toNat))).scaleB (-shift)

end GrammarSampler
