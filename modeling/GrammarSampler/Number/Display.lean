import GrammarSampler.Number.Basic
import GrammarSampler.Number.Shortest

/-!
Numbers as text. Floats have the fewest digits that read back, positional from 1e-4 to below
1e16 and with an exponent of at least two digits elsewhere; fixed places round the exact value,
a half to the even neighbour.
-/
namespace GrammarSampler

attribute [local instance (2000)] instPowNat

namespace Decimal

def zeros (n : Nat) : String := String.ofList (List.replicate n '0')

def exponentText (e : Int) : String :=
  let digits := toString e.natAbs
  (if e < 0 then "e-" else "e+") ++ (if digits.length < 2 then "0" ++ digits else digits)

/-- Positional when the leading digit stands for 10 ^ -4 up to 10 ^ 15. -/
def display (d : Decimal) : String :=
  let d := d.strip 400
  let digits := toString d.digits
  let count := digits.length
  let point : Int := count + d.exponent
  if -4 < point ∧ point ≤ 16 then
    if point ≤ 0 then "0." ++ zeros (-point).toNat ++ digits
    else if count ≤ point then digits ++ zeros (point - count).toNat ++ ".0"
    else
      let cs := digits.toList
      String.ofList (cs.take point.toNat) ++ "." ++ String.ofList (cs.drop point.toNat)
  else
    let cs := digits.toList
    let tail := if count = 1 then "" else "." ++ String.ofList (cs.drop 1)
    String.ofList (cs.take 1) ++ tail ++ exponentText (point - 1)

end Decimal

def roundHalfEven (n d : Nat) : Nat :=
  let q := n / d
  match compare (2 * (n % d)) d with
  | .lt => q
  | .gt => q + 1
  | .eq => q + q % 2

def floatText (x : Float) : String :=
  match ExactValue.ofFloat x with
  | .notANumber => "nan"
  | .infinite negative => if negative then "-inf" else "inf"
  | .finite negative significand exponent =>
    let body := if significand = 0 then "0.0" else (Decimal.shortest significand exponent).display
    if negative then "-" ++ body else body

/-- A fixed number of decimal places; the sign of a negative value stays on zero. -/
def fixedText (places : Nat) (x : Float) : String :=
  match ExactValue.ofFloat x with
  | .notANumber => "nan"
  | .infinite negative => if negative then "-inf" else "inf"
  | .finite negative significand exponent =>
    let scaled := roundHalfEven (significand * 2 ^ exponent.toNat * 10 ^ places)
      (2 ^ (-exponent).toNat)
    let digits := toString scaled
    let padded := (Decimal.zeros (places + 1 - digits.length) ++ digits).toList
    let cut := padded.length - places
    let whole := String.ofList (padded.take cut)
    let body := if places = 0 then whole else whole ++ "." ++ String.ofList (padded.drop cut)
    if negative then "-" ++ body else body

namespace Number

def display : Number → String
  | int n => toString n
  | float x => floatText x
  | truth b => if b then "True" else "False"

end Number
end GrammarSampler
