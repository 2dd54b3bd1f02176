import GrammarSampler.Number.Quotient

/-!
Statistics of a batch of texts. Lengths count characters; averages and rates are floats, and the
average and the share of an empty batch are the whole number zero.
-/
namespace GrammarSampler

attribute [local instance (2000)] Zero.ofOfNat0

structure Statistics where
  samples : Nat
  averageLength : Number
  shortest : Nat
  longest : Nat
  unique : Nat
  uniqueness : Number
  elapsed : Number
  rate : Float
deriving Repr

namespace Statistics

def rateOf (samples : Nat) (elapsed : Number) : Float :=
  if elapsed.isPositive then
    match elapsed.split with
    | .inl n => quotient samples n.toNat
    | .inr x => Float.ofNat samples / x
  else 0.0

def summarize (texts : List String) (elapsed : Number) : Statistics :=
  let samples := texts.length
  let lengths := texts.map String.length
  let unique := texts.eraseDups.length
  { samples := samples
    averageLength := if samples = 0 then .int 0 else .float (quotient lengths.sum samples)
    shortest := lengths.min?.getD 0
    longest := lengths.max?.getD 0
    unique := unique
    uniqueness := if samples = 0 then .int 0 else .float (quotient unique samples * 100.0)
    elapsed := elapsed
    rate := rateOf samples elapsed }

end Statistics
end GrammarSampler
