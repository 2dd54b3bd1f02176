import GrammarSampler.Number.Basic
import GrammarSampler.Random.Digest

/-!
The whole numbers that other seeds stand for: a text is its bytes followed by their digest, and a
float is its hash, the remainder by a prime of the number that it is.
-/
namespace GrammarSampler.Seed

attribute [local instance (2000)] instPowNat

def modulus : Nat := 2 ^ (61 : Nat) - 1

def infinityHash : Nat := 314159

def finiteHash (significand : Nat) (exponent : Int) : Nat :=
  significand * 2 ^ (exponent % 61).toNat % modulus

/-- A hash of -1 is -2, and a hash below zero is read as a word of 64 bits. -/
def word (negative : Bool) (hash : Nat) : Nat :=
  if negative && hash != 0 then 2 ^ (64 : Nat) - (if hash = 1 then 2 else hash) else hash

/-- Nothing is known of the hash of a value that is not a number. -/
def ofFloat? (x : Float) : Option Int :=
  match ExactValue.ofFloat x with
  | .notANumber => none
  | .infinite negative => some (word negative infinityHash)
  | .finite negative significand exponent => some (word negative (finiteHash significand exponent))

def ofNumber? (n : Number) : Option Int :=
  match n.split with
  | .inl k => some k
  | .inr x => ofFloat? x

def ofText? (ps : Points) : Except EncodingFault Int := do
  let bytes := (← ps.toUTF8?).toList.map UInt8.toNat
  return Digest.ofDigits 256 bytes * Digest.bound + Digest.digest bytes

end GrammarSampler.Seed
