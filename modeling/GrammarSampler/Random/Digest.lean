import GrammarSampler.Text.CodePoint

/-!
The digest of 512 bits (SHA-512) that a seed is extended by when it is a text. Its constants are the
fractions of roots of the first primes.
-/
namespace GrammarSampler.Digest

attribute [local instance (2000)] instPowNat

/-- The greatest number whose power by `k` is at most `n`, bit by bit from the highest one on. -/
def root (k n : Nat) : Nat → Nat → Nat
  | 0, found => found
  | bit + 1, found =>
    let next := found + 2 ^ bit
    root k n bit (if next ^ k ≤ n then next else found)

def isPrime (n : Nat) : Bool := decide (2 ≤ n) && (List.range n).all fun d => d < 2 || n % d != 0

def primes : List Nat := (List.range 410).filter isPrime

def fraction (k prime : Nat) : UInt64 := UInt64.ofNat (root k (prime * 2 ^ (64 * k)) 70 0)

def roundConstants : List UInt64 := primes.map (fraction 3)

structure State where
  a : UInt64
  b : UInt64
  c : UInt64
  d : UInt64
  e : UInt64
  f : UInt64
  g : UInt64
  h : UInt64

def initial : State :=
  let word (i : Nat) : UInt64 := fraction 2 (primes.getD i 0)
  ⟨word 0, word 1, word 2, word 3, word 4, word 5, word 6, word 7⟩

def rotate (x n : UInt64) : UInt64 := (x >>> n) ||| (x <<< (64 - n))

def choice (x y z : UInt64) : UInt64 := (x &&& y) ^^^ (~~~x &&& z)

def majority (x y z : UInt64) : UInt64 := (x &&& y) ^^^ (x &&& z) ^^^ (y &&& z)

def round (s : State) (word : UInt64) : State :=
  let one := s.h + (rotate s.e 14 ^^^ rotate s.e 18 ^^^ rotate s.e 41) + choice s.e s.f s.g + word
  let two := (rotate s.a 28 ^^^ rotate s.a 34 ^^^ rotate s.a 39) + majority s.a s.b s.c
  ⟨one + two, s.a, s.b, s.c, s.d + one, s.e, s.f, s.g⟩

def extend (words : Array UInt64) : Array UInt64 :=
  let back (n : Nat) : UInt64 := words.getD (words.size - n) 0
  let near := rotate (back 2) 19 ^^^ rotate (back 2) 61 ^^^ (back 2 >>> 6)
  let far := rotate (back 15) 1 ^^^ rotate (back 15) 8 ^^^ (back 15 >>> 7)
  words.push (near + back 7 + far + back 16)

def schedule (block : List UInt64) : List UInt64 :=
  ((List.range 64).foldl (fun words _ => extend words) block.toArray).toList

def absorb (s : State) (block : List UInt64) : State :=
  let t := (List.zipWith (· + ·) (schedule block) roundConstants).foldl round s
  ⟨s.a + t.a, s.b + t.b, s.c + t.c, s.d + t.d, s.e + t.e, s.f + t.f, s.g + t.g, s.h + t.h⟩

def ofDigits (base : Nat) (digits : List Nat) : Nat := digits.foldl (fun n d => n * base + d) 0

def pieces {α : Type} (length : Nat) : Nat → List α → List (List α)
  | 0, _ => []
  | count + 1, items => items.take length :: pieces length count (items.drop length)

/-- Whole blocks: the bytes, one bit, zeros, and the number of bits in sixteen bytes. -/
def pad (bytes : List Nat) : List Nat :=
  let zeros := (239 - bytes.length % 128) % 128
  let size := (List.range 16).map fun i => bytes.length * 8 / 256 ^ (15 - i) % 256
  bytes ++ 0x80 :: (List.replicate zeros 0 ++ size)

def blocks (padded : List Nat) : List (List UInt64) :=
  let words := (pieces 8 (padded.length / 8) padded).map fun bytes => UInt64.ofNat (ofDigits 256 bytes)
  pieces 16 (words.length / 16) words

def bound : Nat := 2 ^ (512 : Nat)

def digest (bytes : List Nat) : Nat :=
  let s := (blocks (pad bytes)).foldl absorb initial
  ofDigits (2 ^ (64 : Nat)) ([s.a, s.b, s.c, s.d, s.e, s.f, s.g, s.h].map UInt64.toNat)

end GrammarSampler.Digest
