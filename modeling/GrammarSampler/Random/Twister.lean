/-!
The 32-bit twister with a period of 2 ^ 19937 - 1, seeded from a list of words, and the
uniform draws of 53 bits made from two of its outputs.
-/
namespace GrammarSampler

attribute [local instance (2000)] instPowNat

structure Twister where
  words : Array UInt32
  index : Nat
deriving Repr

namespace Twister

def size : Nat := 624

def word (words : Array UInt32) (i : Nat) : UInt32 := words.getD i 0

def fill (seed : UInt32) : Array UInt32 :=
  (List.range (size - 1)).foldl (fun words i =>
    let last : UInt32 := word words i
    words.push ((1812433253 : UInt32) * (last ^^^ (last >>> 30)) + (i + 1).toUInt32)) #[seed]

structure Cursor where
  words : Array UInt32
  place : Nat
  keyPlace : Nat

def mix (factor : UInt32) (words : Array UInt32) (i : Nat) : UInt32 :=
  let last : UInt32 := word words (i - 1)
  word words i ^^^ ((last ^^^ (last >>> 30)) * factor)

def move (words : Array UInt32) (i : Nat) : Array UInt32 × Nat :=
  if i + 1 < size then (words, i + 1) else (words.setIfInBounds 0 (word words (size - 1)), 1)

def absorb (key : Array UInt32) (c : Cursor) : Cursor :=
  let mixed := mix 1664525 c.words c.place + key.getD c.keyPlace 0 + c.keyPlace.toUInt32
  let (words, place) := move (c.words.setIfInBounds c.place mixed) c.place
  ⟨words, place, if c.keyPlace + 1 < key.size then c.keyPlace + 1 else 0⟩

def scatter (c : Cursor) : Cursor :=
  let mixed := mix 1566083941 c.words c.place - c.place.toUInt32
  let (words, place) := move (c.words.setIfInBounds c.place mixed) c.place
  { c with words := words, place := place }

def repeated {α : Type} (f : α → α) : Nat → α → α
  | 0, a => a
  | n + 1, a => repeated f n (f a)

def ofKey (key : Array UInt32) : Twister :=
  let absorbed := repeated (absorb key) (max size key.size) ⟨fill 19650218, 1, 0⟩
  let scattered := repeated scatter (size - 1) absorbed
  ⟨scattered.words.setIfInBounds 0 0x80000000, size⟩

def digits : Nat → Nat → List UInt32
  | 0, _ => []
  | fuel + 1, n => if n = 0 then [] else n.toUInt32 :: digits fuel (n / 2 ^ (32 : Nat))

/-- The words of the absolute value, one zero word for zero. -/
def keyOf (seed : Int) : List UInt32 :=
  match digits (seed.natAbs + 1).log2.succ seed.natAbs with
  | [] => [0]
  | words => words

def ofSeed (seed : Int) : Twister := ofKey (keyOf seed).toArray

def renewWord (words : Array UInt32) (i : Nat) : Array UInt32 :=
  let joined := (word words i &&& 0x80000000) ||| (word words ((i + 1) % size) &&& 0x7fffffff)
  let twist : UInt32 := if joined &&& 1 = 0 then 0 else 0x9908b0df
  words.setIfInBounds i (word words ((i + 397) % size) ^^^ (joined >>> 1) ^^^ twist)

def renew (words : Array UInt32) : Array UInt32 := (List.range size).foldl renewWord words

def temper (y : UInt32) : UInt32 :=
  let y := y ^^^ (y >>> 11)
  let y := y ^^^ ((y <<< 7) &&& 0x9d2c5680)
  let y := y ^^^ ((y <<< 15) &&& 0xefc60000)
  y ^^^ (y >>> 18)

def next (t : Twister) : UInt32 × Twister :=
  let t : Twister := if t.index < size then t else ⟨renew t.words, 0⟩
  (temper (word t.words t.index), { t with index := t.index + 1 })

/-- A uniform whole number below 2 ^ 53: 27 bits of one output above 26 bits of the next. -/
def bits53 (t : Twister) : Nat × Twister :=
  let (a, t) := t.next
  let (b, t) := t.next
  ((a >>> 5).toNat * 67108864 + (b >>> 6).toNat, t)

def uniform (t : Twister) : Float × Twister :=
  let (n, t) := t.bits53
  (Float.ofNat n / 9007199254740992.0, t)

end Twister
end GrammarSampler
