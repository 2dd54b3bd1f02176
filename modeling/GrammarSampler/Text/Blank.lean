/-!
White space as grammar texts and numerals see it: separators and controls that end a line or a
field, in every script.
-/
namespace GrammarSampler

def isBlank (c : Char) : Bool :=
  let code := c.toNat
  decide (9 ≤ code ∧ code ≤ 13) || decide (28 ≤ code ∧ code ≤ 32) || code == 0x85 || code == 0xA0 ||
    code == 0x1680 || decide (0x2000 ≤ code ∧ code ≤ 0x200A) || code == 0x2028 || code == 0x2029 ||
    code == 0x202F || code == 0x205F || code == 0x3000

def stripWhere (drop : Char → Bool) (cs : List Char) : List Char :=
  ((cs.dropWhile drop).reverse.dropWhile drop).reverse

def strip (cs : List Char) : List Char := stripWhere isBlank cs

def wordsFrom (begun : List Char) : List Char → List (List Char)
  | [] => if begun.isEmpty then [] else [begun.reverse]
  | c :: cs =>
    if isBlank c then (if begun.isEmpty then [] else [begun.reverse]) ++ wordsFrom [] cs
    else wordsFrom (c :: begun) cs

def words (cs : List Char) : List String := (wordsFrom [] cs).map String.ofList

end GrammarSampler
