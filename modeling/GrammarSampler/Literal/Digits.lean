import GrammarSampler.Literal.Token

/-!
Numerals of an expression: whole numbers in several bases, fractions with exponents and imaginary
numbers. Each reading gives what follows the numeral.
-/
namespace GrammarSampler.Literal

/-- A word that may follow a numeral at once begins here. Of some the beginning is enough. -/
def isFollower (cs : List Char) : Bool :=
  (["if", "in", "is"].any fun word => word.toList.isPrefixOf cs) ||
    ["and", "else", "for", "not", "or"].contains (String.ofList (cs.takeWhile continuesWord))

def endNumeral (name : String) (rest : List Char) : Except TokenFault (List Char) :=
  match rest with
  | [] => .ok []
  | c :: _ =>
    if c.toNat < 128 && continuesWord c && !isFollower rest then .error (.numeral name)
    else .ok rest

structure Base where
  name : String
  isDigit : Char → Bool

namespace Base

def decimal : Base := ⟨"decimal", Char.isDigit⟩

def isHexDigit (c : Char) : Bool :=
  c.isDigit || decide ('a' ≤ c ∧ c ≤ 'f') || decide ('A' ≤ c ∧ c ≤ 'F')

def ofChar? : Char → Option Base
  | 'x' | 'X' => some ⟨"hexadecimal", isHexDigit⟩
  | 'o' | 'O' => some ⟨"octal", fun c => decide ('0' ≤ c ∧ c ≤ '7')⟩
  | 'b' | 'B' => some ⟨"binary", fun c => c == '0' || c == '1'⟩
  | _ => none

def fault (b : Base) : List Char → TokenFault
  | c :: _ => if c.isDigit then .digit c b.name else .numeral b.name
  | [] => .numeral b.name

def tail (b : Base) : List Char → Except TokenFault (List Char)
  | [] => .ok []
  | ['_'] => .error (b.fault [])
  | '_' :: c :: rest => if b.isDigit c then b.tail rest else .error (b.fault [c])
  | c :: rest => if b.isDigit c then b.tail rest else .ok (c :: rest)

def numeral (b : Base) (cs : List Char) : Except TokenFault (List Char) := do
  let digits := if cs.head? = some '_' then cs.drop 1 else cs
  match digits with
  | [] => .error (b.fault [])
  | c :: rest =>
    if b.isDigit c then
      let rest ← b.tail rest
      if rest.head?.any Char.isDigit then .error (b.fault rest) else endNumeral b.name rest
    else .error (b.fault [c])

end Base

namespace Decimal

def imaginaryPart : List Char → Except TokenFault (List Char)
  | [] => .ok []
  | c :: rest =>
    if c = 'j' ∨ c = 'J' then endNumeral "imaginary" rest else endNumeral "decimal" (c :: rest)

/-- An exponent needs a digit, else its mark belongs to what follows. -/
def exponent : List Char → Except TokenFault (List Char)
  | mark :: sign :: rest => do
    if mark ≠ 'e' ∧ mark ≠ 'E' then imaginaryPart (mark :: sign :: rest)
    else if sign = '+' ∨ sign = '-' then
      if rest.head?.any Char.isDigit then imaginaryPart (← Base.decimal.tail rest)
      else .error (.numeral "decimal")
    else if sign.isDigit then imaginaryPart (← Base.decimal.tail rest)
    else endNumeral "decimal" (mark :: sign :: rest)
  | cs => imaginaryPart cs

def fraction (cs : List Char) : Except TokenFault (List Char) := do
  if cs.head?.any Char.isDigit then exponent (← Base.decimal.tail cs) else exponent cs

def behindWhole : List Char → Except TokenFault (List Char)
  | '.' :: rest => fraction rest
  | cs => exponent cs

def zeros : List Char → Except TokenFault (List Char)
  | '0' :: rest => zeros rest
  | '_' :: c :: rest =>
    if c = '0' then zeros rest
    else if c.isDigit then .ok (c :: rest)
    else .error (.numeral "decimal")
  | ['_'] => .error (.numeral "decimal")
  | cs => .ok cs

/-- Zeros stand before other digits only where a fraction or an exponent follows. -/
def behindZero (cs : List Char) : Except TokenFault (List Char) := do
  let digits ← zeros cs
  if digits.head?.any Char.isDigit then
    let rest ← Base.decimal.tail digits
    if rest.head?.any fun c => ".eEjJ".toList.contains c then behindWhole rest
    else .error .leadingZero
  else behindWhole digits

end Decimal

def behindNumeral (first : Char) (rest : List Char) : Except TokenFault (List Char) := do
  if first = '.' then Decimal.fraction rest
  else if first = '0' then
    match rest.head? >>= Base.ofChar? with
    | some base => base.numeral (rest.drop 1)
    | none => Decimal.behindZero rest
  else Decimal.behindWhole (← Base.decimal.tail rest)

end GrammarSampler.Literal
