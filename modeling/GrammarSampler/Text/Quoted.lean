import GrammarSampler.Text.CodePoint
import GrammarSampler.Text.Printable

/-!
Texts between quotes. Single quotes stand unless the text has one and no double quote; the quote,
the backslash and all characters that do not print are escaped.
-/
namespace GrammarSampler.Quoted

def hexDigits (width : Nat) (n : Nat) : List Char :=
  let digits := Nat.toDigits 16 n
  List.replicate (width - digits.length) '0' ++ digits

def escape (quote c : Char) : List Char :=
  if c = quote ∨ c = '\\' then ['\\', c]
  else if c = '\n' then ['\\', 'n']
  else if c = '\r' then ['\\', 'r']
  else if c = '\t' then ['\\', 't']
  else if Printable.isPrintable c then [c]
  else if c.toNat < 0x100 then '\\' :: 'x' :: hexDigits 2 c.toNat
  else if c.toNat < 0x10000 then '\\' :: 'u' :: hexDigits 4 c.toNat
  else '\\' :: 'U' :: hexDigits 8 c.toNat

def quoteFor (cs : List Char) : Char :=
  if '\'' ∈ cs ∧ '"' ∉ cs then '"' else '\''

def encode (cs : List Char) : List Char :=
  let quote := quoteFor cs
  quote :: (cs.flatMap (escape quote) ++ [quote])

def text (s : String) : String := String.ofList (encode s.toList)

def escapePoint (quote : Char) : CodePoint → List Char
  | .char c => escape quote c
  | .surrogate index => '\\' :: 'u' :: hexDigits 4 (CodePoint.surrogateNumber index)

def points (ps : Points) : String :=
  let quote := quoteFor (ps.map CodePoint.shown)
  String.ofList (quote :: (ps.flatMap (escapePoint quote) ++ [quote]))

end GrammarSampler.Quoted
