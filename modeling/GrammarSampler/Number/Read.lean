import GrammarSampler.Text.Blank
import GrammarSampler.Text.DecimalDigit
import GrammarSampler.Text.Quoted
import GrammarSampler.Number.Basic

/-!
Numerals. White space may surround them, an underscore may stand between two digits, and the
digits may be of any script. Whole numbers have a limit on their digits, floats have none.
-/
namespace GrammarSampler

/-- Why a text is not read as a number: it is no whole number, one of too many digits, or no number
at all. -/
inductive NumeralFault where
  | malformed (quoted : String)
  | tooManyDigits (count : Nat)
  | notANumber (text : String)
deriving DecidableEq, Repr

namespace Numeral

def digitLimit : Nat := 4300

end Numeral

namespace NumeralFault

/-- A malformed text is shown quoted, but not beyond this length. -/
def shownLength : Nat := 200

def message : NumeralFault → String
  | malformed quoted =>
    "invalid literal for int() with base 10: " ++ String.ofList (quoted.toList.take shownLength)
  | tooManyDigits count =>
    "Exceeds the limit (" ++ toString Numeral.digitLimit ++ " digits) for integer string conversion: " ++
      "value has " ++ toString count ++ " digits; use sys.set_int_max_str_digits() to increase the limit"
  | notANumber text => "could not convert string to float: " ++ Quoted.text text

end NumeralFault

namespace Numeral

/-- White space that may surround a numeral; the four ASCII separators are no part of it. -/
def isMargin (c : Char) : Bool := isBlank c && !decide (28 ≤ c.toNat ∧ c.toNat ≤ 31)

def trim (text : List Char) : List Char := stripWhere isMargin text

def sign : List Char → Bool × List Char
  | '-' :: cs => (true, cs)
  | '+' :: cs => (false, cs)
  | cs => (false, cs)

/-- The digits at the front of a text, behind those that are read already, the last one first. An
underscore needs a digit on both sides. -/
def digitRun (read : List Nat) : List Char → List Nat × List Char
  | [] => (read.reverse, [])
  | c :: cs =>
    match DecimalDigit.value? c with
    | some d => digitRun (d :: read) cs
    | none =>
      if c = '_' ∧ read ≠ [] then
        match cs with
        | [] => (read.reverse, [c])
        | next :: rest =>
          match DecimalDigit.value? next with
          | some d => digitRun (d :: read) rest
          | none => (read.reverse, c :: next :: rest)
      else (read.reverse, c :: cs)

def ofDigits (ds : List Nat) : Nat := ds.foldl (10 * · + ·) 0

def signed (negative : Bool) (n : Nat) : Int := if negative then -n else n

def limited? (ds : List Nat) : Except NumeralFault Nat :=
  if digitLimit < ds.length then .error (.tooManyDigits ds.length) else .ok (ofDigits ds)

/-- A whole number in base ten. An underscore out of place is seen before the digits are counted,
anything else that follows them only after that. -/
def int? (text : List Char) (quoted : String := Quoted.text (String.ofList text)) :
    Except NumeralFault Int := do
  let malformed := NumeralFault.malformed quoted
  let (negative, body) := sign (trim text)
  match digitRun [] body with
  | ([], _) | (_, '_' :: _) => .error malformed
  | (ds, rest) =>
    let n ← limited? ds
    if rest.isEmpty then return signed negative n else .error malformed

/-- `digits * 10 ^ exponent` as the nearest binary64; far outside its range, infinity or zero. -/
def nearestFloat (negative : Bool) (digits : Nat) (exponent : Int) : Float :=
  let count : Int := (Nat.toDigits 10 digits).length
  let size :=
    if digits = 0 ∨ exponent + count < -330 then 0.0
    else if 320 < exponent + count then 1.0 / 0.0
    else if 0 ≤ exponent then Float.ofScientific digits false exponent.toNat
    else Float.ofScientific digits true (-exponent).toNat
  if negative then -size else size

def exponentPart : List Char → Option Int
  | [] => some 0
  | c :: cs =>
    if c = 'e' ∨ c = 'E' then
      let (negative, body) := sign cs
      match digitRun [] body with
      | ([], _) => none
      | (ds, []) => some (signed negative (ofDigits ds))
      | _ => none
    else none

def float? (text : List Char) : Option Float :=
  let (negative, body) := sign (trim text)
  let name := String.ofList (body.map Char.toLower)
  if name = "inf" ∨ name = "infinity" then some (if negative then -(1.0 / 0.0) else 1.0 / 0.0)
  else if name = "nan" then some (0.0 / 0.0)
  else
    let (whole, rest) := digitRun [] body
    let (fraction, rest) :=
      match rest with
      | '.' :: cs => digitRun [] cs
      | cs => ([], cs)
    if whole = [] ∧ fraction = [] then none
    else
      (exponentPart rest).map fun e =>
        nearestFloat negative (ofDigits (whole ++ fraction)) (e - fraction.length)

def number? (text : String) : Except NumeralFault Number :=
  match int? text.toList with
  | .ok n => .ok (.int n)
  | .error _ =>
    match float? text.toList with
    | some x => .ok (.float x)
    | none => .error (.notANumber text)

end Numeral
end GrammarSampler
