import GrammarSampler.Json.Basic
import GrammarSampler.Number.Read

/-!
Reading JSON. Beside the standard grammar the names `NaN`, `Infinity` and `-Infinity` are numbers;
a repeated key keeps its first place and its last value; a byte order mark is refused. A whole
number with too many digits ends the reading with a fault of its own. Values may be nested to any
depth.
-/
namespace GrammarSampler.Json

inductive ReadFault where
  | malformed
  | numeral (fault : NumeralFault)
deriving DecidableEq, Repr

abbrev Reading (α : Type) := Except ReadFault (α × List Char)

def isSpace (c : Char) : Bool := c == ' ' || c == '\t' || c == '\n' || c == '\r'

def skip (cs : List Char) : List Char := cs.dropWhile isSpace

def hexValue? (c : Char) : Option Nat :=
  if '0' ≤ c ∧ c ≤ '9' then some (c.toNat - '0'.toNat)
  else if 'a' ≤ c ∧ c ≤ 'f' then some (c.toNat - 'a'.toNat + 10)
  else if 'A' ≤ c ∧ c ≤ 'F' then some (c.toNat - 'A'.toNat + 10)
  else none

def unit? : List Char → Option (Nat × List Char)
  | a :: b :: c :: d :: rest => do
    let a ← hexValue? a
    let b ← hexValue? b
    let c ← hexValue? c
    let d ← hexValue? d
    some (a * 4096 + b * 256 + c * 16 + d, rest)
  | _ => none

def isHighSurrogate (n : Nat) : Bool := decide (0xD800 ≤ n ∧ n < 0xDC00)

def isLowSurrogate (n : Nat) : Bool := decide (0xDC00 ≤ n ∧ n < 0xE000)

/-- What an escape stands for, after the backslash; two units may form one character. -/
def escape? : List Char → Option (CodePoint × List Char)
  | '"' :: cs => some (.char '"', cs)
  | '\\' :: cs => some (.char '\\', cs)
  | '/' :: cs => some (.char '/', cs)
  | 'b' :: cs => some (.char '\x08', cs)
  | 'f' :: cs => some (.char '\x0c', cs)
  | 'n' :: cs => some (.char '\n', cs)
  | 'r' :: cs => some (.char '\r', cs)
  | 't' :: cs => some (.char '\t', cs)
  | 'u' :: cs => do
    let (high, rest) ← unit? cs
    if isHighSurrogate high then
      match rest with
      | '\\' :: 'u' :: more =>
        match unit? more with
        | some (low, after) =>
          if isLowSurrogate low then
            some (.char (Char.ofNat (0x10000 + (high - 0xD800) * 1024 + (low - 0xDC00))), after)
          else some (.ofNat high, rest)
        | none => some (.ofNat high, rest)
      | _ => some (.ofNat high, rest)
    else some (.ofNat high, rest)
  | _ => none

/-- The code points of a text after its opening quote. Controls must be escaped. -/
def textBody : Nat → Points → List Char → Reading Points
  | 0, _, _ => .error .malformed
  | _ + 1, _, [] => .error .malformed
  | fuel + 1, read, c :: cs =>
    if c = '"' then .ok (read.reverse, cs)
    else if c = '\\' then
      match escape? cs with
      | some (e, rest) => textBody fuel (e :: read) rest
      | none => .error .malformed
    else if c.toNat < 0x20 then .error .malformed
    else textBody fuel (.char c :: read) cs

def digits (cs : List Char) : List Char × List Char := (cs.takeWhile Char.isDigit, cs.dropWhile Char.isDigit)

def digitValues (ds : List Char) : List Nat := ds.map fun d => d.toNat - '0'.toNat

def decimalValue (ds : List Char) : Nat := Numeral.ofDigits (digitValues ds)

/-- A fraction needs a digit after the point; without one the point is not part of the number. -/
def fraction (cs : List Char) : List Char × List Char :=
  match cs with
  | '.' :: rest =>
    match digits rest with
    | ([], _) => ([], cs)
    | found => found
  | _ => ([], cs)

def exponent (cs : List Char) : Option Int × List Char :=
  match cs with
  | c :: rest =>
    if c = 'e' ∨ c = 'E' then
      let (negative, body) := Numeral.sign rest
      match digits body with
      | ([], _) => (none, cs)
      | (ds, after) => (some (Numeral.signed negative (decimalValue ds)), after)
    else (none, cs)
  | [] => (none, cs)

def wholePart : List Char → List Char × List Char
  | '0' :: rest => (['0'], rest)
  | cs => digits cs

def numeral (negative : Bool) (cs : List Char) : Reading Number :=
  match wholePart cs with
  | ([], _) => .error .malformed
  | (ds, rest) =>
    let (part, rest) := fraction rest
    let (power, rest) := exponent rest
    if part = [] ∧ power = none then
      ((Numeral.limited? (digitValues ds)).mapError ReadFault.numeral).map fun n =>
        (.int (Numeral.signed negative n), rest)
    else
      let scale : Int := power.getD 0 - part.length
      .ok (.float (Numeral.nearestFloat negative (decimalValue (ds ++ part)) scale), rest)

def dropWord? : List Char → List Char → Option (List Char)
  | [], cs => some cs
  | _ :: _, [] => none
  | w :: ws, c :: cs => if w = c then dropWord? ws cs else none

def words : List (String × Json Points) := [
  ("null", .null), ("true", .number (.truth true)), ("false", .number (.truth false)),
  ("NaN", .number (.float (0.0 / 0.0))), ("Infinity", .number (.float (1.0 / 0.0))),
  ("-Infinity", .number (.float (-(1.0 / 0.0))))]

def scalar (cs : List Char) : Reading (Json Points) :=
  match words.findSome? fun (word, value) => (dropWord? word.toList cs).map fun rest => (value, rest) with
  | some found => .ok found
  | none =>
    match cs with
    | '-' :: rest => (numeral true rest).map fun (n, rest) => (.number n, rest)
    | _ => (numeral false cs).map fun (n, rest) => (.number n, rest)

mutual
def value : Nat → List Char → Reading (Json Points)
  | 0, _ => .error .malformed
  | fuel + 1, cs =>
    match cs with
    | '"' :: rest => (textBody (fuel + 1) [] rest).map fun (s, rest) => (.text s, rest)
    | '[' :: rest =>
      match skip rest with
      | ']' :: after => .ok (.list [], after)
      | body => items fuel [] body
    | '\x7b' :: rest =>
      match skip rest with
      | '\x7d' :: after => .ok (.object [], after)
      | body => members fuel [] body
    | _ => scalar cs

def items : Nat → List (Json Points) → List Char → Reading (Json Points)
  | 0, _, _ => .error .malformed
  | fuel + 1, read, cs =>
    match value fuel cs with
    | .error fault => .error fault
    | .ok (item, rest) =>
      match skip rest with
      | ',' :: more => items fuel (item :: read) (skip more)
      | ']' :: after => .ok (.list (item :: read).reverse, after)
      | _ => .error .malformed

def members : Nat → Entries (Json Points) Points → List Char → Reading (Json Points)
  | 0, _, _ => .error .malformed
  | fuel + 1, read, cs =>
    match cs with
    | '"' :: body =>
      match textBody (fuel + 1) [] body with
      | .error fault => .error fault
      | .ok (key, rest) =>
        match skip rest with
        | ':' :: rest =>
          match value fuel (skip rest) with
          | .error fault => .error fault
          | .ok (item, rest) =>
            match skip rest with
            | ',' :: more => members fuel ((key, item) :: read) (skip more)
            | '\x7d' :: after => .ok (.object (Entries.ofPairs ((key, item) :: read).reverse), after)
            | _ => .error .malformed
        | _ => .error .malformed
    | _ => .error .malformed
end

/-- A whole document; at most two calls per character are needed. -/
def read? (text : String) : Except ReadFault (Json Points) := do
  let cs := text.toList
  let (document, rest) ← value (2 * cs.length + 2) (skip cs)
  if (skip rest).isEmpty then return document else .error .malformed

/-- A document whose texts are strings: the replacement character stands for a surrogate that has no
partner. -/
def parse? (text : String) : Except ReadFault Json := (read? text).map shown

end GrammarSampler.Json
