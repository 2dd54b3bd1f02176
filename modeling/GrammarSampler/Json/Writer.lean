import GrammarSampler.Json.Basic

/-!
Writing JSON in ASCII: other characters are escaped as units of sixteen bits. A document is either
on one line or indented by a number of blanks per level.
-/
namespace GrammarSampler.Json
variable {τ : Type} [Spelling τ]

def unitEscape (n : Nat) : List Char := '\\' :: 'u' :: Quoted.hexDigits 4 n

def escapeChar (c : Char) : List Char :=
  if c = '"' then ['\\', '"']
  else if c = '\\' then ['\\', '\\']
  else if c = '\n' then ['\\', 'n']
  else if c = '\r' then ['\\', 'r']
  else if c = '\t' then ['\\', 't']
  else if c = '\x08' then ['\\', 'b']
  else if c = '\x0c' then ['\\', 'f']
  else if 0x20 ≤ c.toNat ∧ c.toNat < 0x7F then [c]
  else if c.toNat < 0x10000 then unitEscape c.toNat
  else
    let offset := c.toNat - 0x10000
    unitEscape (0xD800 + offset / 1024) ++ unitEscape (0xDC00 + offset % 1024)

def escapePoint : CodePoint → List Char
  | .char c => escapeChar c
  | .surrogate index => unitEscape (CodePoint.surrogateNumber index)

def quote (s : τ) : String :=
  String.ofList ('"' :: ((Spelling.points s).flatMap escapePoint ++ ['"']))

def writeNumber : Number → String
  | .int n => toString n
  | .truth b => if b then "true" else "false"
  | .float x =>
    match ExactValue.ofFloat x with
    | .notANumber => "NaN"
    | .infinite negative => if negative then "-Infinity" else "Infinity"
    | .finite .. => floatText x

def lineBreak (indent : Option Nat) (level : Nat) : String :=
  match indent with
  | none => ""
  | some width => String.ofList ('\n' :: List.replicate (width * level) ' ')

def enclose (opening closing : String) (indent : Option Nat) (level : Nat) (parts : List String) : String :=
  match parts with
  | [] => opening ++ closing
  | _ =>
    let inner := lineBreak indent (level + 1)
    let comma := if indent.isNone then ", " else ","
    opening ++ inner ++ (comma ++ inner).intercalate parts ++ lineBreak indent level ++ closing

mutual
def writeAt (indent : Option Nat) (level : Nat) : Json τ → String
  | null => "null"
  | number n => writeNumber n
  | text s => quote s
  | list items => enclose "[" "]" indent level (writeItems indent (level + 1) items)
  | object members => enclose "\x7b" "\x7d" indent level (writeMembers indent (level + 1) members)

def writeItems (indent : Option Nat) (level : Nat) : List (Json τ) → List String
  | [] => []
  | item :: rest => writeAt indent level item :: writeItems indent level rest

def writeMembers (indent : Option Nat) (level : Nat) : List (τ × Json τ) → List String
  | [] => []
  | (key, value) :: rest =>
    (quote key ++ ": " ++ writeAt indent level value) :: writeMembers indent level rest
end

def oneLine (value : Json τ) : String := value.writeAt none 0

def document (value : Json τ) : String := value.writeAt (some 2) 0

end GrammarSampler.Json
