import GrammarSampler.Tags.Palette
import GrammarSampler.Number.Read
import GrammarSampler.Text.Lowercase

/-!
Styles by name. A name lists attributes, some of which have a short form, a colour, a colour behind
the text and a link. Styles of the same effect have the same normal name. A colour mixed of parts
that are no numerals is a fault; any other word that means nothing only makes a name that of no style.
-/
namespace GrammarSampler

/-- What a style sets. Of two entries for one attribute the first counts; it may forbid it. -/
structure Style where
  attributes : List (String × Bool)
  color : Option String
  background : Option String
  link : Option String
deriving DecidableEq, Repr

namespace Style

def plain : Style := ⟨[], none, none, none⟩

def attributeForms : List (String × List String) := [
  ("bold", ["b"]), ("dim", ["d"]), ("italic", ["i"]), ("underline", ["u"]), ("blink", []),
  ("blink2", []), ("reverse", ["r"]), ("conceal", ["c"]), ("strike", ["s"]), ("underline2", ["uu"]),
  ("frame", []), ("encircle", []), ("overline", ["o"])]

def attribute? (word : String) : Option String :=
  (attributeForms.find? fun (name, forms) => word = name ∨ word ∈ forms).map Prod.fst

def isHexDigit (c : Char) : Bool := c.isDigit || decide ('a' ≤ c ∧ c ≤ 'f')

def inside? (opening word : List Char) : Option (List Char) :=
  if opening.isPrefixOf word && word.getLast? == some ')' then
    some (word.drop opening.length).dropLast
  else none

def isByte (cs : List Char) : Bool :=
  decide (1 ≤ cs.length ∧ cs.length ≤ 3) && cs.all Char.isDigit &&
    decide ((String.ofList cs).toNat?.getD 0 ≤ 255)

def mixture? (word : List Char) : Option (List String) := do
  let parts ← inside? "rgb(".toList word
  if !parts.isEmpty && parts.all fun c => c == ',' || (DecimalDigit.value? c).isSome then
    some ((String.ofList parts).splitOn ",")
  else none

def isPlainColor (word : String) : Bool :=
  let cs := word.toList
  word == "default" || decide (word ∈ Palette.names) ||
    (cs.head? == some '#' && cs.length == 7 && (cs.drop 1).all isHexDigit) ||
    (inside? "color(".toList cs).any isByte

def isColor? (word : String) : Except NumeralFault Bool :=
  match mixture? word.toList with
  | some [red, green, blue] => do
    let parts ← [red, green, blue].mapM fun part => Numeral.int? part.toList
    return parts.all fun part => decide (part ≤ 255)
  | _ => .ok (isPlainColor word)

def read? (s : Style) : List String → Except NumeralFault (Option Style)
  | [] => .ok (some s)
  | word :: rest =>
    match Lowercase.lower word, rest with
    | "on", color :: rest => do
      let color := Lowercase.lower color
      if ← isColor? color then read? { s with background := some color } rest else return none
    | "not", word :: rest =>
      match attribute? word with
      | some name => read? { s with attributes := (name, false) :: s.attributes } rest
      | none => .ok none
    | "link", target :: rest => read? { s with link := some target } rest
    | word, rest =>
      match attribute? word with
      | some name => read? { s with attributes := (name, true) :: s.attributes } rest
      | none => do if ← isColor? word then read? { s with color := some word } rest else return none

def name (s : Style) : String :=
  let attributes := attributeForms.filterMap fun (name, _) =>
    (s.attributes.lookup name).map fun on => if on then name else "not " ++ name
  let words := attributes ++ s.color.toList ++ (s.background.map ("on " ++ ·)).toList ++
    (s.link.map ("link " ++ ·)).toList
  if words.isEmpty then "none" else " ".intercalate words

def ofName? (name : List Char) : Except NumeralFault (Option Style) := plain.read? (words name)

def normalName? (text : List Char) : Except NumeralFault String := do
  match ← ofName? text with
  | some s => return s.name
  | none => return Lowercase.lower (String.ofList (strip text))

end Style
end GrammarSampler
