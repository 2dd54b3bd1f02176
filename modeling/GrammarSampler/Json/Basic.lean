import GrammarSampler.Entries
import GrammarSampler.Number.Display
import GrammarSampler.Text.Quoted

/-!
JSON values with ordered members and numbers as written; truth values are numbers. Their texts are
strings, or code points where surrogates matter. `display` is the one-line form used in messages.
-/
namespace GrammarSampler

inductive Json (τ : Type := String) where
  | null
  | number (value : Number)
  | text (value : τ)
  | list (items : List (Json τ))
  | object (members : List (τ × Json τ))
deriving Repr

namespace Json
variable {τ υ : Type}

mutual
def mapTexts (f : τ → υ) : Json τ → Json υ
  | null => null
  | number n => number n
  | text s => text (f s)
  | list items => list (mapItems f items)
  | object members => object (mapMembers f members)

def mapItems (f : τ → υ) : List (Json τ) → List (Json υ)
  | [] => []
  | item :: rest => mapTexts f item :: mapItems f rest

def mapMembers (f : τ → υ) : List (τ × Json τ) → List (υ × Json υ)
  | [] => []
  | (key, value) :: rest => (f key, mapTexts f value) :: mapMembers f rest
end

/-- A value whose texts may hold any code points, with the replacement character for surrogates. -/
def shown : Json Points → Json := mapTexts Points.shown

def exact : Json → Json Points := mapTexts Points.ofText

def isTruthy : Json → Bool
  | null => false
  | number n => n.compare? (.int 0) != some .eq
  | text s => s != ""
  | list items => !items.isEmpty
  | object members => !members.isEmpty

mutual
def display [Spelling τ] : Json τ → String
  | null => "None"
  | number n => n.display
  | text s => Quoted.points (Spelling.points s)
  | list items => "[" ++ ", ".intercalate (displayItems items) ++ "]"
  | object members => "\x7b" ++ ", ".intercalate (displayMembers members) ++ "\x7d"

def displayItems [Spelling τ] : List (Json τ) → List String
  | [] => []
  | item :: rest => display item :: displayItems rest

def displayMembers [Spelling τ] : List (τ × Json τ) → List String
  | [] => []
  | (key, value) :: rest => (Quoted.points (Spelling.points key) ++ ": " ++ display value) :: displayMembers rest
end

def displayPlain : Json → String
  | text s => s
  | value => value.display

end Json
end GrammarSampler
