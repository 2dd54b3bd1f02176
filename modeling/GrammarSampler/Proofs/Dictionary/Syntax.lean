import GrammarSampler.Dictionary.Load
import GrammarSampler.Proofs.Ebnf.Language

/-!
How the alternatives of a dictionary grammar are written and what they mean. A text is a sequence of
literal characters, names and groups. Operators stand right behind the name or the group that they
belong to and apply from left to right; an operator behind anything else is a literal character.
-/
namespace GrammarSampler.Dictionary
open Ebnf (Times Environment)

inductive Part where
  | literal (c : Char)
  | reference (name : String) (signs : List Times)
  | group (parts : List Part) (first : Times) (more : List Times)

def isPlain (c : Char) : Bool := c != '(' && c != ')' && c != '<' && c != '>'

def IsName (name : String) : Prop :=
  name.toList ≠ [] ∧ ∀ c ∈ name.toList, isPlain c = true ∧ c ≠ ' '

instance (name : String) : Decidable (IsName name) :=
  have := List.decidableBAll (fun c => isPlain c = true ∧ c ≠ ' ') name.toList
  inferInstanceAs (Decidable (name.toList ≠ [] ∧ ∀ c ∈ name.toList, isPlain c = true ∧ c ≠ ' '))

def signChar : Times → Char
  | .optional => '?'
  | .star => '*'
  | .plus => '+'

theorem ofChar?_signChar (times : Times) : Times.ofChar? (signChar times) = some times := by
  cases times <;> rfl

def signed (signs : List Times) (content : Language Char) : Language Char :=
  signs.foldl (fun language times => times.language language) content

namespace Part

def isLiteral : Part → Bool
  | literal _ => true
  | _ => false

def Unsigned : List Part → Prop
  | literal c :: _ => Times.ofChar? c = none
  | _ => True

instance : DecidablePred Unsigned
  | literal c :: _ => inferInstanceAs (Decidable (Times.ofChar? c = none))
  | [] | reference _ _ :: _ | group _ _ _ :: _ => isTrue trivial

mutual
def write : Part → List Char
  | literal c => [c]
  | reference name signs => bracketed name ++ signs.map signChar
  | group parts first more => '(' :: (writeAll parts ++ ')' :: (first :: more).map signChar)

def writeAll : List Part → List Char
  | [] => []
  | part :: rest => write part ++ writeAll rest
end

mutual
def WellFormed : Part → Prop
  | literal c => isPlain c = true
  | reference name _ => IsName name
  | group parts _ _ => parts ≠ [] ∧ AllWellFormed parts

def AllWellFormed : List Part → Prop
  | [] => True
  | part :: rest => WellFormed part ∧ (part.isLiteral = true ∨ Unsigned rest) ∧ AllWellFormed rest
end

mutual
def decideWellFormed : (part : Part) → Decidable part.WellFormed
  | literal c => inferInstanceAs (Decidable (isPlain c = true))
  | reference name _ => inferInstanceAs (Decidable (IsName name))
  | group parts _ _ =>
    have := decideAllWellFormed parts
    inferInstanceAs (Decidable (parts ≠ [] ∧ AllWellFormed parts))

def decideAllWellFormed : (parts : List Part) → Decidable (AllWellFormed parts)
  | [] => isTrue trivial
  | part :: rest =>
    have := decideWellFormed part
    have := decideAllWellFormed rest
    inferInstanceAs (Decidable
      (part.WellFormed ∧ (part.isLiteral = true ∨ Unsigned rest) ∧ AllWellFormed rest))
end

instance (parts : List Part) : Decidable (AllWellFormed parts) := decideAllWellFormed parts

mutual
def language (env : Environment) : Part → Language Char
  | literal c => {[c]}
  | reference name signs => signed signs (env name)
  | group parts first more => signed (first :: more) (languageAll env parts)

def languageAll (env : Environment) : List Part → Language Char
  | [] => 1
  | part :: rest => language env part * languageAll env rest
end

mutual
def names : Part → List String
  | literal _ => []
  | reference name _ => [name]
  | group parts _ _ => namesAll parts

def namesAll : List Part → List String
  | [] => []
  | part :: rest => names part ++ namesAll rest
end

end Part

def WeighsPositive (options : Entries Json) : Prop :=
  match options.get? "weight" with
  | none | some .null => True
  | some (.number n) => n.isPositive = true
  | some _ => False

/-- An alternative is a well-formed text, alone or with options. -/
inductive Spells : Json → List Part → Prop where
  | bare {text : String} {parts : List Part} (written : text.toList = Part.writeAll parts)
      (good : Part.AllWellFormed parts) : Spells (.text text) parts
  | weighted {text : String} {options : Entries Json} {parts : List Part}
      (written : text.toList = Part.writeAll parts) (good : Part.AllWellFormed parts)
      (weight : WeighsPositive options) : Spells (.list [.text text, .object options]) parts

structure Definition where
  name : String
  alternatives : List (List Part)

inductive Defines : String × Json → Definition → Prop where
  | intro {key name : String} {items : List Json} {alternatives : List (List Part)}
      (written : key.toList = bracketed name) (named : IsName name)
      (each : List.Forall₂ Spells items alternatives) :
      Defines (key, .list items) ⟨name, alternatives⟩

def spelled (definitions : List Definition) (env : Environment) (name : String) : Language Char :=
  {w | ∃ d ∈ definitions, d.name = name ∧
    ∃ parts ∈ d.alternatives, w ∈ Part.languageAll env parts}

/-- Languages in which the definitions hold as equations. -/
def Solves (definitions : List Definition) (env : Environment) : Prop :=
  ∀ name, env name = spelled definitions env name

def Closed (definitions : List Definition) : Prop :=
  ∀ d ∈ definitions, ∀ parts ∈ d.alternatives, ∀ name ∈ Part.namesAll parts,
    name ∈ definitions.map Definition.name

instance (definitions : List Definition) : Decidable (Closed definitions) :=
  inferInstanceAs (Decidable (∀ d ∈ definitions, ∀ parts ∈ d.alternatives,
    ∀ name ∈ Part.namesAll parts, name ∈ definitions.map Definition.name))

end GrammarSampler.Dictionary
