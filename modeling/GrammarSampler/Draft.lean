import GrammarSampler.Fault

/-!
Alternatives as a client drafts them: a bare symbol, a sequence of symbols, a finished expansion,
or a value that may turn out to be no alternative at all.
-/
namespace GrammarSampler

inductive DraftItem where
  | symbol (value : Symbol)
  | other (value : Json)
deriving Repr

namespace DraftItem

def symbol? : DraftItem → Except Fault Symbol
  | symbol value => .ok value
  | other value => .error (.notASymbol value.display)

def symbols? (items : List DraftItem) : Except Fault (List Symbol) := items.mapM symbol?

end DraftItem

namespace Expansion

/-- Symbols are checked before the weight, which must be above zero. -/
def ofDraft (items : List DraftItem) (weight : Option Number) : Except Fault Expansion := do
  let symbols ← DraftItem.symbols? items
  match weight with
  | none => .ok ⟨symbols, none⟩
  | some w =>
    if w.isPositive then .ok ⟨symbols, some w⟩
    else .error (.grammar (.weightNotPositive w))

end Expansion

inductive Draft where
  | expansion (value : Expansion)
  | symbol (value : Symbol)
  | sequence (items : List DraftItem)
  | other (value : Json)
deriving Repr

namespace Draft

/-- A text is read as the sequence of its characters and an object as that of its keys; both are
alternatives only when empty. -/
def expansion? : Draft → Except Fault Expansion
  | expansion value => .ok value
  | symbol value => .ok (.unweighted [value])
  | sequence items => Expansion.ofDraft items none
  | other (.text text) =>
    match text.toList with
    | [] => .ok (.unweighted [])
    | c :: _ => .error (.notASymbol (Quoted.text (String.singleton c)))
  | other (.object members) =>
    match members with
    | [] => .ok (.unweighted [])
    | (key, _) :: _ => .error (.notASymbol (Quoted.text key))
  | other (.list items) => Expansion.ofDraft (items.map .other) none
  | other _ => .error .wrongKind

def expansions? (drafts : List Draft) : Except Fault (List Expansion) := drafts.mapM expansion?

end Draft
end GrammarSampler
