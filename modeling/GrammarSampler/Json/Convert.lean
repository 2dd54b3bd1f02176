import GrammarSampler.Fault

/-!
JSON values taken as whole numbers, and taken apart.
-/
namespace GrammarSampler.Json
variable {τ : Type}

def kindName : Json τ → String
  | null => "NoneType"
  | number (.int _) => "int"
  | number (.float _) => "float"
  | number (.truth _) => "bool"
  | text _ => "str"
  | list _ => "list"
  | object _ => "dict"

def toInt? [Spelling τ] : Json τ → Except Fault Int
  | number n => n.toInt.mapError .number
  | text s =>
    let ps : Points := Spelling.points s
    (Numeral.int? (ps.map CodePoint.shown) (Quoted.points ps)).mapError .numeral
  | value => .error (.settings (.notConvertible value.kindName))

def parts? [Spelling τ] : Json τ → Except Fault (List (Json τ))
  | list items => .ok items
  | text s => .ok ((Spelling.points s).map fun p => text (Spelling.ofPoints [p]))
  | object members => .ok (members.map fun (name, _) => text name)
  | _ => .error .wrongKind

end GrammarSampler.Json
