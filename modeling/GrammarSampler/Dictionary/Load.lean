import GrammarSampler.Dictionary.Flattening
import GrammarSampler.Grammar.Basic

/-!
Dictionary grammars: an object from names to lists of alternatives. An alternative is a text, or a
pair of a text and an object of options, of which only the weight is used.
-/
namespace GrammarSampler.Dictionary

def startKey : String := "<start>"

def alternatives? (key : String) : Json → Except Fault (List Json)
  | .text _ => .error (.grammar (.form (.textForList key)))
  | .list items => .ok items
  | .object members => .ok (members.map fun (name, _) => .text name)
  | _ => .error .wrongKind

def unknownOptions (options : Entries Json) : List String :=
  (options.keys.filter (· != "weight")).mergeSort fun a b => decide (a ≤ b)

def optionNotices (key : String) (options : Entries Json) : List Notice :=
  match unknownOptions options with
  | [] => []
  | unknown =>
    [⟨.warning, Channel.dictionary,
      "Ignoring unknown options for " ++ key ++ ": " ++ ", ".intercalate unknown⟩]

def weight? (key : String) (options : Entries Json) : Except Fault (Option Number) :=
  match options.get? "weight" with
  | none | some .null => .ok none
  | some (.number n) => .ok (some n)
  | some value => .error (.grammar (.form (.weightNotNumber key value)))

def alternative (key : String) : Json → Report Fault (List Char × Option Number)
  | .text text => .pure (text.toList, none)
  | .list [.text text, .object options] => do
    Report.noteAll (optionNotices key options)
    let weight ← Report.ofExcept (weight? key options)
    return (text.toList, weight)
  | value => .fail (.grammar (.form (.alternative key value)))

def allAlternatives (key : String) : List Json → Report Fault (List (List Char × Option Number))
  | [] => .pure []
  | value :: rest => do
    let first ← alternative key value
    let later ← allAlternatives key rest
    return first :: later

def entries : Entries Json → Report Fault (List Pending)
  | [] => .pure []
  | (key, value) :: rest => do
    let items ← Report.ofExcept (alternatives? key value)
    let alternatives ← allAlternatives key items
    let later ← entries rest
    return ⟨bareName key, alternatives⟩ :: later

def convertedNotice (rules : Rules) : Notice :=
  ⟨.debug, Channel.dictionary, "Converted dictionary grammar to " ++ toString rules.length ++ " rules"⟩

/-- All keys are taken as names before the first rule is made. -/
def rules (members : Entries Json) : Report Fault Rules := do
  let pending ← entries members
  let r ← Report.ofExcept (drain rounds ⟨members.keys.map bareName, [], pending⟩)
  Report.noteAll [convertedNotice r.rules]
  return r.rules

def startName? : Json → Except Fault String
  | .text name => .ok (bareName name)
  | _ => .error .noOperation

/-- The start is looked at only when the rules are made. -/
def load (members : Entries Json) (start : Json) : Report Fault Grammar := do
  let rules ← Dictionary.rules members
  let name ← Report.ofExcept (startName? start)
  Grammar.build rules name

end GrammarSampler.Dictionary
