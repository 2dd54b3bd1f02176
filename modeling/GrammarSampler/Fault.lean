import GrammarSampler.Json.Basic
import GrammarSampler.Number.Read
import GrammarSampler.Symbol

/-!
Everything that can go wrong, by cause, and the wording of each cause.
-/
namespace GrammarSampler

/-- Why a line of a grammar text cannot be read. Positions count from the start of the rule body. -/
inductive LineFault where
  | continuationFirst
  | definitionMissing (line : String)
  | ruleUnnamed
  | unexpected (found : Char) (position : Nat)
  | closerMissing (closer : Char)
  | quoteOpen (position : Nat)
  | referenceOpen (position : Nat)
  | referenceEmpty (position : Nat)
deriving DecidableEq, Repr

namespace LineFault

def message : LineFault → String
  | continuationFirst => "continuation before any rule"
  | definitionMissing line => "expected '::=' in " ++ Quoted.text line
  | ruleUnnamed => "rule has no name"
  | unexpected found position =>
    "unexpected " ++ Quoted.text (String.singleton found) ++ " at position " ++ toString position
  | closerMissing closer => "missing " ++ Quoted.text (String.singleton closer)
  | quoteOpen position => "unclosed quote at position " ++ toString position
  | referenceOpen position => "unclosed non-terminal at position " ++ toString position
  | referenceEmpty position => "empty non-terminal at position " ++ toString position

end LineFault

inductive FormFault where
  | line (number : Nat) (fault : LineFault)
  | textForList (key : String)
  | weightNotNumber (key : String) (weight : Json)
  | alternative (key : String) (value : Json)
  | invalidJson (path : String)
  | notAnObject (path : String)
deriving Repr

namespace FormFault

def malformedJson : String := "malformed JSON"

def message : FormFault → String
  | line number fault => "Line " ++ toString number ++ ": " ++ fault.message
  | textForList key => "Alternatives for " ++ key ++ " must be a list, got a string"
  | weightNotNumber key weight =>
    "Weight for " ++ key ++ " must be a number, got " ++ weight.display
  | alternative key value => "Invalid alternative for " ++ key ++ ": " ++ value.display
  | invalidJson path => "Invalid JSON grammar in " ++ path ++ ": " ++ malformedJson
  | notAnObject path => "JSON grammar in " ++ path ++ " must be an object"

def symbol? : FormFault → Option String
  | textForList key | weightNotNumber key _ | alternative key _ => some key
  | _ => none

end FormFault

inductive GrammarFault where
  | noStart (start : String)
  | startNotName (start : Json)
  | noAlternatives (name : String)
  | undefined (rule name : String)
  | weightNotPositive (weight : Number)
  | form (fault : FormFault)
deriving Repr

namespace GrammarFault

def message : GrammarFault → String
  | noStart start => "Start symbol " ++ Symbol.bracketed start ++ " has no rule"
  | startNotName start => "Start symbol " ++ Symbol.bracketed start.displayPlain ++ " has no rule"
  | noAlternatives name => "Nonterminal " ++ Symbol.bracketed name ++ " has no expansions"
  | undefined rule name =>
    Symbol.bracketed rule ++ " references undefined nonterminal " ++ Symbol.bracketed name
  | weightNotPositive weight => "Expansion weight must be positive, got " ++ weight.display
  | form fault => fault.message

def symbol? : GrammarFault → Option String
  | noStart name | noAlternatives name | undefined _ name => some name
  | startNotName _ | weightNotPositive _ => none
  | form fault => fault.symbol?

end GrammarFault

inductive GenerationFault where
  | nonTerminating (name : String)
  | startEmpty (start : String)
  | treeOpen (name : String)
  | stepLimit (limit : Number) (openCount steps : Nat)
deriving Repr

namespace GenerationFault

def message : GenerationFault → String
  | nonTerminating name =>
    "Nonterminal " ++ Symbol.bracketed name ++ " has no terminating derivation"
  | startEmpty start => "Start symbol " ++ Symbol.bracketed start ++ " has no alternatives"
  | treeOpen name => "Cannot materialize tree with open leaf " ++ Symbol.bracketed name
  | stepLimit limit openCount _ =>
    "Generation exceeded " ++ limit.display ++ " steps with " ++ toString openCount ++ " open leaves"

def symbol? : GenerationFault → Option String
  | nonTerminating name | startEmpty name | treeOpen name => some name
  | stepLimit .. => none

end GenerationFault

inductive FileFault where
  | missing (path : String)
  | exists (path : String)
  | notADirectory (path : String)
  | isADirectory (path : String)
  | nameTooLong (path : String)
  | zeroInPath
  | notText
deriving DecidableEq, Repr

namespace FileFault

def message : FileFault → String
  | missing path => "[Errno 2] No such file or directory: " ++ Quoted.text path
  | .exists path => "[Errno 17] File exists: " ++ Quoted.text path
  | notADirectory path => "[Errno 20] Not a directory: " ++ Quoted.text path
  | isADirectory path => "[Errno 21] Is a directory: " ++ Quoted.text path
  | nameTooLong path => "[Errno 36] File name too long: " ++ Quoted.text path
  | zeroInPath => "embedded null byte"
  | notText => "the file does not hold UTF-8 text"

/-- The file could not be reached. A path that can name no file, and content that is no text, are
not of this kind. -/
def isUnreachable : FileFault → Bool
  | zeroInPath | notText => false
  | _ => true

end FileFault

inductive SettingsFault where
  | minimumNegative (minimum : Number)
  | maximumBelowMinimum (maximum minimum : Number)
  | budgetNegative (budget : Number)
  | stepsBelowOne (steps : Number)
  | policyUnknown (shown : String)
  | notComparable (kind : String)
  | notConvertible (kind : String)
deriving Repr

namespace SettingsFault

def message : SettingsFault → String
  | minimumNegative minimum => "min_nonterminals must be >= 0, got " ++ minimum.display
  | maximumBelowMinimum maximum minimum =>
    "max_nonterminals (" ++ maximum.display ++ ") must be >= min_nonterminals (" ++
      minimum.display ++ ")"
  | budgetNegative budget => "exploration_budget must be >= 0, got " ++ budget.display
  | stepsBelowOne steps => "max_steps must be >= 1, got " ++ steps.display
  | policyUnknown shown => shown ++ " is not a valid LeafSelection"
  | notComparable kind => "'<' not supported between instances of '" ++ kind ++ "' and 'int'"
  | notConvertible kind =>
    "int() argument must be a string, a bytes-like object or a real number, not '" ++ kind ++ "'"

end SettingsFault

inductive LookupFault where
  | notSearchable (kind : String)
  | listPosition
  | textPosition
deriving DecidableEq, Repr

namespace LookupFault

def message : LookupFault → String
  | notSearchable kind => "argument of type '" ++ kind ++ "' is not iterable"
  | listPosition => "list indices must be integers or slices, not str"
  | textPosition => "string indices must be integers, not 'str'"

end LookupFault

namespace EncodingFault

def message (fault : EncodingFault) : String :=
  let place :=
    if fault.count = 1 then
      "character " ++ Quoted.points [.surrogate fault.surrogate] ++ " in position " ++
        toString fault.position
    else
      "characters in position " ++ toString fault.position ++ "-" ++
        toString (fault.position + fault.count - 1)
  "'utf-8' codec can't encode " ++ place ++ ": surrogates not allowed"

end EncodingFault

/-- Why a text cannot be shown: its markup is malformed, or what should be a number in it is none. -/
inductive MarkupFault where
  | malformed (message : String)
  | numeral (fault : NumeralFault)
deriving DecidableEq, Repr

namespace MarkupFault

def message : MarkupFault → String
  | malformed text => text
  | numeral fault => fault.message

end MarkupFault

inductive Fault where
  | grammar (fault : GrammarFault)
  | generation (fault : GenerationFault)
  | number (fault : NumberFault)
  | numeral (fault : NumeralFault)
  | settings (fault : SettingsFault)
  | config (message : String)
  | file (fault : FileFault)
  | homeUnknown
  | lookup (fault : LookupFault)
  | encoding (fault : EncodingFault)
  | markup (fault : MarkupFault)
  | notAPair (index length : Nat)
  | missingName (text : String)
  | outOfRange
  | noOpenLeaf
  | noFiniteCost (greatest : Bool)
  | notASymbol (value : String)
  | wrongKind
  | noOperation
  | noAttribute (name : String)
  | unknownOperator (operator : String)
  | unknownLevel (name : String)
  | unknownPhase (value : Json)
  | unfollowedSeed
  | unfinished
deriving Repr

namespace Fault

def message : Fault → String
  | grammar fault => fault.message
  | generation fault => fault.message
  | number fault => fault.message
  | numeral fault => fault.message
  | settings fault => fault.message
  | config text => text
  | file fault => fault.message
  | homeUnknown => "Could not determine home directory."
  | lookup fault => fault.message
  | encoding fault => fault.message
  | markup fault => fault.message
  | notAPair index length =>
    "dictionary update sequence element #" ++ toString index ++ " has length " ++ toString length ++
      "; 2 is required"
  | missingName text => text
  | outOfRange => "list index out of range"
  | noOpenLeaf => "min() arg is an empty sequence"
  | noFiniteCost greatest => (if greatest then "max" else "min") ++ "() arg is an empty sequence"
  | notASymbol value => "Expansion symbols must be Terminal or Nonterminal, got " ++ value
  | wrongKind => "a value of another kind is needed"
  | noOperation => "the value has no such operation"
  | noAttribute name => "'TreefuzzConfig' object has no attribute '" ++ name ++ "'"
  | unknownOperator operator => "Unknown EBNF operator: " ++ Quoted.text operator
  | unknownLevel name => "Unknown level: " ++ Quoted.text name
  | unknownPhase value => value.display ++ " is not a valid Phase"
  | unfollowedSeed => "batches with a fractional seed are not followed"
  | unfinished => "the run did not end within its step bound"

def isGrammarFault : Fault → Bool
  | grammar _ | generation _ => true
  | _ => false

def isUnreachableFile : Fault → Bool
  | file fault => fault.isUnreachable
  | _ => false

end Fault
end GrammarSampler
