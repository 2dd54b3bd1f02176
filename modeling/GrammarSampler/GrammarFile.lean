import GrammarSampler.Dictionary.Load
import GrammarSampler.Files.Basic
import GrammarSampler.GrammarText.Parse
import GrammarSampler.Json.Reader

/-!
Grammar files: a JSON file holds a dictionary grammar, any other file a grammar text. A start that
is asked for overrides that of the file; an empty one asks for nothing.
-/
namespace GrammarSampler.GrammarFile

def isJson (path : String) : Bool := Lowercase.lower (Path.suffix path) == ".json"

/-- Rules built with a start of any kind. Only a text can name a rule, and a list or an object
cannot even be looked up. -/
def buildAt (rules : Rules) (start : Json) : Report Fault Grammar :=
  match start with
  | .text name => Grammar.build rules name
  | .list _ | .object _ => .fail .wrongKind
  | value => .fail (.grammar (.startNotName value))

def buildParse (p : GrammarText.Parse) (asked : Json) : Report Fault Grammar :=
  if asked.isTruthy then buildAt p.rules asked else p.build none

def ofText (text : String) (asked : Json) : Report Fault Grammar :=
  (GrammarText.parse text).report.bind fun p => buildParse p asked

def ofObject (members : Entries Json) (asked : Json) : Report Fault Grammar :=
  let standard := Json.text Dictionary.startKey
  match members.get? "rules" with
  | some (.object rules) =>
    let own := (members.get? "start").getD standard
    Dictionary.load rules (if asked.isTruthy then asked else own)
  | _ => Dictionary.load members (if asked.isTruthy then asked else standard)

def ofJson (path text : String) (asked : Json) : Report Fault Grammar :=
  match Json.parse? text with
  | .error .malformed => .fail (.grammar (.form (.invalidJson path)))
  | .error (.numeral fault) => .fail (.numeral fault)
  | .ok (.object members) => ofObject members asked
  | .ok _ => .fail (.grammar (.form (.notAnObject path)))

def loadingNotice (path : String) : Notice :=
  ⟨.info, Channel.loader, "Loading grammar from " ++ path⟩

def ofContent (path : String) (content : Except FileFault String) (asked : Json) : Report Fault Grammar := do
  let text ← Report.ofExcept (content.mapError .file)
  Report.noteAll [loadingNotice path]
  if isJson path then ofJson path text asked else ofText text asked

def homeFault (path : String) : Fault :=
  match Path.splitAccount? (Path.tidy path) with
  | some (name, _) => if '\x00' ∈ name.toList then .file .zeroInPath else .homeUnknown
  | none => .homeUnknown

variable {m : Type → Type} [Monad m] [FileAccess m]

def load (path : String) (asked : Json) : m (Report Fault Grammar) := do
  match Path.locate? (← FileAccess.homes) path with
  | none => return .fail (homeFault path)
  | some place => return ofContent place (← FileAccess.readText place) asked

end GrammarSampler.GrammarFile
