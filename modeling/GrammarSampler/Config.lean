import GrammarSampler.Files.Basic
import GrammarSampler.Generation.Settings
import GrammarSampler.Json.Reader
import GrammarSampler.Json.Writer
import GrammarSampler.Random.Seed
import GrammarSampler.Random.Source

/-!
Configurations: named JSON values that start from defaults, are kept in a JSON file and yield the
settings and the random source of a generation. Names and texts are kept by their code points.
-/
namespace GrammarSampler

/-- The store is an object unless another value was put in its place. -/
structure Config where
  store : Json Points
deriving Repr

namespace Config

def defaults : Entries (Json Points) Points := Json.mapMembers Points.ofText [
  ("min_nonterminals", .number (.int 0)),
  ("max_nonterminals", .number (.int 10)),
  ("exploration_budget", .number (.int 1000)),
  ("max_steps", .null),
  ("leaf_selection", .text LeafPolicy.random.text),
  ("seed", .null),
  ("count", .number (.int 10)),
  ("workers", .number (.int 1)),
  ("start", .null),
  ("output_dir", .null),
  ("log_level", .text "INFO"),
  ("log_to_file", .number (.truth true)),
  ("log_file", .text "~/.treefuzz/treefuzz.log")]

def storeName : String := "_data"

def reservedName : String := "self"

def ofValues? (values : Entries (Json Points) Points) : Except Fault Config :=
  if values.any fun (name, _) => name == Points.ofText reservedName then .error .wrongKind
  else .ok ⟨.object (Entries.putAll defaults values)⟩

def standard : Config := ⟨.object defaults⟩

def get? (c : Config) (name : String) (fallback : Json Points) : Except Fault (Json Points) :=
  match c.store with
  | .object members => .ok ((Entries.get? (Points.ofText name) members).getD fallback)
  | _ => .error .noOperation

def isText (name : Points) : Json Points → Bool
  | .text s => s == name
  | _ => false

def contains (part : Points) : Points → Bool
  | [] => part.isEmpty
  | p :: ps => part.isPrefixOf (p :: ps) || contains part ps

/-- The value of a name. In another store than an object a name may be present but has no value. -/
def attribute? (c : Config) (name : String) : Except Fault (Json Points) :=
  if name = storeName then .ok c.store
  else
    match c.store with
    | .object members =>
      match Entries.get? (Points.ofText name) members with
      | some value => .ok value
      | none => .error (.noAttribute name)
    | .list items =>
      .error (if items.any (isText (.ofText name)) then .lookup .listPosition else .noAttribute name)
    | .text s =>
      .error (if contains (.ofText name) s then .lookup .textPosition else .noAttribute name)
    | value => .error (.lookup (.notSearchable value.kindName))

def set? (c : Config) (name : String) (value : Json Points) : Except Fault Config :=
  if name = storeName then .ok ⟨value⟩
  else
    match c.store with
    | .object members => .ok ⟨.object (Entries.put (.ofText name) value members)⟩
    | _ => .error .wrongKind

/-- Equal values count as one name; numbers are equal across their kinds. -/
def isSameName : Json Points → Json Points → Bool
  | .null, .null => true
  | .text s, .text t => s == t
  | .number m, .number n => m.compare? n == some .eq
  | _, _ => false

/-- Puts a value under a name of any kind; a known name keeps its place and its spelling. -/
def putValue (name value : Json Points) :
    List (Json Points × Json Points) → List (Json Points × Json Points)
  | [] => [(name, value)]
  | (known, old) :: rest =>
    if isSameName known name then (known, value) :: rest else (known, old) :: putValue name value rest

/-- Reads the parts of a store as pairs of a name and a value. Lists and objects are no names. -/
def pairsFrom (index : Nat) (read : List (Json Points × Json Points)) :
    List (Json Points) → Except Fault (List (Json Points × Json Points))
  | [] => .ok read
  | part :: rest => do
    match ← part.parts? with
    | [.list _, _] | [.object _, _] => .error .wrongKind
    | [name, value] => pairsFrom (index + 1) (putValue name value read) rest
    | parts => .error (.notAPair index parts.length)

def values? (c : Config) : Except Fault (List (Json Points × Json Points)) :=
  match c.store with
  | .object members => .ok (members.map fun (name, value) => (.text name, value))
  | store => do pairsFrom 0 [] (← store.parts?)

def refused (reason : String) : Fault := .config ("Invalid generation settings: " ++ reason)

/-- Values that are no settings refuse the settings as a whole; a missing name does not, nor a
number too large to be whole. -/
def asRefusal : Fault → Fault
  | .settings fault => refused fault.message
  | .numeral fault => refused fault.message
  | .lookup fault => refused fault.message
  | .number .notANumberToInteger => refused NumberFault.notANumberToInteger.message
  | fault => fault

def wholeNumber? (c : Config) (name : String) : Except Fault (Json Points) := do
  let value ← c.attribute? name
  return .number (.int (← value.toInt?))

def settings? (c : Config) : Except Fault Settings :=
  Except.mapError asRefusal do
    let minimum ← c.wholeNumber? "min_nonterminals"
    let maximum ← c.wholeNumber? "max_nonterminals"
    let policy ← (LeafPolicy.ofJson? (← c.attribute? "leaf_selection")).mapError .settings
    let budget ← c.attribute? "exploration_budget"
    let maxSteps ← c.attribute? "max_steps"
    (Settings.check? minimum maximum policy budget maxSteps).mapError .settings

/-- The whole number that a seed stands for. Nothing, and what is not a number, ask for no particular
seed. -/
def seedOf? : Json Points → Except Fault (Option Int)
  | .null => .ok none
  | .number n => .ok (Seed.ofNumber? n)
  | .text ps => ((Seed.ofText? ps).mapError .encoding).map some
  | _ => .error .wrongKind

def source? (c : Config) : Except Fault (Option Source) := do
  let seed ← seedOf? (← c.attribute? "seed")
  return seed.map Source.seeded

def sourceFor? (c : Config) : Option Source → Except Fault (Option Source)
  | some given => .ok (some given)
  | none => c.source?

def generation? (c : Config) (given : Option Source) : Except Fault (Settings × Option Source) := do
  let source ← c.sourceFor? given
  return (← c.settings?, source)

def ofText? (path text : String) : Except Fault Config :=
  match Json.read? text with
  | .error .malformed =>
    .error (.config ("Failed to load config from " ++ path ++ ": " ++ FormFault.malformedJson))
  | .error (.numeral fault) => .error (.numeral fault)
  | .ok (.object members) => ofValues? members
  | .ok _ => .error (.config ("Config in " ++ path ++ " must be a JSON object"))

/-- A fault of the files refuses the configuration, if the files could not be reached. -/
def fileFault (context : String) (fault : FileFault) : Fault :=
  if fault.isUnreachable then .config (context ++ fault.message) else .file fault

def ofContent? (path : String) : Except FileFault String → Except Fault Config
  | .ok text => ofText? path text
  | .error fault => .error (fileFault ("Failed to load config from " ++ path ++ ": ") fault)

variable {m : Type → Type} [Monad m] [FileAccess m]

def standardPath : m (Except Fault String) := do
  let directory := Path.join (← FileAccess.homes).own ".treefuzz"
  let made ← FileAccess.makeDirectories directory
  return (made.mapError .file).map fun () => Path.join directory "config.json"

def write (c : Config) (path : String) : m (Except Fault Unit) := do
  let written ← FileAccess.writeText path c.store.document
  return written.mapError (fileFault "Failed to save treefuzz config: ")

def save (c : Config) (path : Option String) : m (Except Fault Unit) := do
  match path with
  | none | some "" =>
    match ← standardPath with
    | .error fault => return .error fault
    | .ok place => c.write place
  | some path => c.write (Path.expandHome (← FileAccess.homes) path)

def read (path : String) : m (Except Fault Config) := do
  return ofContent? path (← FileAccess.readText path)

/-- Loads from a path, or from the standard one, where the defaults are saved if nothing is there. -/
def load (path : Option String) : m (Except Fault Config) := do
  match path with
  | some path => read (Path.expandHome (← FileAccess.homes) path)
  | none =>
    match ← standardPath with
    | .error fault => return .error fault
    | .ok place =>
      if ← FileAccess.exists? place then read place
      else
        let saved ← standard.write place
        return saved.map fun () => standard

end Config
end GrammarSampler
