import GrammarSampler.Logging.Journal
import GrammarSampler.Logging.Record
import GrammarSampler.Machine

/-!
The logger: a level and the places that records are written to, the error stream and a log file.
-/
namespace GrammarSampler

/-- Options as given; a log file that counts as false is the standard one. -/
structure LogOptions where
  level : Json
  toFile : Json
  toConsole : Json
  file : Json
  maxBytes : Int
  backups : Int
  useColor : Json

namespace LogOptions

def standardFile : String := "~/.treefuzz/treefuzz.log"

def standard : LogOptions where
  level := .number (.int 20)
  toFile := .number (.truth true)
  toConsole := .number (.truth true)
  file := .null
  maxBytes := 5 * 1024 * 1024
  backups := 5
  useColor := .number (.truth true)

def file? (o : LogOptions) : Except Fault String :=
  if o.file.isTruthy then
    match o.file with
    | .text path => .ok path
    | _ => .error .wrongKind
  else .ok standardFile

end LogOptions

structure Logger where
  level : Int
  console : Option Bool
  journal : Option Journal
deriving DecidableEq, Repr

namespace Logger

/-- The level that records are held against; without a level only warnings and worse count. -/
def threshold (l : Logger) : Int := if l.level = 0 then 30 else l.level

def accepts (l : Logger) (r : LogRecord) : Bool :=
  r.isOwn && decide (0 < r.level ∧ l.threshold ≤ r.level)

variable {m : Type → Type} [Monad m] [Machine m]

def writeConsole (l : Logger) (r : LogRecord) : m Unit :=
  match l.console with
  | some true => Machine.logLine r.colored
  | some false => Machine.logLine r.plain
  | none => pure ()

def writeJournal (l : Logger) (r : LogRecord) : m Unit := do
  match l.journal with
  | some journal => journal.write (r.stamped (← Machine.stamp))
  | none => pure ()

def write (l : Logger) (r : LogRecord) : m Unit := do
  l.writeConsole r
  l.writeJournal r

def log (l : Logger) (r : LogRecord) : m Unit := if l.accepts r then l.write r else pure ()

/-- Makes the directory of the log file as it is spelled, and opens the file at the place that the
path leads to. -/
def openJournal (o : LogOptions) : m (Except Fault Journal) := do
  match o.file? with
  | .error fault => return .error fault
  | .ok file =>
    let path := Path.expandHome (← FileAccess.homes) file
    let directory := Path.parent path
    let made ← if directory = "" then pure (.ok ()) else FileAccess.makeDirectories directory
    match made with
    | .error fault => return .error (.file fault)
    | .ok () =>
      let journal : Journal := ⟨Path.settle path, o.maxBytes, o.backups⟩
      let ready ← journal.prepare
      return (ready.mapError .file).map fun () => journal

def configured (o : LogOptions) : LogRecord :=
  ⟨10, Channel.main, "treefuzz logger configured. color: " ++ o.useColor.displayPlain ++
    ", log_to_file: " ++ o.toFile.displayPlain⟩

def consoleOf (o : LogOptions) : Option Bool :=
  if o.toConsole.isTruthy then some o.useColor.isTruthy else none

def ofOptions (o : LogOptions) : m (Except Fault Logger) := do
  match Level.ofJson? o.level with
  | .error fault => return .error fault
  | .ok level =>
    if o.toFile.isTruthy then
      let journal ← openJournal o
      return journal.map fun journal => ⟨level, consoleOf o, some journal⟩
    else return .ok ⟨level, consoleOf o, none⟩

def setup (o : LogOptions) : m (Except Fault Logger) := do
  match ← ofOptions o with
  | .error fault => return .error fault
  | .ok logger =>
    logger.log (configured o)
    return .ok logger

end Logger
end GrammarSampler
