import GrammarSampler.Builtin
import GrammarSampler.CommandLine.Options
import GrammarSampler.Config
import GrammarSampler.Generation.Batch
import GrammarSampler.GrammarFile
import GrammarSampler.Logging.Logger
import GrammarSampler.Text.Lowercase

/-!
The program: options, configuration, logger, grammar, generation, output. A run ends with an exit
code, or with a fault that no step of it handles.
-/
namespace GrammarSampler.CommandLine

inductive Stop where
  | code (value : Nat)
  | fault (fault : Fault)

/-- A session keeps the records that its logger has accepted, the last one first. -/
abbrev Session (m : Type → Type) := ExceptT Stop (StateT (List LogRecord) m)

structure Verdict where
  exit : Except Fault Nat
  records : List LogRecord

namespace Session
variable {m : Type → Type} [Monad m] [Machine m] {α : Type}

def lift (act : m α) : Session m α := ExceptT.lift (StateT.lift act)

def log (logger : Logger) (r : LogRecord) : Session m Unit := do
  if logger.accepts r then
    modify (r :: ·)
    lift (logger.write r)

def noteAll (logger : Logger) (notices : List Notice) : Session m Unit :=
  notices.forM fun n => log logger (.ofNotice n)

def note (logger : Logger) (severity : Severity) (text : String) : Session m Unit :=
  log logger (.ofNotice ⟨severity, Channel.main, text⟩)

def exit (code : Nat) : Session m α := throw (.code code)

def fail (fault : Fault) : Session m α := throw (.fault fault)

def refuse (logger : Logger) (text : String) : Session m α := do
  note logger .error text
  exit 1

def demand : Except Fault α → Session m α
  | .ok a => pure a
  | .error fault => fail fault

def verdict (session : Session m Unit) : m Verdict := do
  let (outcome, records) ← session.run []
  let exit : Except Fault Nat :=
    match outcome with
    | .ok () => .ok 0
    | .error (.code value) => .ok value
    | .error (.fault fault) => .error fault
  return ⟨exit, records.reverse⟩

end Session

open Session
variable {m : Type → Type} [Monad m] [Machine m] [Markup]

def startLogger (o : LogOptions) : Session m Logger := do
  let logger ← demand (← lift (Logger.ofOptions o))
  log logger (Logger.configured o)
  return logger

def configAt : Option Json → m (Except Fault Config)
  | none => Config.load none
  | some (.text path) => Config.load (some path)
  | some _ => pure (.error .wrongKind)

/-- A configuration that cannot be loaded is reported on the console only. -/
def loadConfig (path : Option Json) : Session m Config := do
  match ← lift (configAt path) with
  | .ok config => return config
  | .error (.config text) => do
    let quiet : LogOptions :=
      { LogOptions.standard with level := .number (.int 40), toFile := .number (.truth false) }
    let logger ← startLogger quiet
    refuse logger ("Failed to load config: " ++ text)
  | .error fault => fail fault

def given? (value : Option Json) : Option Json := value.filter Json.isTruthy

def levelOf (o : Options) (configured : Json) : Int :=
  let asked := (given? o.level).getD configured
  if o.quiet then 30 else (Level.ofName? (Lowercase.upperName asked.displayPlain)).getD 20

def toFileOf (o : Options) (configured : Json) : Json :=
  if configured.isTruthy then .number (.truth (!o.noLogFile)) else configured

def startProgramLogger (o : Options) (config : Config) : Session m Logger := do
  let level ← demand (config.attribute? "log_level")
  let toFile ← demand (config.attribute? "log_to_file")
  let file ← demand (config.attribute? "log_file")
  startLogger { LogOptions.standard with
    level := .number (.int (levelOf o level.shown)), toFile := toFileOf o toFile.shown,
    file := file.shown }

def overrides (o : Options) : List (String × Json) :=
  [("start", o.start), ("count", o.count), ("seed", o.seed), ("min_nonterminals", o.minimum),
    ("max_nonterminals", o.maximum), ("exploration_budget", o.budget), ("max_steps", o.maxSteps),
    ("leaf_selection", o.policy), ("workers", o.workers),
    ("output_dir", o.outputDirectory)].filterMap fun (name, value) => value.map (name, ·)

def override (logger : Logger) (config : Config) (entry : String × Json) : Session m Config := do
  let config ← demand (config.set? entry.1 entry.2.exact)
  note logger .debug ("Using " ++ entry.1 ++ " from CLI: " ++ entry.2.displayPlain)
  return config

def builtinAt (name : String) (start : Json) : Report Fault Grammar := do
  let g ← Builtin.load name
  let isOwn : Bool :=
    match start with
    | .text asked => asked == g.start
    | _ => false
  if start.isTruthy && !isOwn then GrammarFile.buildAt g.rules start else return g

def resolveGrammar (o : Options) (start : Json) : m (Report Fault Grammar) :=
  match given? o.grammar, o.builtin with
  | some (.text path), _ => GrammarFile.load path start
  | _, some (.text name) => pure (builtinAt name start)
  | _, _ => pure (.fail .wrongKind)

def loadGrammar (logger : Logger) (o : Options) (config : Config) : Session m Grammar := do
  let start ← demand (config.attribute? "start")
  let report ← lift (resolveGrammar o start.shown)
  noteAll logger report.notices
  match report.outcome with
  | .ok g => return g
  | .error (.missingName text) => refuse logger text
  | .error fault =>
    if fault.isGrammarFault || fault.isUnreachableFile then
      refuse logger ("Failed to load grammar: " ++ fault.message)
    else fail fault

def present (sheets : List Sheet) : Session m Unit :=
  sheets.forM fun sheet => do
    demand (sheet.checkMarkup.mapError .markup)
    lift (Machine.present sheet)

def check (g : Grammar) : Session m Unit := do
  present (Sheet.costs g)
  exit (if (Cost.ofName g.costs g.start).isFinite then 0 else 1)

def loadSettings (logger : Logger) (config : Config) : Session m (Settings × Source) := do
  let entropy ← lift Machine.entropy
  match config.generation? none with
  | .ok (settings, source) => return (settings, source.getD (.seeded entropy))
  | .error (.config text) => refuse logger text
  | .error fault => fail fault

/-- What a batch is seeded with. The place of an item is added to a seed, which must be a number. -/
def batchSeed (seed : Json Points) (count : Int) : Except Fault (Option Int) :=
  match seed with
  | .text _ => if 0 < count then .error .wrongKind else .ok none
  | .number (.float _) => if 0 < count then .error .unfollowedSeed else .ok none
  | value => Config.seedOf? value

def ofReport {α : Type} (logger : Logger) (report : Report Fault α) : Session m α := do
  noteAll logger report.notices
  match report.outcome with
  | .ok a => return a
  | .error fault =>
    if fault.isGrammarFault then refuse logger ("Generation failed: " ++ fault.message) else fail fault

def showTree (logger : Logger) (item : Report Fault Growth) : Session m String := do
  let growth ← ofReport logger item
  present [.outline (.ofTree growth.tree)]
  ofReport logger (.ofExcept growth.tree.text?)

def generate (logger : Logger) (o : Options) (config : Config) (g : Grammar) (s : Settings)
    (source : Source) (count : Int) : Session m (List String) := do
  let seed ← demand (config.attribute? "seed")
  if o.showTree then
    let seed ← demand (batchSeed seed count)
    (Batch.trees g s count seed source).mapM (showTree logger)
  else
    let workers ← demand ((← demand (config.attribute? "workers")).toInt?)
    let seed ← demand (batchSeed seed count)
    ofReport logger (Batch.texts g s count workers seed source)

def outputName (index : Nat) : String :=
  let digits := toString index
  "testcase_" ++ Decimal.zeros (5 - digits.length) ++ digits ++ ".txt"

def writeFiles (directory : String) : Nat → List String → m (Except FileFault Unit)
  | _, [] => pure (.ok ())
  | index, text :: rest => do
    match ← FileAccess.writeText (Path.join directory (outputName index)) text with
    | .ok () => writeFiles directory (index + 1) rest
    | .error fault => return .error fault

def writeDirectory (directory : String) (texts : List String) : m (Except FileFault Unit) := do
  let place := Path.expandHome (← FileAccess.homes) directory
  match ← FileAccess.makeDirectories place with
  | .ok () => writeFiles place 1 texts
  | .error fault => return .error fault

def emit (logger : Logger) (directory : Json) (texts : List String) : Session m Unit := do
  if directory.isTruthy then
    match directory with
    | .text path =>
      match ← lift (writeDirectory path texts) with
      | .ok () => pure ()
      | .error fault =>
        if fault.isUnreachable then refuse logger ("Failed to write output: " ++ fault.message)
        else fail (.file fault)
    | _ => fail .wrongKind
  else texts.forM fun text => lift (Machine.print (text ++ "\n"))

def showStatistics (texts : List String) (elapsed : Float) : Session m Unit := do
  let sheet ← demand ((Sheet.statistics (.summarize texts (.float elapsed))).mapError .number)
  present [sheet]

def produce (logger : Logger) (o : Options) (config : Config) (g : Grammar) : Session m Unit := do
  let (settings, source) ← loadSettings logger config
  let count ← demand ((← demand (config.attribute? "count")).toInt?)
  let started ← lift Machine.seconds
  let texts ← generate logger o config g settings source count
  let elapsed := (← lift Machine.seconds) - started
  note logger .info ("Generated " ++ toString texts.length ++ " strings in " ++ fixedText 3 elapsed ++ "s")
  emit logger (← demand (config.attribute? "output_dir")).shown texts
  if o.stats then showStatistics texts elapsed

def sample (o : Options) : Session m Unit := do
  let config ← loadConfig o.config
  let logger ← startProgramLogger o config
  let config ← (overrides o).foldlM (override logger) config
  let g ← loadGrammar logger o config
  if o.check then check g else produce logger o config g

def usage : String :=
  "usage: treefuzz [options]\n\n" ++
    String.join (table.map fun (name, _) => "  " ++ name ++ "\n")

def execute (arguments : List String) : Session m Unit := do
  match request arguments with
  | .help => lift (Machine.print usage)
  | .refused => exit 2
  | .run o =>
    if o.listBuiltins then Builtin.names.forM fun name => lift (Machine.print (name ++ "\n"))
    else if (given? o.grammar).isSome || (given? o.builtin).isSome then sample o
    else exit 2

def run (arguments : List String) : m Verdict := (execute arguments : Session m Unit).verdict

end GrammarSampler.CommandLine
