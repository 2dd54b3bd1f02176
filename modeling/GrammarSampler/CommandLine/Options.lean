import GrammarSampler.Generation.Settings
import GrammarSampler.Number.Read

/-!
Command line options. A long option may be shortened as long as it stays unique; a value follows
its option or is joined to it. A repeated option counts with its last value. The mark that ends the
options, joined to an option, leaves its value empty.
-/
namespace GrammarSampler.CommandLine

structure Options where
  grammar : Option Json
  builtin : Option Json
  listBuiltins : Bool
  start : Option Json
  count : Option Json
  seed : Option Json
  minimum : Option Json
  maximum : Option Json
  budget : Option Json
  maxSteps : Option Json
  policy : Option Json
  workers : Option Json
  outputDirectory : Option Json
  stats : Bool
  showTree : Bool
  check : Bool
  config : Option Json
  level : Option Json
  quiet : Bool
  noLogFile : Bool
deriving Repr

namespace Options

def empty : Options where
  grammar := none
  builtin := none
  listBuiltins := false
  start := none
  count := none
  seed := none
  minimum := none
  maximum := none
  budget := none
  maxSteps := none
  policy := none
  workers := none
  outputDirectory := none
  stats := false
  showTree := false
  check := false
  config := none
  level := none
  quiet := false
  noLogFile := false

end Options

inductive ValueKind where
  | text
  | choice (allowed : List String)
  | whole
deriving DecidableEq, Repr

namespace ValueKind

def read? (text : String) : ValueKind → Option Json
  | .text => some (.text text)
  | choice allowed => if text ∈ allowed then some (.text text) else none
  | whole => (Numeral.int? text.toList).toOption.map fun n => .number (.int n)

end ValueKind

inductive Effect where
  | help
  | flag (set : Options → Options)
  | value (kind : ValueKind) (set : Json → Options → Options)

def levels : List String := ["DEBUG", "INFO", "WARNING", "ERROR"]

def policies : List String := LeafPolicy.all.map LeafPolicy.text

def table : List (String × Effect) := [
  ("-h", .help),
  ("--help", .help),
  ("--grammar", .value .text fun v o => { o with grammar := some v }),
  ("--builtin", .value .text fun v o => { o with builtin := some v }),
  ("--list-builtins", .flag fun o => { o with listBuiltins := true }),
  ("--start", .value .text fun v o => { o with start := some v }),
  ("-n", .value .whole fun v o => { o with count := some v }),
  ("--count", .value .whole fun v o => { o with count := some v }),
  ("--seed", .value .whole fun v o => { o with seed := some v }),
  ("--min-nonterminals", .value .whole fun v o => { o with minimum := some v }),
  ("--max-nonterminals", .value .whole fun v o => { o with maximum := some v }),
  ("--exploration-budget", .value .whole fun v o => { o with budget := some v }),
  ("--max-steps", .value .whole fun v o => { o with maxSteps := some v }),
  ("--leaf-selection", .value (.choice policies) fun v o => { o with policy := some v }),
  ("--workers", .value .whole fun v o => { o with workers := some v }),
  ("--output-dir", .value .text fun v o => { o with outputDirectory := some v }),
  ("--stats", .flag fun o => { o with stats := true }),
  ("--show-tree", .flag fun o => { o with showTree := true }),
  ("--check", .flag fun o => { o with check := true }),
  ("--config", .value .text fun v o => { o with config := some v }),
  ("--log-level", .value (.choice levels) fun v o => { o with level := some v }),
  ("--quiet", .flag fun o => { o with quiet := true }),
  ("--no-log-file", .flag fun o => { o with noLogFile := true })]

def endMark : String := "--"

/-- An argument as it stands: an option, short or long, with the value joined to it, if any, the
mark that ends the options, or a value. Options that are not known are kept as such. -/
inductive Argument where
  | option (effect : Effect) (isShort : Bool) (joined : Option String)
  | unknown
  | mark
  | value (text : String)

def cut (cs : List Char) : List Char × Option String :=
  match cs.dropWhile (· ≠ '=') with
  | [] => (cs, none)
  | _ :: rest => (cs.takeWhile (· ≠ '='), some (String.ofList rest))

def isDigit (c : Char) : Bool := (DecimalDigit.value? c).isSome

/-- Digits after a minus sign, maybe with a point and digits after it; a line end may follow. -/
def isNegativeNumber : List Char → Bool
  | '-' :: cs =>
    let body := if cs.getLast? = some '\n' then cs.dropLast else cs
    match body.dropWhile isDigit with
    | [] => !body.isEmpty
    | '.' :: fraction => !fraction.isEmpty && fraction.all isDigit
    | _ => false
  | _ => false

def completions (name : String) : List (String × Effect) :=
  table.filter fun (full, _) => full.startsWith name

def leftover (text : String) : Argument :=
  if isNegativeNumber text.toList || text.toList.contains ' ' then .value text else .unknown

/-- One argument by itself; nothing if it may stand for several options. -/
def classify (text : String) : Option Argument :=
  match text.toList with
  | '-' :: second :: rest =>
    let (name, joined) := cut text.toList
    match Entries.get? text table, joined.bind fun _ => Entries.get? (String.ofList name) table with
    | some effect, _ => some (.option effect (second != '-') none)
    | none, some effect => some (.option effect (second != '-') joined)
    | none, none =>
      if second = '-' then
        match completions (String.ofList name) with
        | [] => some (leftover text)
        | [(_, effect)] => some (.option effect false joined)
        | _ => none
      else
        match Entries.get? (String.ofList ['-', second]) table with
        | some effect => some (.option effect true (some (String.ofList rest)))
        | none => some (leftover text)
  | _ => some (.value text)

def classifyAll : List String → Option (List Argument)
  | [] => some []
  | text :: rest =>
    if text = endMark then some (.mark :: rest.map .value)
    else do
      let first ← classify text
      let later ← classifyAll rest
      return first :: later

inductive Request where
  | run (options : Options)
  | help
  | refused

/-- Short options joined to a request for help: more of the same, or one that takes a value, which
is joined to it or follows. -/
def isHelpTail (valueFollows : Bool) : List Char → Bool
  | [] => true
  | 'h' :: rest => isHelpTail valueFollows rest
  | 'n' :: rest => !rest.isEmpty || valueFollows
  | _ => false

def beginsWithValue : List Argument → Bool
  | .value _ :: _ => true
  | _ => false

def isConflict (o : Options) : Bool := o.grammar.isSome && o.builtin.isSome

def accept? (kind : ValueKind) (set : Json → Options → Options) (text : String) (o : Options) :
    Option Options :=
  ((kind.read? text).map fun value => set value o).filter fun o => !isConflict o

def acceptJoined? (kind : ValueKind) (set : Json → Options → Options) (text : String) (o : Options) :
    Option Options :=
  if text = endMark then (some (set (.list []) o)).filter fun o => !isConflict o
  else accept? kind set text o

def interpret (clean : Bool) (o : Options) : List Argument → Request
  | [] => if clean then .run o else .refused
  | .option effect isShort joined :: rest =>
    match effect, joined with
    | .help, none => .help
    | .help, some tail =>
      if isShort && tail != "" && isHelpTail (beginsWithValue rest) tail.toList then .help
      else .refused
    | .flag set, none => interpret clean (set o) rest
    | .flag _, some _ => .refused
    | .value kind set, some text =>
      match acceptJoined? kind set text o with
      | some o => interpret clean o rest
      | none => .refused
    | .value kind set, none =>
      match rest with
      | .value text :: rest =>
        match accept? kind set text o with
        | some o => interpret clean o rest
        | none => .refused
      | _ => .refused
  | _ :: rest => interpret false o rest

def request (arguments : List String) : Request :=
  match classifyAll arguments with
  | some found => interpret true .empty found
  | none => .refused

end GrammarSampler.CommandLine
