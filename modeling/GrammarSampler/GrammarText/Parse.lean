import GrammarSampler.Ebnf.Lowering
import GrammarSampler.Ebnf.Reader
import GrammarSampler.Grammar.Basic
import GrammarSampler.GrammarText.Lines

/-!
Grammar texts read into rules. The first definition names the start; further definitions of a name
add alternatives to it.
-/
namespace GrammarSampler.GrammarText

/-- The rules read so far and the start; they stay when a later line is at fault. -/
structure Parse where
  start : Option String
  rules : Rules
  outcome : Except FormFault Unit
  notices : List Notice
deriving Repr

/-- Adds one definition. Of a body that cannot be read, the complete elements leave their rules, and so
do those of a body that is not read to its end. -/
def define (d : Definition) (l : Ebnf.Lowering) : Except FormFault Unit × Ebnf.Lowering :=
  match Ebnf.read d.body with
  | .failed fault complete => (.error (.line d.line fault), (Ebnf.lowerSequence d.name l complete).2)
  | .done body rest =>
    let (alternatives, l) := Ebnf.lowerBody d.name l body
    match rest with
    | [] => (.ok (), { l with rules := l.rules.extend d.name (alternatives.map .unweighted) })
    | c :: _ => (.error (.line d.line (.unexpected c (d.body.length - rest.length))), l)

def extensionNotice (d : Definition) (rules : Rules) : List Notice :=
  if (rules.get? d.name).isSome then
    [⟨.debug, Channel.parser, "Extending rule " ++ Symbol.bracketed d.name ++ " at line " ++
      toString d.line⟩]
  else []

def defineAll (l : Ebnf.Lowering) (notices : List Notice) :
    List Definition → Except FormFault Unit × Ebnf.Lowering × List Notice
  | [] => (.ok (), l, notices)
  | d :: rest =>
    let notices := notices ++ extensionNotice d l.rules
    match define d l with
    | (.error fault, l) => (.error fault, l, notices)
    | (.ok (), l) => defineAll l notices rest

def parsedNotice (rules : Rules) : Notice :=
  ⟨.info, Channel.parser, "Parsed grammar with " ++ toString rules.length ++ " rules"⟩

/-- All defined names are taken before the first rule is made. -/
def parse (text : String) : Parse :=
  match definitions? text.toList with
  | .error fault => ⟨none, [], .error fault, []⟩
  | .ok definitions =>
    let names := definitions.map Definition.name
    let (outcome, l, notices) := defineAll ⟨names, []⟩ [] definitions
    match outcome with
    | .error fault => ⟨names.head?, l.rules, .error fault, notices⟩
    | .ok () => ⟨names.head?, l.rules, .ok (), notices ++ [parsedNotice l.rules]⟩

/-- The start asked for, else the first name; an empty one asks for nothing. -/
def Parse.startFor (p : Parse) (asked : Option String) : String :=
  match asked with
  | some name => if name = "" then p.start.getD "" else name
  | none => p.start.getD ""

def Parse.build (p : Parse) (asked : Option String) : Report Fault Grammar :=
  Grammar.build p.rules (p.startFor asked)

def Parse.report (p : Parse) : Report Fault Parse :=
  ⟨p.notices, (p.outcome.mapError fun fault => .grammar (.form fault)).map fun _ => p⟩

def load (text : String) (asked : Option String) : Report Fault Grammar :=
  (parse text).report.bind fun p => p.build asked

end GrammarSampler.GrammarText
