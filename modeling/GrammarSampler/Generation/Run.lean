import GrammarSampler.Generation.Choice

/-!
A generation as a run of steps: each step expands one leaf of a growing tree, until no leaf is
open, a step fails or the step limit is reached.
-/
namespace GrammarSampler

-- Powers and zero are the core's, whatever else is in scope.
attribute [local instance (2000)] instPowNat Zero.ofOfNat0

/-- `peak` is the highest number of open leaves so far, `stalled` the number of growth steps since. -/
structure Run (σ : Type) where
  growth : Growth
  phase : Phase
  peak : Nat
  stalled : Nat
  source : σ
  notices : List Notice
deriving Repr

structure Decision where
  phase : Phase
  position : Int
  name : String
  alternative : Nat
deriving DecidableEq, Repr

inductive Step (σ : Type) where
  | closed (run : Run σ)
  | stopped (fault : Fault) (run : Run σ)
  | moved (decision : Decision) (run : Run σ)

inductive Outcome (σ : Type) where
  | closed (run : Run σ)
  | stopped (fault : Fault) (run : Run σ)
  | unfinished (run : Run σ)

namespace Run
variable {ρ σ : Type} [Arithmetic ρ] [Draws σ ρ]

def start (name : String) (source : σ) : Run σ := ⟨.start name, .growth, 1, 0, source, []⟩

def enter (run : Run σ) (phase : Phase) : Run σ :=
  if phase = run.phase then run
  else
    let text := "Entering " ++ phase.text ++ " phase after " ++ toString run.growth.steps ++
      " steps (" ++ toString run.growth.openCount ++ " open leaves)"
    { run with phase := phase, notices := run.notices ++ [⟨.debug, Channel.generator, text⟩] }

/-- Growth steps that open no more leaves than ever before are counted. -/
def settle (run : Run σ) : Run σ :=
  if run.phase = .growth then
    if run.peak < run.growth.openCount then { run with peak := run.growth.openCount, stalled := 0 }
    else { run with stalled := run.stalled + 1 }
  else run

def expandNumber (run : Run σ) (number : Nat) (position alternative : Int) (e : Expansion) : Run σ :=
  match run with
  | ⟨growth, phase, peak, stalled, source, notices⟩ =>
    settle ⟨growth.expandNumber number position alternative e, phase, peak, stalled, source, notices⟩

def move (g : Grammar) (s : Settings) (run : Run σ) : Step σ :=
  match Choice.leaf s.policy run.growth run.source with
  | (.error fault, source) => .stopped fault { run with source := source }
  | (.ok position, source) =>
    let run := { run with source := source }
    match run.growth.number? position with
    | .error fault => .stopped fault run
    | .ok number =>
      let name := (run.growth.bud number).name
      match Choice.alternative g name run.phase run.source with
      | (.error fault, source) => .stopped fault { run with source := source }
      | (.ok index, source) =>
        let run := { run with source := source }
        match (g.alternatives name)[index]? with
        | none => .stopped .outOfRange run
        | some e =>
          .moved ⟨run.phase, position, name, index⟩ (run.expandNumber number position index e)

def stepLimit? (s : Settings) (run : Run σ) : Option GenerationFault :=
  match s.maxSteps with
  | none => none
  | some limit =>
    if limit.reachedBy run.growth.steps then
      some (.stepLimit limit run.growth.openCount run.growth.steps)
    else none

def step (g : Grammar) (s : Settings) (run : Run σ) : Step σ :=
  if run.growth.isComplete then .closed run
  else
    match stepLimit? s run with
    | some fault => .stopped (.generation fault) run
    | none =>
      let phase := Phase.next s g.rules.length run.phase run.growth.openCount run.growth.steps run.stalled
      (run.enter phase).move g s

def resume (g : Grammar) (s : Settings) : Nat → Run σ → Outcome σ
  | 0, run => .unfinished run
  | fuel + 1, run =>
    match run.step g s with
    | .closed run => .closed run
    | .stopped fault run => .stopped fault run
    | .moved _ run => resume g s fuel run

end Run

namespace Grammar

/-- The largest number of names in one alternative, at least one. -/
def width (g : Grammar) : Nat :=
  (g.rules.flatMap fun (_, alternatives) => alternatives.map fun e => e.references.length).foldl max 1

def maxFiniteCost (g : Grammar) : Nat :=
  (g.costs.filterMap fun (_, c) =>
    match c with
    | .finite n => some n
    | .infinite => none).foldl max 0

/-- Nodes of a full tree of the grammar's width, one level per cost. -/
def closingSteps (g : Grammar) : Nat := ((List.range g.maxFiniteCost).map (g.width ^ ·)).sum

def budgetedSteps (g : Grammar) (budget : Nat) : Nat :=
  budget + (1 + budget * (g.width - 1)) * g.closingSteps

end Grammar

namespace Settings

def patience : Nat := 2 ^ (64 : Nat)

def stepsTo? (limit : Number) : Option Nat := limit.toInt.toOption.map fun k => k.toNat + 1

/-- How many steps a run is followed: to the step limit if there is one, else for as long as no run
lasts. A budget bounds a run whose draws lie between zero and one; other draws may expand nodes
again, so without a step limit the number is never below `patience`. -/
def stepBound (s : Settings) (g : Grammar) : Nat :=
  match s.maxSteps.bind stepsTo? with
  | some k => k
  | none => max patience ((s.budget.bind stepsTo?).elim 0 g.budgetedSteps)

end Settings

namespace Generation
variable {ρ σ : Type} [Arithmetic ρ] [Draws σ ρ]

def closedNotice (g : Growth) : Notice :=
  ⟨.debug, Channel.generator, "Closed derivation tree in " ++ toString g.steps ++ " steps"⟩

/-- A run with as many steps as `fuel` allows; a start without alternatives is refused. -/
def runFor (fuel : Nat) (g : Grammar) (s : Settings) (source : σ) : Outcome σ :=
  let run := Run.start g.start source
  match g.alternatives? g.start with
  | .error fault => .stopped fault run
  | .ok [] => .stopped (.generation (.startEmpty g.start)) run
  | .ok _ => Run.resume g s fuel run

/-- One more step than the bound lets the loop see that nothing is left to do. -/
def run (g : Grammar) (s : Settings) (source : σ) : Outcome σ :=
  runFor (s.stepBound g + 1) g s source

/-- Grows a tree. The source comes back whether or not the run succeeded. -/
def grow (g : Grammar) (s : Settings) (source : σ) : Report Fault Growth × σ :=
  match run g s source with
  | .closed run => (⟨run.notices ++ [closedNotice run.growth], .ok run.growth⟩, run.source)
  | .stopped fault run => (⟨run.notices, .error fault⟩, run.source)
  | .unfinished run => (⟨run.notices, .error .unfinished⟩, run.source)

def sample (g : Grammar) (s : Settings) (source : σ) : Report Fault String × σ :=
  let (report, source) := grow g s source
  (report.bind fun growth => .ofExcept growth.tree.text?, source)

end Generation
end GrammarSampler
