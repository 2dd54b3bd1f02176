import GrammarSampler.Cost.Numbered
import GrammarSampler.Grammar.Reachable

/-!
Grammars: checked rules with a start name and the cost of every name. A grammar comes with
notices on what it cannot use.
-/
namespace GrammarSampler

structure Grammar where
  rules : Rules
  start : String
  costs : CostTable Cost
deriving DecidableEq, Repr

namespace Grammar

/-- The start has a rule, every rule has an alternative and every name that is used has a rule. -/
def WellFormed (rules : Rules) (start : String) : Prop :=
  start ∈ rules.keys ∧ (∀ rule ∈ rules, rule.2 ≠ []) ∧ rules.Closed

def build? (rules : Rules) (start : String) : Except GrammarFault Grammar :=
  match rules.fault? start with
  | some fault => .error fault
  | none => .ok ⟨rules, start, (Cost.Numbered.estimate rules).table⟩

def alternatives (g : Grammar) (name : String) : List Expansion := (g.rules.get? name).getD []

def alternatives? (g : Grammar) (name : String) : Except Fault (List Expansion) :=
  match g.rules.get? name with
  | some found => .ok found
  | none => .error (.missingName name)

def unreachable (g : Grammar) : List String := g.rules.unreachable g.start

def unproductive (g : Grammar) : List String := g.costs.unproductive

def reachable (g : Grammar) (name : String) : List String :=
  g.rules.reachable (if name = "" then g.start else name)

def display (g : Grammar) : String := g.rules.display

def summary (g : Grammar) : String :=
  "Grammar(start=" ++ Quoted.text g.start ++ ", rules=" ++ toString g.rules.length ++ ")"

def notices (g : Grammar) (estimate : Cost.Estimate) : List Notice :=
  let lost := g.unreachable
  let warning : List Notice :=
    if lost.isEmpty then []
    else [⟨.warning, Channel.rules, "Unreachable nonterminals from " ++ Symbol.bracketed g.start ++
      ": " ++ ", ".intercalate lost⟩]
  Cost.notices estimate ++ warning ++
    [⟨.info, Channel.rules, "Built grammar with " ++ toString g.rules.length ++ " rules, start " ++
      Symbol.bracketed g.start⟩]

/-- Builds a grammar and gives its notices; a refused one gives none. -/
def build (rules : Rules) (start : String) : Report Fault Grammar :=
  match rules.fault? start with
  | some fault => .fail (.grammar fault)
  | none =>
    let estimate := Cost.Numbered.estimate rules
    let g : Grammar := ⟨rules, start, estimate.table⟩
    ⟨g.notices estimate, .ok g⟩

theorem build_outcome (rules : Rules) (start : String) :
    (build rules start).outcome = (build? rules start).mapError .grammar := by
  simp only [build, build?]
  split <;> rfl

end Grammar
end GrammarSampler
