import GrammarSampler.Cost.Basic
import GrammarSampler.Grammar.Rules
import GrammarSampler.Notice

/-!
The cost of every name by relaxation: all costs start infinite, and each pass over the rules
lowers every cost that its alternatives allow to be lower, until a pass changes nothing.
-/
namespace GrammarSampler.Cost

def ofName (table : CostTable Cost) (name : String) : Cost := (table.get? name).getD infinite

def ofExpansion (table : CostTable Cost) (e : Expansion) : Cost :=
  worst (e.references.map (ofName table))

def ofRule (table : CostTable Cost) (alternatives : List Expansion) : Cost :=
  (best (alternatives.map (ofExpansion table))).next

structure Relaxation where
  table : CostTable Cost
  changed : Bool
deriving DecidableEq, Repr

def relaxRule (state : Relaxation) (rule : String × List Expansion) : Relaxation :=
  let cost := ofRule state.table rule.2
  if cost.lt (ofName state.table rule.1) then ⟨state.table.put rule.1 cost, true⟩ else state

/-- Later rules of a pass see what earlier ones have lowered. -/
def pass (rules : Rules) (table : CostTable Cost) : Relaxation :=
  rules.foldl relaxRule ⟨table, false⟩

structure Estimate where
  table : CostTable Cost
  passes : Nat
deriving DecidableEq, Repr

def settle (rules : Rules) : Nat → Estimate → Estimate
  | 0, estimate => estimate
  | fuel + 1, estimate =>
    let result := pass rules estimate.table
    let next : Estimate := ⟨result.table, estimate.passes + 1⟩
    if result.changed then settle rules fuel next else next

def start (rules : Rules) : CostTable Cost := rules.map fun (name, _) => (name, infinite)

/-- A pass settles at least one more name, so one pass more than there are rules is enough. -/
def estimate (rules : Rules) : Estimate := settle rules (rules.length + 1) ⟨start rules, 0⟩

def notices (estimate : Estimate) : List Notice :=
  let lost := estimate.table.unproductive
  let warning : List Notice :=
    if lost.isEmpty then []
    else [⟨.warning, Channel.cost, "Unproductive nonterminals: " ++ ", ".intercalate lost⟩]
  warning ++ [⟨.debug, Channel.cost, "Estimated costs for " ++ toString estimate.table.length ++
    " nonterminals in " ++ toString estimate.passes ++ " passes"⟩]

end GrammarSampler.Cost
