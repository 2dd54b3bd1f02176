import GrammarSampler.Grammar.Rules

/-!
The names that can be reached from a name through the alternatives of rules.
-/
namespace GrammarSampler.Rules

def successors (rules : Rules) (name : String) : List String :=
  references ((rules.get? name).getD [])

def visit (rules : Rules) : Nat → List String → List String → List String
  | 0, seen, _ => seen
  | _ + 1, seen, [] => seen
  | fuel + 1, seen, name :: frontier =>
    if name ∈ seen then visit rules fuel seen frontier
    else visit rules fuel (name :: seen) ((rules.successors name).reverse ++ frontier)

/-- A rule's references join the frontier once, so each of them takes one step, and so does the
first name. -/
def reachable (rules : Rules) (name : String) : List String :=
  rules.visit (rules.allReferences.length + 2) [] [name]

def unreachable (rules : Rules) (start : String) : List String :=
  let reached := Std.HashSet.ofList (rules.reachable start)
  rules.keys.filter fun name => !reached.contains name

theorem unreachable_eq (rules : Rules) (start : String) :
    rules.unreachable start = rules.keys.filter fun name => name ∉ rules.reachable start := by
  simp [unreachable]

end GrammarSampler.Rules
