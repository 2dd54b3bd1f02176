import GrammarSampler.Generation.Run

/-!
Batches: several generations in item order. A seeded batch gives every item a source of its own;
the items of an unseeded one draw from a shared source, one after the other. The batch fails with
its first failing item.
-/
namespace GrammarSampler.Batch
variable {α σ : Type}

/-- Items from `index` on, each made with what the one before has left of a state, up to the first
that fails. -/
def inTurn (item : Nat → σ → Report Fault α × σ) : Nat → Nat → σ → List (Report Fault α)
  | 0, _, _ => []
  | count + 1, index, state =>
    let (first, state) := item index state
    match first.outcome with
    | .error _ => [first]
    | .ok _ => first :: inTurn item count (index + 1) state

def collect : List (Report Fault α) → Report Fault (List α)
  | [] => .pure []
  | first :: rest => first.bind fun a => (collect rest).bind fun others => .pure (a :: others)

/-- The tree of an item; with a seed it leaves the shared source as it is. -/
def tree (g : Grammar) (s : Settings) (seed : Option Int) (index : Nat) (shared : Source) :
    Report Fault Growth × Source :=
  match Source.ofBatch seed index with
  | some own => ((Generation.grow g s own).1, shared)
  | none => Generation.grow g s shared

def text (g : Grammar) (s : Settings) (seed : Option Int) (index : Nat) (shared : Source) :
    Report Fault String × Source :=
  match Source.ofBatch seed index with
  | some own => ((Generation.sample g s own).1, shared)
  | none => Generation.sample g s shared

def trees (g : Grammar) (s : Settings) (count : Int) (seed : Option Int) (shared : Source) :
    List (Report Fault Growth) :=
  inTurn (tree g s seed) count.toNat 0 shared

/-- The texts of a batch. Several workers make the items of a seeded batch independently of each
other; without a seed they take turns. -/
def texts (g : Grammar) (s : Settings) (count workers : Int) (seed : Option Int) (shared : Source) :
    Report Fault (List String) :=
  if 1 < workers ∧ seed.isSome then
    collect ((List.range count.toNat).map fun index => (text g s seed index shared).1)
  else collect (inTurn (text g s seed) count.toNat 0 shared)

end GrammarSampler.Batch
