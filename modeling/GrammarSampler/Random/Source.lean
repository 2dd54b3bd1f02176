import GrammarSampler.Random.Twister

/-!
Sources of draws. A source is a state with a next draw; those used when the program runs are the
seeded twister and a list of numbers played over and over.
-/
namespace GrammarSampler

class Draws (σ : Type) (ρ : outParam Type) where
  draw : σ → ρ × σ

inductive Origin where
  | twister (state : Twister)
  | replay (values : Array Float) (position : Nat)
deriving Repr

structure Source where
  origin : Origin
  drawn : Nat
deriving Repr

namespace Source

def seeded (seed : Int) : Source := ⟨.twister (.ofSeed seed), 0⟩

def replaying (values : Array Float) : Source := ⟨.replay values 0, 0⟩

def draw (s : Source) : Float × Source :=
  match s.origin with
  | .twister state =>
    let (x, state) := state.uniform
    (x, ⟨.twister state, s.drawn + 1⟩)
  | .replay values position =>
    (values.getD (position % values.size) 0.0, ⟨.replay values (position + 1), s.drawn + 1⟩)

instance : Draws Source Float := ⟨draw⟩

/-- Item `index` of a seeded batch has a source of its own; an unseeded one has none. -/
def ofBatch (seed : Option Int) (index : Int) : Option Source :=
  seed.map fun s => seeded (s + index)

end Source
end GrammarSampler
