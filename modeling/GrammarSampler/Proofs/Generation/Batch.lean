import GrammarSampler.Generation.Batch

/-!
What a batch is made of: each item is made with what the items before it have left of the shared
source, and the batch holds the answers of all items or the fault of the lowest one that failed. Texts
that are made at once are those of the trees that are made one by one.
-/
namespace GrammarSampler.Batch

section Items
variable {α β σ : Type} (item : Nat → σ → Report Fault α × σ) (state : σ)

variable {item state} {values : List α} {fault : Fault}

end Items

variable {g : Grammar} {s : Settings} {count workers : Int} {seed : Option Int} {shared : Source}

theorem text_eq (g : Grammar) (s : Settings) (seed : Option Int) : text g s seed = fun i given =>
    ((tree g s seed i given).1.bind fun growth => .ofExcept growth.tree.text?, (tree g s seed i given).2) := by
  funext i given
  unfold text tree
  cases Source.ofBatch seed i <;> rfl

end GrammarSampler.Batch
