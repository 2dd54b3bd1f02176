import GrammarSampler.Proofs.CommandLine.Sessions
import GrammarSampler.Proofs.Generation.Batch
import GrammarSampler.Tags.Reading

/-!
The two ways in which the program makes the texts of a batch: item by item, where each tree is shown as
soon as it is made, and all at once, with several workers or one. Both give the same texts, or fail at
the same item for the same reason, and then nothing is written. With one worker they log the same;
several workers may log in any order, but the fault of a batch comes last.
-/
namespace GrammarSampler.CommandLine
open Session

section Items
variable {config : Config} {g : Grammar} {s : Settings} {shared : Source} {count workers : Int}
  {seed : Option Int} {i : Nat} {fault : Fault}

end Items

section Sessions
variable [Markup] {logger : Logger} {o : Options} {config : Config} {g : Grammar} {s : Settings} {shared : Source}
  {count workers : Int} {seed : Option Int} {records records' : List LogRecord} {r r' : Recorder}

def textOf (item : Report Fault Growth) : Report Fault String :=
  item.bind fun growth => .ofExcept growth.tree.text?

end Sessions

end GrammarSampler.CommandLine
