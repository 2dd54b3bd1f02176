import GrammarSampler.Main
import GrammarSampler.Proofs.Cost.Bounds
import GrammarSampler.Proofs.Cost.Levels
import GrammarSampler.Proofs.Cost.Exactness
import GrammarSampler.Proofs.Cost.Passes
import GrammarSampler.Proofs.Cost.Lookups
import GrammarSampler.Proofs.Number.Binary64
import GrammarSampler.Proofs.Number.Product
import GrammarSampler.Proofs.Number.Limit
import GrammarSampler.Proofs.Grammar.Built
import GrammarSampler.Proofs.Grammar.Reaches
import GrammarSampler.Proofs.Tree.Complete
import GrammarSampler.Proofs.Tree.Walk
import GrammarSampler.Proofs.Tree.Order
import GrammarSampler.Proofs.Tree.Grown
import GrammarSampler.Proofs.Tree.Renumbering
import GrammarSampler.Proofs.Generation.Choice
import GrammarSampler.Proofs.Generation.Exact
import GrammarSampler.Proofs.Generation.Shares
import GrammarSampler.Proofs.Generation.Step
import GrammarSampler.Proofs.Generation.Reachable
import GrammarSampler.Proofs.Generation.History
import GrammarSampler.Proofs.Generation.Soundness
import GrammarSampler.Proofs.Generation.Closing
import GrammarSampler.Proofs.Generation.Termination
import GrammarSampler.Proofs.Generation.Phases
import GrammarSampler.Proofs.Generation.Dependence
import GrammarSampler.Proofs.Generation.Optimal
import GrammarSampler.Proofs.Generation.Traversal
import GrammarSampler.Proofs.Generation.Decided
import GrammarSampler.Proofs.Generation.Completeness
import GrammarSampler.Proofs.Ebnf.Fresh
import GrammarSampler.Proofs.Ebnf.Language
import GrammarSampler.Proofs.Grammar.Given
import GrammarSampler.Proofs.Ebnf.Lowering
import GrammarSampler.Proofs.Ebnf.Syntax
import GrammarSampler.Proofs.Ebnf.Reader
import GrammarSampler.Proofs.GrammarText.Language
import GrammarSampler.Proofs.Dictionary.Syntax
import GrammarSampler.Proofs.Dictionary.Search
import GrammarSampler.Proofs.Dictionary.Rewriting
import GrammarSampler.Proofs.Dictionary.Meaning
import GrammarSampler.Proofs.Dictionary.Rounds
import GrammarSampler.Proofs.Dictionary.Language
import GrammarSampler.Proofs.Dictionary.Ending
import GrammarSampler.Proofs.Ebnf.Numbering
import GrammarSampler.Proofs.Ebnf.References
import GrammarSampler.Proofs.GrammarText.Hygiene
import GrammarSampler.Proofs.Dictionary.Hygiene
import GrammarSampler.Proofs.Hygiene
import GrammarSampler.Proofs.Generation.Barren
import GrammarSampler.Proofs.Generation.Resume
import GrammarSampler.Proofs.Generation.StepLimit
import GrammarSampler.Proofs.Generation.Budget
import GrammarSampler.Proofs.GrammarText.Printing
import GrammarSampler.Proofs.GrammarText.RoundTrip
import GrammarSampler.Proofs.Ebnf.Faults
import GrammarSampler.Proofs.Ebnf.Standing
import GrammarSampler.Proofs.GrammarText.Acceptance
import GrammarSampler.Proofs.Generation.Stalling
import GrammarSampler.Proofs.Ebnf.Keeping
import GrammarSampler.Proofs.GrammarText.Keeping
import GrammarSampler.Proofs.Dictionary.Standing
import GrammarSampler.Proofs.Dictionary.Keeping
import GrammarSampler.Proofs.Keeping
import GrammarSampler.Proofs.Ebnf.Linking
import GrammarSampler.Proofs.GrammarText.Building
import GrammarSampler.Proofs.Dictionary.Building
import GrammarSampler.Proofs.Json.Syntax
import GrammarSampler.Proofs.Builtin.Json
import GrammarSampler.Proofs.Generation.Overflow
import GrammarSampler.Proofs.GrammarFile
import GrammarSampler.Proofs.Ebnf.Places
import GrammarSampler.Proofs.GrammarText.Comments
import GrammarSampler.Proofs.Dictionary.Solid
import GrammarSampler.Proofs.Dictionary.Rendering
import GrammarSampler.Proofs.Dictionary.Connecting
import GrammarSampler.Proofs.Grammar.Validation
import GrammarSampler.Proofs.Generation.Closure
import GrammarSampler.Proofs.Tree.Calls
import GrammarSampler.Proofs.Random.Keys
import GrammarSampler.Proofs.Faults
import GrammarSampler.Proofs.Json.Reading
import GrammarSampler.Proofs.Console.Drawing
import GrammarSampler.Proofs.Ebnf.Allocation
import GrammarSampler.Proofs.Config
import GrammarSampler.Proofs.Generation.Batch
import GrammarSampler.Proofs.Logging.Journal
import GrammarSampler.Proofs.CommandLine.Paths
