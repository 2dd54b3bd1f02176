import GrammarSampler.Literal.Rules.Call
import GrammarSampler.Literal.Rules.Parameter

/-!
The grammar of expressions: a rule for every category, and the readers that follow from them.
-/
namespace GrammarSampler.Literal
open Reading

def behindEquals : Reading Unit := notAhead (choice [sign "=", sign ":="])

def misassignment (self : Reader) : Reading Form :=
  choice [
    do
      let form ← self .expression
      sign ":="
      let _ ← self .expression
      stopAt (.notNamed form.kind),
    do
      let _ ← ofKind .name
      sign "="
      let _ ← self .alternation
      behindEquals
      stopAt .equalsSign,
    do
      notAhead (choice [tuple self, generator self, constant])
      let form ← self .alternation
      sign "="
      let _ ← self .alternation
      behindEquals
      stopAt (.equalsSignBehind form.kind)]

def rule (self : Reader) : Category → Reading Form
  | .expression => expression self (lambda self)
  | .starExpression => starExpression self
  | .disjunction => joined (self .conjunction) "or"
  | .conjunction => joined (self .inversion) "and"
  | .inversion => inversion self (comparison self)
  | .alternation => leftGrouped (self .exclusion) ["|"]
  | .exclusion => leftGrouped (self .intersection) ["^"]
  | .intersection => leftGrouped (self .shift) ["&"]
  | .shift => leftGrouped (self .sum) ["<<", ">>"]
  | .sum => leftGrouped (self .term) ["+", "-"]
  | .term => leftGrouped (self .factor) ["*", "/", "//", "%", "@"]
  | .factor => factor self (power self)
  | .awaited => awaited self
  | .primary => primary self
  | .arguments => arguments self
  | .misassignment => misassignment self
  | .starTarget => starTarget self
  | .target => target self
  | .targetPrimary => targetPrimary self
  | .quoted => quotedTexts

def read : Nat → Reader
  | 0, _ => fail
  | depth + 1, c => remembered c (rule (read depth) c)

def depthFor (source : Source) : Nat := Category.count * (source.tokens.size + 2)

def whole (self : Reader) : Reading Form := do
  let first ← self .expression
  let rest ← many do sign ","; self .expression
  let comma ← optional (sign ",")
  let _ ← many (ofKind .newline)
  let _ ← ofKind .finish
  return if rest.isEmpty && comma.isNone then first else .tuple (first :: rest)

end GrammarSampler.Literal
