import GrammarSampler.Literal.Rules.Expression

/-!
The rules of functions without names and of their parameters.
-/
namespace GrammarSampler.Literal
open Reading

def behindParameter : Reading Unit := choice [sign ",", ahead (sign ":")]

def parameterDefault (self : Reader) : Reading Unit :=
  choice [
    do sign "="; let _ ← self .expression; return (),
    diagnosis do
      sign "="
      ahead (choice [sign ")", sign ","])
      stopAt (.parameter .defaultMissing)]

def bareParameter : Reading Unit := do let _ ← ofKind .name; behindParameter

def defaultParameter (self : Reader) : Reading Unit := do
  let _ ← ofKind .name
  parameterDefault self
  behindParameter

def anyParameter (self : Reader) : Reading Unit := do
  let _ ← ofKind .name
  let _ ← optional (parameterDefault self)
  behindParameter

def slash : Reading Unit := do sign "/"; behindParameter

def slashBare : Reading Unit := do let _ ← atLeastOne bareParameter; slash

def slashDefault (self : Reader) : Reading Unit := do
  let _ ← many bareParameter
  let _ ← atLeastOne (defaultParameter self)
  slash

def namedRest : Reading Unit :=
  choice [
    diagnosis do
      sign "**"
      let _ ← ofKind .name
      sign "="
      stopAt (.parameter .namedRestDefault),
    diagnosis do
      sign "**"
      let _ ← ofKind .name
      sign ","
      let _ ← choice [ofKind .name, signOf ["*", "**", "/"]]
      stopAt (.parameter .behindNamedRest),
    do sign "**"; bareParameter]

def faultyRest (self : Reader) : Reading Unit :=
  choice [
    do
      sign "*"
      choice [sign ":", do sign ","; choice [sign ":", sign "**"]]
      stopAt (.parameter .namedMissing),
    do
      sign "*"
      let _ ← ofKind .name
      sign "="
      stopAt (.parameter .restDefault),
    do
      sign "*"
      choice [bareParameter, sign ","]
      let _ ← many (anyParameter self)
      sign "*"
      choice [bareParameter, sign ","]
      stopAt (.parameter .starTwice)]

def restParameters (self : Reader) : Reading Unit :=
  choice [
    diagnosis (faultyRest self),
    do
      sign "*"
      bareParameter
      let _ ← many (anyParameter self)
      let _ ← optional namedRest
      return (),
    do
      sign "*"
      sign ","
      let _ ← atLeastOne (anyParameter self)
      let _ ← optional namedRest
      return (),
    namedRest]

def faultyParameters (self : Reader) : Reading Unit :=
  choice [
    do
      let _ ← many bareParameter
      choice [slashDefault self, do let _ ← atLeastOne (defaultParameter self)]
      bareParameter
      stopAt (.parameter .defaultBefore),
    do
      let _ ← many bareParameter
      sign "("
      let _ ← listed (ofKind .name)
      let _ ← optional (sign ",")
      sign ")"
      stopAt (.parameter .bracketed),
    do sign "/"; sign ","; stopAt (.parameter .slashFirst),
    do
      choice [slashBare, slashDefault self]
      let _ ← many (anyParameter self)
      sign "/"
      stopAt (.parameter .slashTwice),
    do
      let _ ← optional (choice [slashBare, slashDefault self])
      let _ ← many (anyParameter self)
      sign "*"
      choice [sign ",", bareParameter]
      let _ ← many (anyParameter self)
      sign "/"
      stopAt (.parameter .slashBehindStar),
    do
      let _ ← atLeastOne (anyParameter self)
      sign "/"
      sign "*"
      stopAt (.parameter .commaMissing)]

def parameters (self : Reader) : Reading Unit :=
  choice [
    diagnosis (faultyParameters self),
    do
      slashBare
      let _ ← many bareParameter
      let _ ← many (defaultParameter self)
      let _ ← optional (restParameters self)
      return (),
    do
      slashDefault self
      let _ ← many (defaultParameter self)
      let _ ← optional (restParameters self)
      return (),
    do
      let _ ← atLeastOne bareParameter
      let _ ← many (defaultParameter self)
      let _ ← optional (restParameters self)
      return (),
    do
      let _ ← atLeastOne (defaultParameter self)
      let _ ← optional (restParameters self)
      return (),
    restParameters self]

def lambda (self : Reader) : Reading Form := do
  keyword "lambda"
  let _ ← optional (parameters self)
  sign ":"
  let _ ← self .expression
  return .other "lambda"

end GrammarSampler.Literal
