import GrammarSampler.Literal.Rules.Bracket

/-!
The rules of calls and attributes, and of the targets of loops.
-/
namespace GrammarSampler.Literal
open Reading

/-! ### Calls and attributes -/

def callArguments (self : Reader) : Reading Arguments := do
  sign "("
  let arguments ← optional (self .arguments)
  sign ")"
  match arguments with
  | some (.arguments arguments) => return arguments
  | _ => return .none

def suffix (self : Reader) : Reading (Form → Form) :=
  choice [
    do sign "."; let _ ← ofKind .name; return fun _ => .other "attribute",
    do let _ ← generator self; return fun function => .call function ⟨1, false, false⟩,
    do
      let arguments ← callArguments self
      return fun function => .call function arguments]

def primary (self : Reader) : Reading Form := do
  let first ← atom self
  return (← many (suffix self)).foldl (fun form suffix => suffix form) first

def positionalArgument (self : Reader) : Reading Unit :=
  choice [
    do let _ ← starredArgument self; return (),
    do let _ ← choice [assignment self, unassigned self]; notAhead (sign "=")]

def equalsInLoop (self : Reader) : Reading Arguments := do
  let _ ← ofKind .name
  sign "="
  let _ ← self .expression
  loops self
  stopAt .equalsSign

def faultyNamedArgument (self : Reader) : Reading Arguments :=
  choice [
    do
      match ← constant with
      | .constant text => do sign "="; stopAt (.notTarget text)
      | _ => fail,
    equalsInLoop self,
    do
      notAhead do let _ ← ofKind .name; sign "="
      let _ ← self .expression
      sign "="
      stopAt .assignmentInArgument]

def namedArgument (self : Reader) : Reading Arguments := do
  let _ ← ofKind .name
  sign "="
  let _ ← self .expression
  return ⟨0, true, false⟩

def namedOrStarred (self : Reader) : Reading Arguments :=
  choice [
    diagnosis (faultyNamedArgument self),
    namedArgument self,
    do let _ ← starredArgument self; return ⟨1, false, false⟩]

def namedOrUnpacked (self : Reader) : Reading Arguments :=
  choice [
    diagnosis (faultyNamedArgument self),
    namedArgument self,
    do sign "**"; let _ ← self .expression; return ⟨0, false, true⟩]

def total (arguments : List Arguments) : Arguments := arguments.foldl .add .none

def namedArguments (self : Reader) : Reading Arguments :=
  choice [
    do
      let first ← listed (namedOrStarred self)
      sign ","
      let rest ← listed (namedOrUnpacked self)
      return total (first ++ rest),
    total <$> listed (namedOrStarred self),
    total <$> listed (namedOrUnpacked self)]

def allArguments (self : Reader) : Reading Arguments :=
  choice [
    do
      let positional ← listed (positionalArgument self)
      let named ← optional do sign ","; namedArguments self
      return .add ⟨positional.length, false, false⟩ (named.getD .none),
    namedArguments self]

def looseGenerator (self : Reader) : Reading Arguments := do
  let arguments ← allArguments self
  loops self
  return arguments

def faultyArguments (self : Reader) : Reading Form := do
  let loose ← optional (choice [
    do
      let _ ← allArguments self
      sign ","
      sign "*"
      stopAt .starBehindNamed,
    do
      let _ ← self .expression
      loops self
      sign ","
      let _ ← optional (choice [
        do let _ ← allArguments self; return (),
        do let _ ← self .expression; loops self])
      stopAt .generatorBrackets,
    equalsInLoop self,
    looseGenerator self])
  match loose with
  | some arguments => if 1 < arguments.positional then stopAt .generatorBrackets else fail
  | none =>
    choice [
      do
        let _ ← allArguments self
        sign ","
        let _ ← self .expression
        loops self
        stopAt .generatorBrackets,
      do
        let first ← allArguments self
        sign ","
        let _ ← allArguments self
        stopAt (.positionalBehindNamed first.unpacked)]

def arguments (self : Reader) : Reading Form :=
  choice [
    do
      let arguments ← allArguments self
      let _ ← optional (sign ",")
      ahead (sign ")")
      return .arguments arguments,
    diagnosis (faultyArguments self)]

/-! ### Targets of loops -/

def targetFollows : Reading Unit := choice [sign "(", sign "."]

def targetPrimary (self : Reader) : Reading Form := do
  let first ← atom self
  ahead targetFollows
  let rest ← many do
    let apply ← suffix self
    ahead targetFollows
    return apply
  return rest.foldl (fun form suffix => suffix form) first

def starTarget (self : Reader) : Reading Form :=
  choice [
    do
      sign "*"
      notAhead (sign "*")
      let body ← self .starTarget
      return .starred body,
    self .target]

def targetList (self : Reader) : Reading Unit :=
  choice [
    do
      let _ ← self .starTarget
      let _ ← atLeastOne do sign ","; self .starTarget
      let _ ← optional (sign ",")
      return (),
    do let _ ← self .starTarget; sign ","]

def target (self : Reader) : Reading Form :=
  choice [
    do
      let _ ← self .targetPrimary
      sign "."
      let _ ← ofKind .name
      notAhead targetFollows
      return .other "attribute",
    identifier,
    do
      sign "("
      let body ← self .target
      sign ")"
      return body,
    do
      sign "("
      let _ ← optional (targetList self)
      sign ")"
      return .tuple []]

end GrammarSampler.Literal
