import GrammarSampler.Literal.Reading

/-!
The rules of expressions and their operators, which bind from `or`, the loosest, down to powers.
Every rule takes a reader of categories and is a reading; a rule that looks for a fault stops there,
or fails if the fault is not there.
-/
namespace GrammarSampler.Literal
open Reading

abbrev Reader := Category → Reading Form

def identifier : Reading Form := .name <$> ofKind .name

def softKeywords : List String := ["_", "case", "match"]

def softKeyword : Reading String :=
  accept fun t => t.kind == .name && softKeywords.any fun word => t.text.toList.isPrefixOf word.toList

/-! ### Operators -/

def leftGrouped (operand : Reading Form) (signs : List String) : Reading Form := do
  let first ← operand
  let rest ← many do return (← signOf signs, ← operand)
  return rest.foldl (fun left (sign, right) => .binary sign left right) first

def joined (operand : Reading Form) (word : String) : Reading Form := do
  let first ← operand
  let rest ← many do keyword word; operand
  return if rest.isEmpty then first else .other "expression"

def inversion (self : Reader) (comparison : Reading Form) : Reading Form :=
  choice [
    do keyword "not"; let body ← self .inversion; return .unary "not" body,
    comparison]

def comparisonSign : Reading Bool :=
  choice [
    do let _ ← signOf ["==", "!=", "<=", "<", ">=", ">"]; return false,
    do keyword "not"; keyword "in"; return false,
    do keyword "in"; return true,
    do keyword "is"; let _ ← optional (keyword "not"); return false]

def comparison (self : Reader) : Reading Form := do
  let first ← self .alternation
  let rest ← many do
    let isMembership ← comparisonSign
    let _ ← self .alternation
    return isMembership
  return rest.head?.elim first (.comparison first)

def factor (self : Reader) (power : Reading Form) : Reading Form :=
  choice [
    do let sign ← signOf ["+", "-", "~"]; let body ← self .factor; return .unary sign body,
    power]

def power (self : Reader) : Reading Form := do
  let base ← self .awaited
  match ← optional do sign "**"; self .factor with
  | some exponent => return .binary "**" base exponent
  | none => return base

def awaited (self : Reader) : Reading Form :=
  choice [
    do keyword "await"; let _ ← self .primary; return .other "await expression",
    self .primary]

/-! ### Expressions -/

def plainExpression (self : Reader) (lambda : Reading Form) : Reading Form :=
  choice [
    do
      let _ ← self .disjunction
      keyword "if"
      let _ ← self .disjunction
      keyword "else"
      let _ ← self .expression
      return .other "conditional expression",
    self .disjunction,
    lambda]

def forgottenComma (self : Reader) (lambda : Reading Form) : Reading Form := do
  let pair ← optional do
    notAhead (choice [do let _ ← ofKind .name; ofKind .quoted, softKeyword])
    let first ← self .disjunction
    let _ ← undiagnosed (plainExpression self lambda)
    return (first, ← depth)
  match pair with
  | some (first, depth) =>
    if first.isCommand.isSome || depth == 0 then fail else stopAt .commaMissing
  | none => do
    let _ ← self .disjunction
    keyword "if"
    let _ ← self .disjunction
    notAhead (choice [keyword "else", sign ":"])
    stopAt .elseMissing

def starExpressions (self : Reader) : Reading Form := do
  let first ← self .starExpression
  let rest ← many do sign ","; self .starExpression
  let comma ← optional (sign ",")
  return if rest.isEmpty && comma.isNone then first else .tuple (first :: rest)

def command (self : Reader) : Reading Form := do
  let name ← identifier
  notAhead (sign "(")
  let _ ← starExpressions self
  match name.isCommand with
  | some name => stopAt (.bracketsMissing name)
  | none => fail

def expression (self : Reader) (lambda : Reading Form) : Reading Form :=
  choice [
    diagnosis (forgottenComma self lambda),
    diagnosis (command self),
    plainExpression self lambda]

def starred (self : Reader) : Reading Form := do
  sign "*"
  let body ← self .alternation
  return .starred body

def starExpression (self : Reader) : Reading Form := choice [starred self, self .expression]

def assignment (self : Reader) : Reading Form := do
  let _ ← ofKind .name
  sign ":="
  let _ ← self .expression
  return .other "named expression"

def unassigned (self : Reader) : Reading Form := do
  let body ← self .expression
  notAhead (sign ":=")
  return body

def named (self : Reader) : Reading Form :=
  choice [assignment self, diagnosis (self .misassignment), unassigned self]

def starNamed (self : Reader) : Reading Form := choice [starred self, named self]

def starNameds (self : Reader) : Reading (List Form) := do
  let items ← listed (starNamed self)
  let _ ← optional (sign ",")
  return items

def yielded (self : Reader) : Reading Form := do
  keyword "yield"
  let _ ← choice [
    do keyword "from"; let _ ← self .expression; return (),
    do let _ ← optional (starExpressions self); return ()]
  return .other "yield expression"

end GrammarSampler.Literal
