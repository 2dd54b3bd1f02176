import GrammarSampler.Literal.Rules.Expression

/-!
The rules of what stands in brackets and braces, of the loops in them, and of atoms.
-/
namespace GrammarSampler.Literal
open Reading

/-! ### Loops in brackets -/

def targets (self : Reader) : Reading Unit :=
  choice [
    do let _ ← self .starTarget; notAhead (sign ","),
    do
      let _ ← self .starTarget
      let _ ← many do sign ","; self .starTarget
      let _ ← optional (sign ",")
      return ()]

def loop (self : Reader) : Reading Unit := do
  let head ← optional do
    let _ ← optional (keyword "async")
    keyword "for"
    targets self
    keyword "in"
  match head with
  | some () => do
    let _ ← self .disjunction
    let _ ← many do keyword "if"; self .disjunction
    return ()
  | none => diagnosis do
    let _ ← optional (keyword "async")
    keyword "for"
    let target ← starExpressions self
    match target.barrier? with
    | some form => stopAt (.notTarget form.kind)
    | none => fail

def loops (self : Reader) : Reading Unit := do let _ ← atLeastOne (loop self)

def bracketSign : Reading Unit := choice [sign "(", sign "\x7b"]

def starredArgument (self : Reader) : Reading Form :=
  choice [
    do sign "*"; let body ← self .expression; return .starred body,
    do sign "*"; stopAt .starAlone]

def faultyLoops (self : Reader) : Reading Form :=
  choice [
    do
      bracketSign
      let _ ← starredArgument self
      loops self
      stopAt .starredGenerator,
    do
      sign "\x7b"
      let _ ← starNamed self
      sign ","
      let _ ← starNameds self
      loops self
      stopAt .targetBrackets,
    do
      sign "\x7b"
      let _ ← starNamed self
      sign ","
      loops self
      stopAt .targetBrackets]

def generator (self : Reader) : Reading Form :=
  choice [
    do
      sign "("
      let _ ← choice [assignment self, unassigned self]
      loops self
      sign ")"
      return .other "generator expression",
    diagnosis (faultyLoops self)]

/-! ### Brackets and braces -/

def tuple (self : Reader) : Reading Form := do
  sign "("
  let items ← optional do
    let first ← starNamed self
    sign ","
    let rest ← optional (starNameds self)
    return first :: rest.getD []
  sign ")"
  return .tuple (items.getD [])

def group (self : Reader) : Reading Form :=
  choice [
    do
      sign "("
      let body ← choice [yielded self, named self]
      sign ")"
      return body,
    diagnosis do
      sign "("
      let _ ← starredArgument self
      sign ")"
      stopAt .starred,
    diagnosis do
      sign "("
      sign "**"
      let _ ← self .expression
      sign ")"
      stopAt .doubleStarred]

def entry (self : Reader) : Reading (Form × Form) := do
  let key ← self .expression
  sign ":"
  return (key, ← self .expression)

def starEntry (self : Reader) : Reading (Option Form × Form) :=
  choice [
    do sign "**"; return (none, ← self .alternation),
    do let (key, v) ← entry self; return (some key, v)]

def starredValue (self : Reader) : Reading Unit := do
  let _ ← self .expression
  sign ":"
  sign "*"
  let _ ← self .alternation
  stopAt .starredValue

def missingValue (self : Reader) : Reading Unit := do
  let _ ← self .expression
  sign ":"
  ahead (choice [sign "\x7d", sign ","])
  stopAt .valueMissing

def faultyEntries (self : Reader) : Reading Unit :=
  choice [
    do
      let _ ← listed (starEntry self)
      sign ","
      choice [
        do
          let _ ← self .expression
          notAhead (sign ":")
          stopAt .colonMissing,
        starredValue self,
        missingValue self],
    starredValue self,
    missingValue self]

def dictionary (self : Reader) : Reading Form :=
  choice [
    do
      sign "\x7b"
      let entries ← optional do
        let entries ← listed (starEntry self)
        let _ ← optional (sign ",")
        return entries
      sign "\x7d"
      return .dictionary (entries.getD []),
    do
      sign "\x7b"
      faultyEntries self
      fail]

def set (self : Reader) : Reading Form := do
  sign "\x7b"
  let items ← starNameds self
  sign "\x7d"
  return .set items

def setLoops (self : Reader) : Reading Form :=
  choice [
    do
      sign "\x7b"
      let _ ← named self
      loops self
      sign "\x7d"
      return .other "set comprehension",
    diagnosis (faultyLoops self)]

def dictionaryLoops (self : Reader) : Reading Form :=
  choice [
    do
      sign "\x7b"
      let _ ← entry self
      loops self
      sign "\x7d"
      return .other "dict comprehension",
    diagnosis do
      sign "\x7b"
      sign "**"
      let _ ← self .alternation
      loops self
      sign "\x7d"
      stopAt .doubleStarredGenerator]

/-! ### Atoms -/

def constant : Reading Form :=
  .constant <$> accept fun t => t.kind == .keyword && ["True", "False", "None"].contains t.text

def Numeral.ofDigits (base : Nat) (cs : List Char) : Nat :=
  cs.foldl (fun n c => base * n + "0123456789abcdef".toList.idxOf c) 0

def Numeral.ofText? (text : String) : Except ExpressionFault Numeral :=
  let cs := (text.toList.map Char.toLower).filter (· ≠ '_')
  match cs with
  | '0' :: 'x' :: digits => .ok (.whole (ofDigits 16 digits))
  | '0' :: 'o' :: digits => .ok (.whole (ofDigits 8 digits))
  | '0' :: 'b' :: digits => .ok (.whole (ofDigits 2 digits))
  | _ =>
    if cs.getLast? = some 'j' then .ok .imaginary
    else if cs.any fun c => c == '.' || c == 'e' then .ok .float
    else if cs.all (· = '0') then .ok (.whole 0)
    else if GrammarSampler.Numeral.digitLimit < cs.length then .error (.tooManyDigits cs.length)
    else .ok (.whole (ofDigits 10 cs))

def numeral : Reading Form := do
  match Numeral.ofText? (← ofKind .numeral) with
  | .ok n => return .numeral n
  | .error fault => stopAt fault

def quotedTexts : Reading Form := do
  let texts ← atLeastOne (ofKind .quoted)
  checkQuoted texts
  let hasInsets := texts.any fun text => (Quotation.ofText text.toList).hasInsets
  return if hasInsets then .other "f-string expression" else .quoted

def atom (self : Reader) : Reading Form :=
  choice [
    identifier,
    constant,
    do ahead (do let _ ← ofKind .quoted); self .quoted,
    numeral,
    do ahead (sign "("); choice [tuple self, group self, generator self],
    do
      ahead (sign "\x7b")
      choice [dictionary self, set self, dictionaryLoops self, setLoops self],
    do sign "..."; return .constant "ellipsis"]

end GrammarSampler.Literal
