import GrammarSampler.Literal.Grammar

/-!
Whether a text is a literal, and if not, why. A text that cannot be read is read once more to find
its fault; a fault in what follows may be told instead.
-/
namespace GrammarSampler.Literal

inductive Goal where
  | literal
  | inset
deriving DecidableEq, Repr

def Goal.reading (self : Reader) : Goal → Reading Form
  | .literal => whole self
  | .inset => starExpressions self

/-- A fault stands unless the fault that ends the tokens is pressing, or leaves a bracket open from a
line before that of the furthest token. -/
def pressing (source : Source) (p : Progress) (fault : LiteralFault) : LiteralFault :=
  let line := (source.tokens[p.furthest - 1]?.map Token.line).getD 0
  match source.fault, source.unclosed with
  | some found, unclosed =>
    if found.isPressing then .token found
    else if fault = .token found then fault
    else
      match unclosed with
      | some (opener, opened) => if opened < line then .token (.bracketOpen opener) else fault
      | none => fault
  | none, _ => fault

def stopped (source : Source) (p : Progress) (fault : LiteralFault) : LiteralFault :=
  if source.nothingLeft && p.furthest == source.tokens.size then fault
  else pressing source p fault

def diagnose (setting : Setting) (reading : Reading Form) (p : Progress) : LiteralFault :=
  match reading setting p.diagnosed with
  | (q, .error fault) => stopped setting.source q fault
  | (q, .ok _) =>
    if (setting.source.tokens[p.furthest - 1]?.map Token.kind) = some .indent then
      .token .indentation
    else pressing setting.source q (.expression .unreadable)

def formWith (goal : Goal) (check : List Char → Except LiteralFault Unit) (text : List Char) :
    Except LiteralFault Form :=
  let setting : Setting := ⟨Source.ofText text, check⟩
  let reading := goal.reading (read (depthFor setting.source))
  match reading setting .start with
  | (_, .ok (some form)) => .ok form
  | (p, .error fault) => .error (stopped setting.source p fault)
  | (p, .ok none) => .error (diagnose setting reading p)

def checkInset : Nat → List Char → Except LiteralFault Unit
  | 0, _ => .ok ()
  | depth + 1, text =>
    match formWith .inset (checkInset depth) (text ++ ['\n']) with
    | .ok _ => .ok ()
    | .error fault => .error fault.inText

def unifyLines : List Char → List Char
  | '\r' :: '\n' :: rest => '\n' :: unifyLines rest
  | c :: rest => (if c = '\r' then '\n' else c) :: unifyLines rest
  | [] => []

def form (text : List Char) : Except LiteralFault Form :=
  if '\x00' ∈ text then .error .zero
  else formWith .literal (checkInset text.length) (unifyLines text)

def fault? (text : List Char) : Option LiteralFault :=
  match form text with
  | .error fault => some fault
  | .ok form =>
    match form.value? with
    | .ok _ => none
    | .error fault => some (.value fault)

end GrammarSampler.Literal
