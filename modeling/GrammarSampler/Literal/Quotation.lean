import GrammarSampler.Literal.Source

/-!
Quoted texts: their escapes, and the expressions that stand between braces in some of them. Only
what can be at fault is told.
-/
namespace GrammarSampler.Literal

structure Quotation where
  isBytes : Bool
  isRaw : Bool
  hasInsets : Bool
  content : List Char
deriving DecidableEq, Repr

namespace Quotation

def ofText (text : List Char) : Quotation :=
  let letters := (text.takeWhile Char.isAlpha).map Char.toLower
  let quoted := text.drop letters.length
  let width := if 6 ≤ quoted.length && (quoted.drop 1).take 2 == quoted.take 2 then 3 else 1
  { isBytes := letters.contains 'b'
    isRaw := letters.contains 'r'
    hasInsets := letters.contains 'f'
    content := (quoted.drop width).take (quoted.length - 2 * width) }

def isAscii (c : Char) : Bool := decide (c.toNat < 128)

def extent : List Char → Nat
  | [] => 0
  | ['\\'] => 6
  | '\\' :: c :: rest => (if isAscii c then 2 else 16) + extent rest
  | c :: rest => (if isAscii c then 1 else 10) + extent rest

def codeLength? : Char → Option Nat
  | 'x' => some 2
  | 'u' => some 4
  | 'U' => some 8
  | _ => none

def hexValue (cs : List Char) : Nat :=
  cs.foldl (fun n c => 16 * n + ("0123456789abcdef".toList.idxOf c.toLower)) 0

def truncated (c : Char) (length : Nat) : String :=
  "truncated \\" ++ c.toString ++ String.ofList (List.replicate length 'X') ++ " escape"

def codeFault? (position : Nat) (c : Char) (length : Nat) (rest : List Char) : Option TextFault :=
  let digits := (rest.take length).takeWhile Base.isHexDigit
  if digits.length < length then
    some (.escape position (position + 1 + digits.length) (truncated c length))
  else if 0x10FFFF < hexValue digits then
    some (.escape position (position + 1 + length) "illegal Unicode character")
  else none

def isName (cs : List Char) : Bool :=
  cs.head?.any Char.isUpper && cs.all fun c => c.isUpper || c.isDigit || c == ' ' || c == '-'

def nameFault? (position : Nat) (rest : List Char) : Option TextFault :=
  let malformed (last : Nat) := some (TextFault.escape position last "malformed \\N character escape")
  match rest with
  | '\x7b' :: rest =>
    let name := rest.takeWhile (· ≠ '\x7d')
    if name.length = rest.length then malformed (position + 2 + extent name)
    else if name.isEmpty then malformed (position + 2)
    else if isName name then none
    else
      let last := position + 2 + extent (name ++ ['\x7d'])
      some (.escape position last "unknown Unicode character name")
  | _ => malformed (position + 1)

def escapeFault? (position : Nat) (c : Char) (rest : List Char) : Option TextFault :=
  if c = 'N' then nameFault? position rest
  else (codeLength? c).bind fun length => codeFault? position c length rest

def textFault? (position : Nat) : List Char → Option TextFault
  | [] | ['\\'] => none
  | '\\' :: c :: rest =>
    match escapeFault? position c rest with
    | some fault => some fault
    | none => textFault? (position + extent ['\\', c]) rest
  | c :: rest => textFault? (position + extent [c]) rest

def bytesFault? (position : Nat) : List Char → Option TextFault
  | [] | ['\\'] => none
  | '\\' :: c :: rest =>
    if c = 'x' ∧ ((rest.take 2).takeWhile Base.isHexDigit).length < 2 then
      some (.byteEscape position)
    else bytesFault? (position + 2) rest
  | _ :: rest => bytesFault? (position + 1) rest

def fault? (q : Quotation) : Option TextFault :=
  if q.isBytes then
    if !q.content.all isAscii then some .notAscii
    else if q.isRaw then none
    else bytesFault? 0 q.content
  else if q.isRaw then none
  else textFault? 0 q.content

/-- Text before an expression, the last character first, and what follows it; a brace written twice
ends it as well, and counts once. -/
structure Stretch where
  before : List Char
  rest : List Char
  atBrace : Bool

def passName (before : List Char) : List Char → List Char × List Char
  | [] => (before, [])
  | '\x7b' :: rest =>
    let name := rest.takeWhile (· ≠ '\x7d')
    let ending := (rest.drop name.length).take 1
    (ending ++ name.reverse ++ '\x7b' :: before, rest.drop (name.length + 1))
  | c :: rest => (c :: before, rest)

theorem passName_rest_length (before cs : List Char) :
    (passName before cs).2.length ≤ cs.length := by
  unfold passName
  split
  · exact Nat.le_refl _
  · simp only [List.length_drop, List.length_cons]
    omega
  · exact Nat.le_succ _

def stretch (isRaw isTop : Bool) (before : List Char) : List Char → Except InsetFault Stretch
  | [] => .ok ⟨before, [], false⟩
  | c :: rest =>
    if c = '\\' ∧ !isRaw ∧ rest.head? = some 'N' then
      stretch isRaw isTop (passName ('N' :: c :: before) (rest.drop 1)).1
        (passName ('N' :: c :: before) (rest.drop 1)).2
    else if c = '\\' ∧ !isRaw ∧ rest.head?.any (fun c => c ≠ '\x7b' ∧ c ≠ '\x7d') then
      stretch isRaw isTop (rest.headD c :: c :: before) (rest.drop 1)
    else if c = '\x7b' ∨ c = '\x7d' then
      if isTop ∧ rest.head? = some c then .ok ⟨c :: before, rest.drop 1, true⟩
      else if isTop ∧ c = '\x7d' then .error .braceAlone
      else .ok ⟨before, c :: rest, false⟩
    else stretch isRaw isTop (c :: before) rest
termination_by cs => cs.length
decreasing_by
  · have := passName_rest_length ('N' :: c :: before) (rest.drop 1)
    simp only [List.length_drop, List.length_cons] at this ⊢
    omega
  · simp only [List.length_drop, List.length_cons]
    omega
  · simp

/-- Where an expression in a text is read: the quote of a text in it, which may stand three times,
and the open brackets. -/
structure Nesting where
  quote : Option (Char × Bool)
  brackets : List Char

def Nesting.fault? (n : Nesting) : Option InsetFault :=
  if n.quote.isSome then some .quoteOpen else n.brackets.head?.map .bracketUnmatched

def endsExpression (c : Char) : Bool := "!:=<>".toList.contains c || c == '\x7d'

def expression (n : Nesting) (before : List Char) :
    List Char → Except InsetFault (List Char × List Char)
  | [] => n.fault?.elim (.error .braceOpen) .error
  | c :: rest =>
    if c = '\\' then .error .backslash
    else
      match n.quote with
      | some (quote, triple) =>
        if c ≠ quote then expression n (c :: before) rest
        else if !triple then expression { n with quote := none } (c :: before) rest
        else if [quote, quote].isPrefixOf rest then
          expression { n with quote := none } (c :: c :: c :: before) (rest.drop 2)
        else expression n (c :: before) rest
      | none =>
        if isQuote c then
          if [c, c].isPrefixOf rest then
            expression { n with quote := some (c, true) } (c :: c :: c :: before) (rest.drop 2)
          else expression { n with quote := some (c, false) } (c :: before) rest
        else if c = '(' ∨ c = '[' ∨ c = '\x7b' then
          if bracketLimit ≤ n.brackets.length then .error .bracketsTooDeep
          else expression { n with brackets := c :: n.brackets } (c :: before) rest
        else if c = '#' then .error .comment
        else if n.brackets.isEmpty ∧ endsExpression c then
          if "!=<>".toList.contains c ∧ rest.head? = some '=' then
            expression n ('=' :: c :: before) (rest.drop 1)
          else if c = '<' ∨ c = '>' then expression n (c :: before) rest
          else .ok (before.reverse, c :: rest)
        else if c = ')' ∨ c = ']' ∨ c = '\x7d' then
          match n.brackets with
          | [] => .error (.bracketUnmatched c)
          | opener :: outer =>
            if c = closerOf opener then expression { n with brackets := outer } (c :: before) rest
            else .error (.bracketMismatched c opener)
        else expression n (c :: before) rest
termination_by cs => cs.length
decreasing_by all_goals simp only [List.length_cons, List.length_drop]; omega

def isInsetSpace (c : Char) : Bool := c == ' ' || c == '\t' || c == '\n' || c == '\x0c'

def emptyFault (rest : List Char) : InsetFault :=
  match rest with
  | c :: _ => if c = '!' ∨ c = ':' ∨ c = '=' then .emptyBefore c else .empty
  | [] => .empty

def behindEquals : List Char → List Char
  | '=' :: rest => rest.dropWhile fun c => isInsetSpace c || c == '\r' || c == '\x0b'
  | cs => cs

def behindConversion : List Char → Except InsetFault (List Char)
  | '!' :: c :: rest => if c = 's' ∨ c = 'r' ∨ c = 'a' then .ok rest else .error .conversion
  | ['!'] => .error .braceOpen
  | cs => .ok cs

def inset (read : List Char → Except LiteralFault Unit)
    (format : List Char → Except LiteralFault (List Char)) (cs : List Char) :
    Except LiteralFault (List Char) := do
  let (text, rest) ← (expression ⟨none, []⟩ [] cs).mapError LiteralFault.inset
  if text.all isInsetSpace then .error (.inset (emptyFault rest))
  else
    read ('(' :: (text ++ [')']))
    let rest ← (behindConversion (behindEquals rest)).mapError LiteralFault.inset
    let rest ←
      match rest with
      | [':'] => .error (.inset .braceOpen)
      | ':' :: rest => format rest
      | rest => .ok rest
    match rest with
    | '\x7d' :: rest => .ok rest
    | _ => .error (.inset .braceOpen)

/-- Expressions stand in a text and in the forms of its expressions, but no deeper. -/
def levelLimit : Nat := 2

/-- Reads a text with expressions at a level; what is left begins with a closing brace, unless the
level is the top. -/
def insets (read : List Char → Except LiteralFault Unit) (isRaw : Bool) :
    Nat → Nat → List Char → Except LiteralFault (List Char)
  | 0, _, cs => .ok cs
  | fuel + 1, level, cs => do
    let part ← (stretch isRaw (level = 0) [] cs).mapError LiteralFault.inset
    if let some fault := if isRaw then none else textFault? 0 part.before.reverse then
      .error (.text fault)
    if part.atBrace then insets read isRaw fuel level part.rest
    else
      match part.rest with
      | '\x7b' :: rest =>
        if levelLimit ≤ level then .error (.inset .tooDeep)
        else
          insets read isRaw fuel level (← inset read (insets read isRaw fuel (level + 1)) rest)
      | rest =>
        if level ≠ 0 ∧ rest.isEmpty then .error (.inset .braceOpen) else .ok rest

def check (read : List Char → Except LiteralFault Unit) (q : Quotation) :
    Except LiteralFault Unit :=
  if q.hasInsets then do
    let _ ← insets read q.isRaw (q.content.length + 1) 0 q.content
  else q.fault?.elim (.ok ()) fun fault => .error (.text fault)

def checkAll (read : List Char → Except LiteralFault Unit) (first : Quotation) :
    List Quotation → Except LiteralFault Unit
  | [] => .ok ()
  | q :: rest => do
    if !q.hasInsets then q.check read
    if q.isBytes ≠ first.isBytes then .error (.text .mixed)
    if q.hasInsets then q.check read
    checkAll read first rest

end Quotation
end GrammarSampler.Literal
