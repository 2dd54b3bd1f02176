import GrammarSampler.Literal.Digits

/-!
An expression as its tokens. Blanks and comments part them; the end of a line is one of them where
no bracket is open.
-/
namespace GrammarSampler.Literal

def marks : List String := ["", "b", "r", "u", "f", "br", "rb", "fr", "rf"]

def isQuote (c : Char) : Bool := c == '"' || c == '\''

def marks? (cs : List Char) : Option (List Char) :=
  let letters := (cs.takeWhile Char.isAlpha).map Char.toLower
  if marks.contains (String.ofList letters) && (cs.drop letters.length).head?.any isQuote then
    some letters
  else none

def behindQuote (quote : Char) : List Char → Except (List Char) (List Char)
  | [] | ['\\'] => .error []
  | '\\' :: _ :: rest => behindQuote quote rest
  | c :: rest =>
    if c = quote then .ok rest else if c = '\n' then .error (c :: rest) else behindQuote quote rest

def behindQuotes (quote : Char) : List Char → Option (List Char)
  | [] | ['\\'] => none
  | '\\' :: _ :: rest => behindQuotes quote rest
  | c :: rest =>
    if c = quote ∧ [quote, quote].isPrefixOf rest then some (rest.drop 2)
    else behindQuotes quote rest

def newlines (cs : List Char) : Nat := cs.count '\n'

def behindQuoted (line : Nat) (quote : Char) (cs : List Char) : Except TokenFault (List Char) :=
  if [quote, quote].isPrefixOf cs then
    match behindQuotes quote (cs.drop 2) with
    | some rest => .ok rest
    | none => .error (.quoteOpen true (line + newlines cs))
  else
    match behindQuote quote cs with
    | .ok rest => .ok rest
    | .error rest => .error (.quoteOpen false (line + (newlines cs - newlines rest)))

def signLength (cs : List Char) : Nat :=
  ((signs.find? fun sign => sign.toList.isPrefixOf cs).map String.length).getD 1

def lexeme (line : Nat) (c : Char) (rest : List Char) : Except TokenFault (Token.Kind × Nat) := do
  match marks? (c :: rest) with
  | some letters =>
    let quoted := (c :: rest).drop letters.length
    let after ← behindQuoted line (quoted.headD '"') (quoted.drop 1)
    return (.quoted, rest.length - after.length)
  | none =>
    if startsWord c then
      let word := c :: rest.takeWhile continuesWord
      match barredIn? word with
      | some c => .error (.character c)
      | none =>
        let isKeyword := keywords.contains (String.ofList word)
        return (if isKeyword then .keyword else .name, word.length - 1)
    else if c.isDigit || (c == '.' && rest.head?.any Char.isDigit) then
      return (.numeral, rest.length - (← behindNumeral c rest).length)
    else if Printable.isPrintable c then return (.sign, signLength (c :: rest) - 1)
    else .error (.character c)

structure Indent where
  columns : Nat
  characters : Nat
deriving DecidableEq, Repr

namespace Indent

def none : Indent := ⟨0, 0⟩

def afterSpace (i : Indent) : Indent := ⟨i.columns + 1, i.characters + 1⟩

def afterTab (i : Indent) : Indent := ⟨(i.columns / 8 + 1) * 8, i.characters + 1⟩

end Indent

/-- Where a text is read: the line, the open brackets with theirs, and the indents of the blocks
that are open, the innermost first. -/
structure Place where
  line : Nat
  brackets : List (Char × Nat)
  blocks : List Indent
deriving Repr

def bracketLimit : Nat := 200

def closerOf : Char → Char
  | '(' => ')'
  | '[' => ']'
  | _ => '\x7d'

namespace Place

def depth (p : Place) : Nat := p.brackets.length

def pass (p : Place) (c : Char) : Except TokenFault Place :=
  if c = '(' ∨ c = '[' ∨ c = '\x7b' then
    if bracketLimit ≤ p.depth then .error .bracketsTooDeep
    else .ok { p with brackets := (c, p.line) :: p.brackets }
  else if c = ')' ∨ c = ']' ∨ c = '\x7d' then
    match p.brackets with
    | [] => .error (.bracketUnmatched c)
    | (opener, line) :: outer =>
      if c = closerOf opener then .ok { p with brackets := outer }
      else .error (.bracketMismatched c opener (if line = p.line then none else some line))
  else .ok p

def passToken (p : Place) (kind : Token.Kind) (text : List Char) : Except TokenFault Place :=
  match kind, text with
  | .sign, [c] => p.pass c
  | _, text => .ok { p with line := p.line + newlines text }

/-- Closes the blocks that are indented further than a line, which must be as far as the next. -/
def closeBlocks (i : Indent) : List Indent → Nat → Option (Nat × List Indent)
  | [], closed => if i = .none then some (closed, []) else none
  | block :: outer, closed =>
    if i.columns < block.columns then closeBlocks i outer (closed + 1)
    else if i = block then some (closed, block :: outer)
    else none

/-- Begins a line: opens a block or closes some. Columns and characters must tell the same. -/
def begin? (p : Place) (i : Indent) : Option (List Token × Place) :=
  let block := p.blocks.headD .none
  if block.columns < i.columns then
    if block.characters < i.characters then
      some ([⟨.indent, "", p.line, 0⟩], { p with blocks := i :: p.blocks })
    else none
  else do
    let (closed, blocks) ← closeBlocks i p.blocks 0
    return (List.replicate closed ⟨.dedent, "", p.line, 0⟩, { p with blocks })

end Place

/-- All tokens of a text up to its end, or to a fault that hides the rest; the bracket and the line
are those of the bracket that was opened last of those open there. Nothing is left of a text if its
last token could only be told by the end. -/
structure Source where
  tokens : Array Token
  fault : Option TokenFault
  unclosed : Option (Char × Nat)
  nothingLeft : Bool
deriving Repr

namespace Source

def stopped (p : Place) (before : Array Token) (fault : TokenFault) : Source :=
  ⟨before, some fault, p.brackets.head?, false⟩

def ended (p : Place) (before : Array Token) : Source :=
  match p.brackets with
  | (opener, _) :: _ => { stopped p before (.bracketOpen opener) with nothingLeft := true }
  | [] => ⟨before.push ⟨.finish, "", p.line, 0⟩, none, none, true⟩

def isSpace (c : Char) : Bool := c == ' ' || c == '\t' || c == '\x0c'

/-- The blanks at the front of a line, which a backslash may carry on to the next: the indent behind
them, which the first such backslash fixes, the lines they end and what follows them. -/
structure Margin where
  indent : Indent
  fixed : Nat
  lines : Nat
  rest : List Char

namespace Margin

def read (indent : Indent) (fixed lines : Nat) : List Char → Margin
  | ' ' :: rest => read indent.afterSpace fixed lines rest
  | '\t' :: rest => read indent.afterTab fixed lines rest
  | '\x0c' :: rest => read .none fixed lines rest
  | '\\' :: '\n' :: c :: rest =>
    read indent (if fixed = 0 then indent.columns else fixed) (lines + 1) (c :: rest)
  | cs => ⟨if fixed = 0 then indent else ⟨fixed, fixed⟩, fixed, lines, cs⟩

theorem read_rest_length (indent : Indent) (fixed lines : Nat) (cs : List Char) :
    (read indent fixed lines cs).rest.length ≤ cs.length := by
  fun_induction read indent fixed lines cs <;> simp_all <;> omega

def ofLine (cs : List Char) : Margin := read .none 0 0 cs

theorem ofLine_rest_length (cs : List Char) : (ofLine cs).rest.length ≤ cs.length :=
  read_rest_length .none 0 0 cs

end Margin

def isBare (cs : List Char) : Bool := cs.head?.any fun c => c == '#' || c == '\n' || c == '\\'

def scan (p : Place) (bare : Bool) (before : Array Token) : List Char → Source
  | [] => ended p before
  | c :: rest =>
    if isSpace c then scan p bare before rest
    else if c = '#' then scan p bare before (rest.dropWhile (· ≠ '\n'))
    else if c = '\n' then
      let before :=
        if bare || p.depth ≠ 0 then before else before.push ⟨.newline, "", p.line, 0⟩
      let margin := Margin.ofLine rest
      let p := { p with line := p.line + 1 + margin.lines }
      if isBare margin.rest then scan p true before margin.rest
      else if p.depth ≠ 0 then scan p false before margin.rest
      else
        match p.begin? margin.indent with
        | some (blocks, p) => scan p false (before ++ blocks) margin.rest
        | none => stopped p before .indentation
    else if c = '\\' then
      if rest.head? ≠ some '\n' then stopped p before .continuation
      else if rest.length = 1 then
        stopped p before (p.brackets.head?.elim .endInContinuation fun b => .bracketOpen b.1)
      else scan { p with line := p.line + 1 } bare before (rest.drop 1)
    else
      match lexeme p.line c rest with
      | .error fault => stopped p before fault
      | .ok (kind, length) =>
        let text := c :: rest.take length
        match p.passToken kind text with
        | .error fault => stopped p before fault
        | .ok next =>
          let token : Token := ⟨kind, String.ofList text, p.line, next.depth⟩
          scan next false (before.push token) (rest.drop length)
termination_by cs => cs.length
decreasing_by
  · simp
  · exact Nat.lt_succ_of_le (List.dropWhile_sublist _).length_le
  · exact Nat.lt_succ_of_le (Margin.ofLine_rest_length rest)
  · exact Nat.lt_succ_of_le (Margin.ofLine_rest_length rest)
  · exact Nat.lt_succ_of_le (Margin.ofLine_rest_length rest)
  · simp only [List.length_cons, List.length_drop]
    omega
  · simp only [List.length_cons, List.length_drop]
    omega

/-- A token that another character could have made longer; two quotes may become three. -/
def isOpenEnded (t : Token) : Bool :=
  match t.kind with
  | .quoted => (t.text.toList.dropWhile Char.isAlpha).length == 2
  | .sign => t.text.length != 3
  | _ => true

def ofText (cs : List Char) : Source :=
  let source := scan ⟨0, [], []⟩ true #[] ('\n' :: cs)
  { source with
    nothingLeft := source.nothingLeft &&
      source.tokens.back?.any fun t => isOpenEnded t && t.text.toList.isSuffixOf cs }

end Source
end GrammarSampler.Literal
