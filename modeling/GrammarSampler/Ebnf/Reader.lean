import GrammarSampler.Ebnf.Basic
import GrammarSampler.Fault
import GrammarSampler.Text.Blank

/-!
Reading rule bodies. A body is alternatives separated by bars; an element is a quoted text, a name
in angle brackets or a body in brackets, and may be followed at once by one of `?`, `*` and `+`.
Square brackets make a body optional, braces repeat it, parentheses only group it.
-/
namespace GrammarSampler.Ebnf

/-- A failed reading keeps the elements that were complete, in the order of their completion. -/
inductive Reading where
  | done (body : Body) (rest : List Char)
  | failed (fault : LineFault) (complete : List Item)
deriving Repr

inductive Element where
  | done (item : Item) (rest : List Char)
  | failed (fault : LineFault) (complete : List Item)
deriving Repr

def unescape : Char → Char
  | 'n' => '\n'
  | 't' => '\t'
  | 'r' => '\r'
  | '0' => '\x00'
  | c => c

def quotedText (quote : Char) : List Char → Option (List Char × List Char)
  | [] => none
  | '\\' :: c :: rest => (quotedText quote rest).map fun (cs, rest) => (unescape c :: cs, rest)
  | c :: rest =>
    if c = quote then some ([], rest)
    else (quotedText quote rest).map fun (cs, rest) => (c :: cs, rest)

def isQuote (c : Char) : Bool := c == '"' || c == '\''

def bracket? : Char → Option (Char × Option Times)
  | '[' => some (']', some .optional)
  | '\x7b' => some ('\x7d', some .star)
  | '(' => some (')', none)
  | _ => none

def enclosed (body : Body) : Option Times → Item
  | none => .group body
  | some times => .repeated (.group body) times

def signed (item : Item) (rest : List Char) : Item × List Char :=
  match rest with
  | c :: after =>
    match Times.ofChar? c with
    | some times => (.repeated item times, after)
    | none => (item, rest)
  | [] => (item, rest)

def positionBefore (total : Nat) (rest : List Char) : Nat := total - rest.length - 1

def readReference (total : Nat) (cs : List Char) : Element :=
  match cs.dropWhile (· ≠ '>') with
  | [] => .failed (.referenceOpen (positionBefore total cs)) []
  | _ :: rest =>
    match strip (cs.takeWhile (· ≠ '>')) with
    | [] => .failed (.referenceEmpty (positionBefore total cs)) []
    | name => .done (.reference (String.ofList name)) rest

/-- What is read of a body: the alternatives before the current one and the elements of that, the
last of them first. -/
structure Begun where
  prior : Body
  current : List Item
deriving Repr

namespace Begun

def nextAlternative (b : Begun) : Begun := ⟨b.current.reverse :: b.prior, []⟩

def add (b : Begun) (item : Item) : Begun := { b with current := item :: b.current }

def body (b : Begun) : Body := b.nextAlternative.prior.reverse

end Begun

mutual
/-- Reads alternatives up to the closing bracket, or to the end if there is none. `total` is the
length of the whole body, from which positions are counted. -/
def readBody (total : Nat) (closer : Option Char) : Nat → Begun → List Char → Reading
  | 0, begun, cs => .failed (.unexpected (cs.headD ' ') (total - cs.length)) begun.body.flatten
  | fuel + 1, begun, cs =>
    match cs with
    | [] =>
      match closer with
      | some c => .failed (.closerMissing c) begun.body.flatten
      | none => .done begun.body []
    | c :: rest =>
      if isBlank c then readBody total closer fuel begun rest
      else if c = '|' then readBody total closer fuel begun.nextAlternative rest
      else if closer = some c then .done begun.body rest
      else
        match readElement total fuel c rest with
        | .failed fault complete => .failed fault (begun.body.flatten ++ complete)
        | .done item rest =>
          let (item, rest) := signed item rest
          readBody total closer fuel (begun.add item) rest

def readElement (total : Nat) : Nat → Char → List Char → Element
  | 0, c, cs => .failed (.unexpected c (positionBefore total cs)) []
  | fuel + 1, c, cs =>
    if isQuote c then
      match quotedText c cs with
      | some (text, rest) => .done (.literal (String.ofList text)) rest
      | none => .failed (.quoteOpen (positionBefore total cs)) []
    else if c = '<' then readReference total cs
    else
      match bracket? c with
      | some (closer, times) =>
        match readBody total (some closer) fuel ⟨[], []⟩ cs with
        | .failed fault complete => .failed fault complete
        | .done body rest => .done (enclosed body times) rest
      | none => .failed (.unexpected c (positionBefore total cs)) []
end

/-- Reads a whole body; at most two calls per character are needed. -/
def read (body : List Char) : Reading :=
  readBody body.length none (2 * body.length + 2) ⟨[], []⟩ body

end GrammarSampler.Ebnf
