import GrammarSampler.Console.Markup
import GrammarSampler.Literal.Check
import GrammarSampler.Tags.Piece
import GrammarSampler.Tags.Style
import GrammarSampler.Text.WordChar

/-!
The tags of marked-up text. A closing tag ends the style opened last under its name, or the one
opened last of all if it gives no name. The tag of a handler, whose name begins with an at sign, may
give arguments, which must be a literal. A text can be shown if each closing tag finds an open
style, all arguments are literals and the styles that are shown can be read.
-/
namespace GrammarSampler.Tags

structure Tag where
  name : List Char
  parameter : Option (List Char)
deriving DecidableEq, Repr

namespace Tag

def ofText (text : List Char) : Tag where
  name := text.takeWhile (· ≠ '=')
  parameter := if '=' ∈ text then some ((text.dropWhile (· ≠ '=')).drop 1) else none

def display (t : Tag) : String :=
  let parameter := t.parameter.elim [] ('=' :: ·)
  String.ofList ('[' :: (t.name ++ parameter ++ [']']))

def closing? (t : Tag) : Option (List Char) :=
  match t.name with
  | '/' :: name => some (strip name)
  | _ => none

end Tag

def handlerArguments (parameter : List Char) : List Char :=
  let text := strip parameter
  let isNamePart (c : Char) := isWordChar c || c == '.'
  match text.dropWhile isNamePart with
  | [] => ['(', ')']
  | '(' :: rest =>
    if rest.getLast? = some ')' ∧ '\n' ∉ rest then '(' :: rest else text
  | _ => text

def notOpen (tag : Tag) (position : Nat) : MarkupFault :=
  .malformed ("closing tag '" ++ tag.display ++ "' at position " ++ toString position ++
    " doesn't match any open tag")

def nothingOpen (position : Nat) : MarkupFault :=
  .malformed ("closing tag '[/]' at position " ++ toString position ++ " has nothing to close")

def badArguments (text parameter : List Char) (fault : LiteralFault) : MarkupFault :=
  let place :=
    if fault.isFormal then Quoted.text (String.ofList text) ++ " in " else ""
  .malformed ("error parsing " ++ place ++ Quoted.text (String.ofList parameter) ++ "; " ++ fault.message)

def checkHandler (parameter : List Char) : Except MarkupFault Unit :=
  if parameter.isEmpty then .ok ()
  else
    let text := handlerArguments parameter
    match Literal.fault? text with
    | some fault => .error (badArguments text parameter fault)
    | none => .ok ()

structure Opened where
  start : Nat
  name : String
  parameter : Option (List Char)
deriving DecidableEq, Repr

namespace Opened

def isHandler (o : Opened) : Bool := o.name.toList.head? == some '@'

def style (o : Opened) : String :=
  o.parameter.elim o.name fun parameter => o.name ++ " " ++ String.ofList parameter

end Opened

structure Span where
  start : Nat
  stop : Nat
  style : String
deriving DecidableEq, Repr

/-- What is read of a text: its plain text, the styles that are open and the spans of those that are
closed, the last one first of each. -/
structure Marked where
  text : List Char
  opened : List Opened
  spans : List Span
deriving Repr

namespace Marked

def empty : Marked := ⟨[], [], []⟩

def length (m : Marked) : Nat := m.text.length

def isSilent (c : Char) : Bool := ['\x07', '\x08', '\x0b', '\x0c', '\r'].contains c

def enter (m : Marked) (tag : Tag) : Except MarkupFault Marked := do
  let name ← (Style.normalName? tag.name).mapError .numeral
  return { m with opened := ⟨m.length, name, tag.parameter⟩ :: m.opened }

def leave (m : Marked) (o : Opened) : Except MarkupFault Marked := do
  let m := { m with opened := m.opened.erase o }
  if o.isHandler then
    checkHandler (o.parameter.getD [])
    return m
  else return { m with spans := ⟨o.start, m.length, o.style⟩ :: m.spans }

def read (m : Marked) : Piece → Except MarkupFault Marked
  | .character c => .ok (if isSilent c then m else { m with text := c :: m.text })
  | .tag position text =>
    let tag := Tag.ofText text
    match tag.closing?, m.opened with
    | none, _ => m.enter tag
    | some [], [] => .error (nothingOpen position)
    | some [], last :: _ => m.leave last
    | some name, opened => do
      let style ← (Style.normalName? name).mapError .numeral
      match opened.find? fun o => o.name = style with
      | some o => m.leave o
      | none => .error (notOpen tag position)

/-- All spans by where they begin. Styles that stay open reach to the end, those of handlers too. -/
def allSpans (m : Marked) : List Span :=
  let rest := m.opened.map fun o => ⟨o.start, m.length, o.style⟩
  (rest.reverse ++ m.spans).mergeSort fun a b => a.start ≤ b.start

def columns : Nat := 80

def trimLines (text : List Char) : List Char :=
  (text.foldr (fun c (cs, atEnd) =>
    let atEnd := c == '\n' || (atEnd && isBlank c)
    ((if atEnd then '\n' else c) :: cs, atEnd)) ([], true)).1

/-- The spans that are shown: on a single line all of them, else those that cover something. Blanks
at the end of a line are something unless lines are centred. -/
def shownSpans (m : Marked) (centred : Bool) : List Span :=
  let text := m.text.reverse
  if m.length ≤ columns ∧ '\n' ∉ text ∧ '\t' ∉ text then m.allSpans
  else
    let shown := if centred then trimLines text else text
    m.allSpans.filter fun s => ((shown.drop s.start).take (s.stop - s.start)).any (· ≠ '\n')

end Marked

def check (centred : Bool) (text : String) : Except MarkupFault Unit := do
  let marked ← (pieces text).foldlM Marked.read .empty
  (marked.shownSpans centred).forM fun s => do
    let _ ← (Style.ofName? s.style.toList).mapError MarkupFault.numeral

instance : Markup := ⟨escape, check, plain⟩

end GrammarSampler.Tags
