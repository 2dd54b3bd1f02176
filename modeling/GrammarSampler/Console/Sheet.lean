import GrammarSampler.Console.Outline
import GrammarSampler.Generation.Statistics
import GrammarSampler.Grammar.Basic

/-!
What is shown on the console beside the texts: rule listings, the cost table of a grammar, outlines
of trees and the statistics of a batch.
-/
namespace GrammarSampler

inductive Alignment where
  | left
  | right
deriving DecidableEq, Repr

namespace Alignment

def text : Alignment → String
  | left => "left"
  | right => "right"

end Alignment

structure Column where
  header : String
  style : String
  alignment : Alignment
deriving DecidableEq, Repr

structure Table where
  title : String
  columns : List Column
  rows : List (List String)
deriving DecidableEq, Repr

/-- Texts are read as markup and their values highlighted, unless that is turned off. -/
inductive Sheet where
  | divider (title : Option String)
  | text (content : String) (markup highlight : Bool)
  | table (table : Table)
  | outline (outline : Outline)
deriving Repr

namespace Sheet
variable [Markup]

def markedTexts : Sheet → List String
  | .divider title => title.toList
  | .text content markup _ => if markup then [content] else []
  | .table t => t.columns.map Column.header ++ t.rows.flatten
  | .outline o => o.lines.map Prod.snd

def checkMarkup (s : Sheet) : Except MarkupFault Unit := do
  if let .table t := s then Markup.check true t.title
  s.markedTexts.forM (Markup.check false)

def alternativeLines : List Expansion → List Sheet
  | [] => []
  | first :: rest =>
    .text ("    " ++ first.display) false false ::
      rest.map fun e => .text ("  | " ++ e.display) false false

def rule (name : String) (alternatives : List Expansion) : List Sheet :=
  .text ("\n[cyan]" ++ Symbol.bracketed name ++ "[/cyan] ::=") true false ::
    alternativeLines alternatives

def parsed (rules : Rules) : List Sheet :=
  .divider (some "[bold]PARSED GRAMMAR") ::
    (rules.flatMap fun (name, alternatives) => rule name alternatives) ++ [.divider none]

def costText : Cost → String
  | .finite n => toString n
  | .infinite => "[red]inf[/red]"

def costRow (g : Grammar) (name : String) (alternatives : List Expansion) : List String :=
  [Markup.escape (Symbol.bracketed name), costText (Cost.ofName g.costs name),
    Markup.escape (Expansion.displayAll alternatives)]

def costTable (g : Grammar) : Table where
  title := "Grammar " ++ Symbol.bracketed g.start
  columns := [⟨"Nonterminal", "cyan", .left⟩, ⟨"Cost", "", .right⟩, ⟨"Alternatives", "", .left⟩]
  rows := g.rules.map fun (name, alternatives) => costRow g name alternatives

def remark (title : String) (names : List String) : List Sheet :=
  if names.isEmpty then [] else [.text (title ++ " " ++ ", ".intercalate names) true true]

def costs (g : Grammar) : List Sheet :=
  .table (costTable g) ::
    remark "[yellow]Unreachable:[/yellow]" g.unreachable ++
    remark "[red]Unproductive:[/red]" g.unproductive

def fixed (places : Nat) (n : Number) : Except NumberFault String :=
  n.toFloat.map (fixedText places)

def statistics (s : Statistics) : Except NumberFault Sheet := do
  let average ← fixed 1 s.averageLength
  let share ← fixed 1 s.uniqueness
  let elapsed ← fixed 3 s.elapsed
  return .table {
    title := "Generation statistics"
    columns := [⟨"Metric", "", .left⟩, ⟨"Value", "", .right⟩]
    rows := [
      ["Samples", toString s.samples],
      ["Avg length", average],
      ["Length range", toString s.shortest ++ "-" ++ toString s.longest],
      ["Unique outputs", toString s.unique],
      ["Uniqueness", share ++ "%"],
      ["Elapsed", elapsed ++ "s"],
      ["Strings/sec", fixedText 1 s.rate]] }

end Sheet
end GrammarSampler
