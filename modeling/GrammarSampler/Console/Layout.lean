import GrammarSampler.Console.Sheet

/-!
Sheets as lines of plain text: markup is dropped, tables are set in columns and outlines indented.
-/
namespace GrammarSampler.Sheet
variable [Markup]

def blanks (n : Nat) : String := String.ofList (List.replicate n ' ')

def pad (width : Nat) (alignment : Alignment) (cell : String) : String :=
  match alignment with
  | .left => cell ++ blanks (width - cell.length)
  | .right => blanks (width - cell.length) ++ cell

def trimEnd (line : String) : String :=
  String.ofList (line.toList.reverse.dropWhile (· = ' ')).reverse

def widthAt (rows : List (List String)) (i : Nat) : Nat :=
  (rows.map fun row => (row.getD i "").length).foldl max 0

def row (alignments : List Alignment) (widths : List Nat) (cells : List String) : String :=
  trimEnd ("  ".intercalate ((alignments.zip (widths.zip cells)).map fun (a, w, cell) => pad w a cell))

def tableLines (t : Table) : List String :=
  let rows := (t.columns.map Column.header :: t.rows).map fun cells => cells.map Markup.plain
  let widths := (List.range t.columns.length).map (widthAt rows)
  Markup.plain t.title :: rows.map (row (t.columns.map Column.alignment) widths)

def lines : Sheet → List String
  | .divider none => ["--"]
  | .divider (some title) => ["-- " ++ Markup.plain title ++ " --"]
  | .text content markup _ => [if markup then Markup.plain content else content]
  | .table t => tableLines t
  | .outline o => o.lines.map fun (depth, label) => blanks (2 * depth) ++ Markup.plain label

end GrammarSampler.Sheet
