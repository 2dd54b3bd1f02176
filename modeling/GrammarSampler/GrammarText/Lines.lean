import GrammarSampler.Fault
import GrammarSampler.Text.Blank

/-!
The lines of a grammar text: comments are dropped, continuation lines joined, and each definition
is split into the name of its rule and the body.
-/
namespace GrammarSampler.GrammarText

/-- Inside quotes, a backslash protects the next character. -/
inductive Quotation where
  | outside
  | inside (quote : Char)
  | escaped (quote : Char)
deriving DecidableEq, Repr

def Quotation.after (q : Quotation) (c : Char) : Quotation :=
  match q with
  | outside => if c = '"' ∨ c = '\'' then inside c else outside
  | inside quote => if c = '\\' then escaped quote else if c = quote then outside else inside quote
  | escaped quote => inside quote

def stripCommentFrom (q : Quotation) : List Char → List Char
  | [] => []
  | c :: rest => if q = .outside ∧ c = '#' then [] else c :: stripCommentFrom (q.after c) rest

/-- Drops a trailing comment; a number sign inside quotes is text. -/
def stripComment (line : List Char) : List Char := stripCommentFrom .outside line

def lines : List Char → List (List Char)
  | [] => [[]]
  | c :: rest =>
    if c = '\n' then [] :: lines rest
    else
      match lines rest with
      | [] => [[c]]
      | first :: more => (c :: first) :: more

def splitDefinition? : List Char → Option (List Char × List Char)
  | ':' :: ':' :: '=' :: rest => some ([], rest)
  | [] => none
  | c :: rest => (splitDefinition? rest).map fun (name, body) => (c :: name, body)

def ruleName (text : List Char) : List Char :=
  strip (stripWhere (fun c => c == '<' || c == '>') (strip text))

structure Definition where
  name : String
  body : List Char
  line : Nat
deriving DecidableEq, Repr

def continueLast? (line : List Char) : List Definition → Option (List Definition)
  | [] => none
  | last :: earlier => some ({ last with body := last.body ++ ' ' :: line } :: earlier)

def addLine (number : Nat) (raw : List Char) (definitions : List Definition) :
    Except LineFault (List Definition) :=
  let line := strip (stripComment raw)
  match line with
  | [] => .ok definitions
  | '|' :: _ =>
    match continueLast? line definitions with
    | some definitions => .ok definitions
    | none => .error .continuationFirst
  | _ =>
    match splitDefinition? line with
    | none => .error (.definitionMissing (String.ofList line))
    | some (name, body) =>
      match ruleName name with
      | [] => .error .ruleUnnamed
      | name => .ok (⟨String.ofList name, strip body, number⟩ :: definitions)

def addLines (number : Nat) (definitions : List Definition) :
    List (List Char) → Except FormFault (List Definition)
  | [] => .ok definitions.reverse
  | raw :: rest =>
    match addLine number raw definitions with
    | .error fault => .error (.line number fault)
    | .ok definitions => addLines (number + 1) definitions rest

/-- The definitions of a text, in order; lines count from one. -/
def definitions? (text : List Char) : Except FormFault (List Definition) := addLines 1 [] (lines text)

end GrammarSampler.GrammarText
