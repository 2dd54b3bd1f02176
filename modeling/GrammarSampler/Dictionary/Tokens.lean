import GrammarSampler.Symbol

/-!
Alternatives written as one text, in which a name stands in angle brackets and everything else is
literal. A name is not empty and holds no angle bracket and no blank.
-/
namespace GrammarSampler.Dictionary

def isNameChar (c : Char) : Bool := c != '<' && c != '>' && c != ' '

def nameAt? (cs : List Char) : Option (List Char × List Char) :=
  match cs.takeWhile isNameChar, cs.dropWhile isNameChar with
  | [], _ => none
  | name, '>' :: rest => some (name, rest)
  | _, _ => none

/-- Literal text read so far, last character first, as a symbol; no text is no symbol. -/
def flush (read : List Char) : List Symbol :=
  if read.isEmpty then [] else [.terminal (String.ofList read.reverse)]

def tokensFrom : Nat → List Char → List Char → List Symbol
  | _, read, [] => flush read
  | 0, read, cs => flush (cs.reverse ++ read)
  | fuel + 1, read, c :: cs =>
    if c = '<' then
      match nameAt? cs with
      | some (name, rest) =>
        flush read ++ .nonterminal (String.ofList name) :: tokensFrom fuel [] rest
      | none => tokensFrom fuel (c :: read) cs
    else tokensFrom fuel (c :: read) cs

def tokens (cs : List Char) : List Symbol := tokensFrom cs.length [] cs

def render (symbols : List Symbol) : List Char :=
  symbols.flatMap fun
    | .terminal text => text.toList
    | .nonterminal name => '<' :: (name.toList ++ ['>'])

/-- The name inside angle brackets; any other text stays as it is. -/
def bareName (key : String) : String :=
  match key.toList with
  | '<' :: rest =>
    match rest.getLast?, rest.dropLast with
    | some '>', c :: inner => String.ofList (c :: inner)
    | _, _ => key
  | _ => key

end GrammarSampler.Dictionary
