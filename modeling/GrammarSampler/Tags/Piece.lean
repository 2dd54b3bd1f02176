/-!
Marked-up text: tags such as `[red]` and `[/red]` set a style. Text that must not be read as a tag
is escaped with backslashes; `pieces` tells characters and tags apart, `plain` keeps the characters.
-/
namespace GrammarSampler.Tags

def isTagStart (c : Char) : Bool :=
  decide ('a' ≤ c ∧ c ≤ 'z') || c == '#' || c == '/' || c == '@'

/-- An opening bracket before `cs` begins a tag: a bracket closes it and none opens in it. -/
def opensTag : List Char → Bool
  | [] => false
  | c :: rest => isTagStart c && (rest.dropWhile fun d => d != ']' && d != '[').head? == some ']'

def slashes (n : Nat) : List Char := List.replicate n '\\'

/-- Copies text after `n` backslashes. Before a tag they are doubled and one is added. -/
def escapeFrom : Nat → List Char → List Char
  | n, [] => slashes n
  | n, c :: rest =>
    if c = '\\' then escapeFrom (n + 1) rest
    else
      let before := if c = '[' ∧ opensTag rest then 2 * n + 1 else n
      slashes before ++ c :: escapeFrom 0 rest

def guardEnd (cs : List Char) : List Char :=
  match cs.reverse with
  | ['\\'] => ['\\', '\\']
  | '\\' :: c :: _ => if c = '\\' then cs else cs ++ ['\\']
  | _ => cs

def escape (text : String) : String := String.ofList (guardEnd (escapeFrom 0 text.toList))

inductive Piece where
  | character (c : Char)
  | tag (position : Nat) (text : List Char)
deriving DecidableEq, Repr

namespace Piece

def character? : Piece → Option Char
  | character c => some c
  | tag .. => none

end Piece

def afterTag (cs : List Char) : List Char := (cs.dropWhile (· ≠ ']')).drop 1

theorem afterTag_length (cs : List Char) : (afterTag cs).length ≤ cs.length := by
  have shorter : (cs.dropWhile (· ≠ ']')).length ≤ cs.length := (List.dropWhile_sublist _).length_le
  simp only [afterTag, List.length_drop]
  omega

/-- The pieces of text from a position on, behind `n` backslashes. Before a tag they count by twos,
and one that is left over makes the tag plain text; before another bracket the last one is lost. -/
def piecesFrom (position n : Nat) : List Char → List Piece
  | [] => (slashes n).map .character
  | c :: rest =>
    if c = '\\' then piecesFrom (position + 1) (n + 1) rest
    else if c = '[' ∧ opensTag rest then
      let before := (slashes (n / 2)).map .character
      if n % 2 = 1 then before ++ .character c :: piecesFrom (position + 1) 0 rest
      else
        let text := rest.takeWhile (· ≠ ']')
        before ++ .tag position text :: piecesFrom (position + text.length + 2) 0 (afterTag rest)
    else
      let before := slashes (if c = '[' then n - 1 else n)
      before.map .character ++ .character c :: piecesFrom (position + 1) 0 rest
termination_by cs => cs.length
decreasing_by
  · simp
  · simp
  · exact Nat.lt_succ_of_le (afterTag_length rest)
  · simp

def pieces (text : String) : List Piece := piecesFrom 0 0 text.toList

def plain (text : String) : String := String.ofList ((pieces text).filterMap Piece.character?)

end GrammarSampler.Tags
