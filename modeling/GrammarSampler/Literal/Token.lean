import GrammarSampler.Literal.Fault
import GrammarSampler.Text.Identifier

/-!
The tokens of an expression, and the words and signs among them. Every token keeps its line and the
number of brackets that are open behind it.
-/
namespace GrammarSampler.Literal

inductive Token.Kind where
  | name
  | keyword
  | numeral
  | quoted
  | sign
  | newline
  | indent
  | dedent
  | finish
deriving DecidableEq, Repr

structure Token where
  kind : Token.Kind
  text : String
  line : Nat
  depth : Nat
deriving DecidableEq, Repr

def keywords : List String := [
  "False", "None", "True", "and", "as", "assert", "async", "await", "break", "class", "continue",
  "def", "del", "elif", "else", "except", "finally", "for", "from", "global", "if", "import", "in",
  "is", "lambda", "nonlocal", "not", "or", "pass", "raise", "return", "try", "while", "with",
  "yield"]

def signs : List String := [
  "**=", "...", "//=", "<<=", ">>=", "!=", "%=", "&=", "**", "*=", "+=", "-=", "->", "//", "/=",
  ":=", "<<", "<=", "<>", "==", ">=", ">>", "@=", "^=", "|="]

def startsWord (c : Char) : Bool := c.isAlpha || c == '_' || decide (128 ≤ c.toNat)

def continuesWord (c : Char) : Bool := startsWord c || c.isDigit

def barredIn? : List Char → Option Char
  | [] => none
  | c :: rest =>
    if Identifier.isStart c then rest.find? fun c => !Identifier.isPart c else some c

end GrammarSampler.Literal
