import GrammarSampler.Number.Read

/-!
Why a text is no literal: its tokens, the escapes in its quoted texts, the form of its expression or
the value may be at fault.
-/
namespace GrammarSampler

inductive TokenFault where
  | bracketOpen (opener : Char)
  | bracketUnmatched (closer : Char)
  | bracketMismatched (closer opener : Char) (line : Option Nat)
  | bracketsTooDeep
  | quoteOpen (triple : Bool) (line : Nat)
  | numeral (base : String)
  | digit (found : Char) (base : String)
  | leadingZero
  | character (c : Char)
  | continuation
  | endInContinuation
  | indentation
deriving DecidableEq, Repr

namespace TokenFault

def codePoint (c : Char) : String :=
  "U+" ++ String.ofList ((Quoted.hexDigits 4 c.toNat).map Char.toUpper)

def message : TokenFault → String
  | bracketOpen opener => "'" ++ opener.toString ++ "' was never closed"
  | bracketUnmatched closer => "unmatched '" ++ closer.toString ++ "'"
  | bracketMismatched closer opener line =>
    "closing parenthesis '" ++ closer.toString ++ "' does not match opening parenthesis '" ++
      opener.toString ++ "'" ++ line.elim "" fun n => " on line " ++ toString n
  | bracketsTooDeep => "too many nested parentheses"
  | quoteOpen triple line =>
    "unterminated " ++ (if triple then "triple-quoted " else "") ++
      "string literal (detected at line " ++ toString line ++ ")"
  | numeral base => "invalid " ++ base ++ " literal"
  | digit found base => "invalid digit '" ++ found.toString ++ "' in " ++ base ++ " literal"
  | leadingZero =>
    "leading zeros in decimal integer literals are not permitted; " ++
      "use an 0o prefix for octal integers"
  | character c =>
    if Printable.isPrintable c then
      "invalid character '" ++ c.toString ++ "' (" ++ codePoint c ++ ")"
    else "invalid non-printable character " ++ codePoint c
  | continuation => "unexpected character after line continuation character"
  | endInContinuation => "unexpected EOF while parsing"
  | indentation => "unexpected indent"

def isPressing : TokenFault → Bool
  | bracketOpen _ | continuation | endInContinuation | indentation => false
  | _ => true

end TokenFault

inductive TextFault where
  | escape (first last : Nat) (reason : String)
  | byteEscape (position : Nat)
  | notAscii
  | mixed
deriving DecidableEq, Repr

namespace TextFault

def message : TextFault → String
  | escape first last reason =>
    "(unicode error) 'unicodeescape' codec can't decode bytes in position " ++ toString first ++
      "-" ++ toString last ++ ": " ++ reason
  | byteEscape position => "(value error) invalid \\x escape at position " ++ toString position
  | notAscii => "bytes can only contain ASCII literal characters"
  | mixed => "cannot mix bytes and nonbytes literals"

end TextFault

inductive InsetFault where
  | braceOpen
  | braceAlone
  | empty
  | emptyBefore (c : Char)
  | backslash
  | comment
  | tooDeep
  | quoteOpen
  | bracketUnmatched (c : Char)
  | bracketMismatched (closer opener : Char)
  | bracketsTooDeep
  | conversion
deriving DecidableEq, Repr

namespace InsetFault

def message : InsetFault → String
  | braceOpen => "f-string: expecting '\x7d'"
  | braceAlone => "f-string: single '\x7d' is not allowed"
  | empty => "f-string: empty expression not allowed"
  | emptyBefore c => "f-string: expression required before '" ++ c.toString ++ "'"
  | backslash => "f-string expression part cannot include a backslash"
  | comment => "f-string expression part cannot include '#'"
  | tooDeep => "f-string: expressions nested too deeply"
  | quoteOpen => "f-string: unterminated string"
  | bracketUnmatched c => "f-string: unmatched '" ++ c.toString ++ "'"
  | bracketMismatched closer opener =>
    "f-string: closing parenthesis '" ++ closer.toString ++
      "' does not match opening parenthesis '" ++ opener.toString ++ "'"
  | bracketsTooDeep => "f-string: too many nested parenthesis"
  | conversion => "f-string: invalid conversion character: expected 's', 'r', or 'a'"

end InsetFault

inductive ParameterFault where
  | defaultMissing
  | defaultBefore
  | bracketed
  | slashFirst
  | slashTwice
  | slashBehindStar
  | commaMissing
  | namedMissing
  | restDefault
  | starTwice
  | namedRestDefault
  | behindNamedRest
deriving DecidableEq, Repr

namespace ParameterFault

def message : ParameterFault → String
  | defaultMissing => "expected default value expression"
  | defaultBefore => "non-default argument follows default argument"
  | bracketed => "Lambda expression parameters cannot be parenthesized"
  | slashFirst => "at least one argument must precede /"
  | slashTwice => "/ may appear only once"
  | slashBehindStar => "/ must be ahead of *"
  | commaMissing => "expected comma between / and *"
  | namedMissing => "named arguments must follow bare *"
  | restDefault => "var-positional argument cannot have default value"
  | starTwice => "* argument may appear only once"
  | namedRestDefault => "var-keyword argument cannot have default value"
  | behindNamedRest => "arguments cannot follow var-keyword argument"

end ParameterFault

inductive ExpressionFault where
  | unreadable
  | commaMissing
  | elseMissing
  | bracketsMissing (name : String)
  | equalsSign
  | equalsSignBehind (form : String)
  | notNamed (form : String)
  | notTarget (form : String)
  | starred
  | doubleStarred
  | starAlone
  | starredGenerator
  | doubleStarredGenerator
  | targetBrackets
  | starredValue
  | valueMissing
  | colonMissing
  | assignmentInArgument
  | positionalBehindNamed (unpacked : Bool)
  | starBehindNamed
  | generatorBrackets
  | parameter (fault : ParameterFault)
  | tooManyDigits (count : Nat)
deriving DecidableEq, Repr

namespace ExpressionFault

def message : ExpressionFault → String
  | unreadable => "invalid syntax"
  | commaMissing => "invalid syntax. Perhaps you forgot a comma?"
  | elseMissing => "expected 'else' after 'if' expression"
  | bracketsMissing name =>
    "Missing parentheses in call to '" ++ name ++ "'. Did you mean " ++ name ++ "(...)?"
  | equalsSign => "invalid syntax. Maybe you meant '==' or ':=' instead of '='?"
  | equalsSignBehind form =>
    "cannot assign to " ++ form ++ " here. Maybe you meant '==' instead of '='?"
  | notNamed form => "cannot use assignment expressions with " ++ form
  | notTarget form => "cannot assign to " ++ form
  | starred => "cannot use starred expression here"
  | doubleStarred => "cannot use double starred expression here"
  | starAlone => "Invalid star expression"
  | starredGenerator => "iterable unpacking cannot be used in comprehension"
  | doubleStarredGenerator => "dict unpacking cannot be used in dict comprehension"
  | targetBrackets => "did you forget parentheses around the comprehension target?"
  | starredValue => "cannot use a starred expression in a dictionary value"
  | valueMissing => "expression expected after dictionary key and ':'"
  | colonMissing => "':' expected after dictionary key"
  | assignmentInArgument => "expression cannot contain assignment, perhaps you meant \"==\"?"
  | positionalBehindNamed unpacked =>
    "positional argument follows keyword argument" ++ if unpacked then " unpacking" else ""
  | starBehindNamed => "iterable argument unpacking follows keyword argument unpacking"
  | generatorBrackets => "Generator expression must be parenthesized"
  | parameter fault => fault.message
  | tooManyDigits count =>
    (NumeralFault.tooManyDigits count).message ++
      " - Consider hexadecimal for huge integer literals to avoid decimal conversion limits."

end ExpressionFault

inductive ValueFault where
  | notLiteral
  | keyMissing
  | unhashable (kind : String)
  | tooLarge
deriving DecidableEq, Repr

namespace ValueFault

def message : ValueFault → String
  | notLiteral => "malformed node or string"
  | keyMissing => "malformed node or string: None"
  | unhashable kind => "unhashable type: '" ++ kind ++ "'"
  | tooLarge => "int too large to convert to float"

end ValueFault

inductive LiteralFault where
  | zero
  | token (fault : TokenFault)
  | text (fault : TextFault)
  | inset (fault : InsetFault)
  | expression (fault : ExpressionFault)
  | value (fault : ValueFault)
  | within (fault : LiteralFault)
deriving DecidableEq, Repr

namespace LiteralFault

def isPressing : LiteralFault → Bool
  | token fault => fault.isPressing
  | _ => false

def message : LiteralFault → String
  | zero => "source code string cannot contain null bytes"
  | token fault => fault.message
  | text fault => fault.message
  | inset fault => fault.message
  | expression fault => fault.message
  | value fault => fault.message
  | within fault => (if fault.isPressing then "" else "f-string: ") ++ fault.message

def inText : LiteralFault → LiteralFault
  | within fault => within fault
  | fault => within fault

def isFormal : LiteralFault → Bool
  | value _ => false
  | _ => true

end LiteralFault
end GrammarSampler
