import GrammarSampler.Literal.Fault

/-!
The forms of expressions, as far as they matter to a literal, and the values of literals. A form
that is no part of a literal keeps only what it is called.
-/
namespace GrammarSampler.Literal

attribute [local instance (2000)] instPowNat

inductive Numeral where
  | whole (n : Nat)
  | float
  | imaginary
deriving DecidableEq, Repr

/-- How many arguments a call has without a name, whether some have one, and whether some are
unpacked with theirs. -/
structure Arguments where
  positional : Nat
  named : Bool
  unpacked : Bool
deriving DecidableEq, Repr

namespace Arguments

def none : Arguments := ⟨0, false, false⟩

def add (a b : Arguments) : Arguments :=
  ⟨a.positional + b.positional, a.named || b.named, a.unpacked || b.unpacked⟩

end Arguments

inductive Form where
  | name (text : String)
  | constant (text : String)
  | numeral (n : Numeral)
  | quoted
  | tuple (items : List Form)
  | set (items : List Form)
  | dictionary (entries : List (Option Form × Form))
  | call (function : Form) (arguments : Arguments)
  | unary (sign : String) (operand : Form)
  | binary (sign : String) (left right : Form)
  | comparison (left : Form) (isMembership : Bool)
  | starred (body : Form)
  | arguments (arguments : Arguments)
  | other (kind : String)
deriving Repr

namespace Form

def kind : Form → String
  | name _ => "name"
  | constant text => text
  | numeral _ | quoted => "literal"
  | tuple _ => "tuple"
  | set _ => "set display"
  | dictionary _ => "dict literal"
  | call .. => "function call"
  | unary .. | binary .. => "expression"
  | comparison .. => "comparison"
  | starred _ => "starred"
  | arguments _ => "function call"
  | other kind => kind

def isCommand : Form → Option String
  | name text => if text = "print" ∨ text = "exec" then some text else Option.none
  | _ => Option.none

mutual
/-- What stops a form from being the target of a loop. In a membership it is the left side that was
meant. -/
def barrier? : Form → Option Form
  | tuple items => barrierOf? items
  | starred body => body.barrier?
  | comparison left isMembership => if isMembership then left.barrier? else Option.none
  | name _ | other "attribute" => Option.none
  | form => some form

def barrierOf? : List Form → Option Form
  | [] => Option.none
  | item :: rest => item.barrier?.or (barrierOf? rest)
end

inductive Value where
  | whole (n : Nat)
  | float
  | complex
  | constant
  | tuple (items : List Value)
  | set
  | dictionary

namespace Value

mutual
def barrier? : Value → Option String
  | set => some "set"
  | dictionary => some "dict"
  | tuple items => barrierOf? items
  | _ => Option.none

def barrierOf? : List Value → Option String
  | [] => Option.none
  | item :: rest => item.barrier?.or (barrierOf? rest)
end

def asKey (v : Value) : Except ValueFault Unit :=
  v.barrier?.elim (.ok ()) fun kind => .error (.unhashable kind)

end Value

def ofNumeral : Numeral → Value
  | .whole n => .whole n
  | .float => .float
  | .imaginary => .complex

def signedValue? : Form → Option Value
  | numeral n | unary "+" (numeral n) | unary "-" (numeral n) => some (ofNumeral n)
  | _ => Option.none

def floatLimit : Nat := 2 ^ (1024 : Nat) - 2 ^ (970 : Nat)

def sumValue? : Form → Except ValueFault Value
  | binary sign left (numeral .imaginary) =>
    if sign = "+" ∨ sign = "-" then
      match signedValue? left with
      | some (.whole n) => if floatLimit ≤ n then .error .tooLarge else .ok .complex
      | some .float => .ok .complex
      | _ => .error .notLiteral
    else .error .notLiteral
  | form => (signedValue? form).elim (.error .notLiteral) .ok

mutual
def value? : Form → Except ValueFault Value
  | constant _ | quoted => .ok .constant
  | tuple items => (values? items).map .tuple
  | set items => (keys? items).map fun _ => .set
  | dictionary entries => (entries? entries).map fun _ => .dictionary
  | call (name "set") ⟨0, false, false⟩ => .ok .set
  | form => sumValue? form

def values? : List Form → Except ValueFault (List Value)
  | [] => .ok []
  | item :: rest => do
    let v ← item.value?
    return v :: (← values? rest)

def keys? : List Form → Except ValueFault Unit
  | [] => .ok ()
  | item :: rest => do
    (← item.value?).asKey
    keys? rest

def entries? : List (Option Form × Form) → Except ValueFault Unit
  | [] => .ok ()
  | (Option.none, _) :: _ => .error .keyMissing
  | (some key, v) :: rest => do
    let key ← key.value?
    let _ ← v.value?
    key.asKey
    entries? rest
end

end Form
end GrammarSampler.Literal
