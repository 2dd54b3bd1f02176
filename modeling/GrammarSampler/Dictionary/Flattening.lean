import GrammarSampler.Dictionary.Tokens
import GrammarSampler.Ebnf.Lowering

/-!
Flattening of extended alternatives. A parenthesised group before a sign becomes a fresh name, whose
rule is queued; a name before a sign becomes a fresh name with the rule for that sign. The
leftmost match is replaced until there is none.
-/
namespace GrammarSampler.Dictionary
open Ebnf (Times Lowering)

attribute [local instance (2000)] instPowNat

structure Match where
  before : List Char
  inner : List Char
  sign : Char
  after : List Char
deriving DecidableEq, Repr

def isGroupChar (c : Char) : Bool := c != '(' && c != ')'

def groupAt? (cs : List Char) : Option Match :=
  match cs.takeWhile isGroupChar, cs.dropWhile isGroupChar with
  | [], _ => none
  | content, ')' :: c :: rest => (Times.ofChar? c).map fun _ => ⟨[], content, c, rest⟩
  | _, _ => none

def signedNameAt? (cs : List Char) : Option Match :=
  match nameAt? cs with
  | some (name, c :: rest) => (Times.ofChar? c).map fun _ => ⟨[], name, c, rest⟩
  | _ => none

def search (opening : Char) (found : List Char → Option Match) : List Char → Option Match
  | [] => none
  | c :: rest =>
    let here := if c = opening then found rest else none
    match here with
    | some m => some m
    | none => (search opening found rest).map fun m => { m with before := c :: m.before }

def findGroup? : List Char → Option Match := search '(' groupAt?

def findSignedName? : List Char → Option Match := search '<' signedNameAt?

def bracketed (name : String) : List Char := '<' :: (name.toList ++ ['>'])

structure Pending where
  name : String
  alternatives : List (List Char × Option Number)
deriving DecidableEq, Repr

structure Flattening where
  taken : List String
  rules : Rules
  queue : List Pending
deriving DecidableEq, Repr

/-- Puts a fresh name with the sign in the place of each group and queues the rule of that name. -/
def flattenGroups (name : String) :
    Nat → List Char → Flattening → Option (List Char × Flattening)
  | 0, _, _ => none
  | fuel + 1, text, f =>
    match findGroup? text with
    | none => some (text, f)
    | some m =>
      let fresh := Fresh.name f.taken name
      let text := m.before ++ bracketed fresh ++ m.sign :: m.after
      let f := { f with taken := fresh :: f.taken, queue := f.queue ++ [⟨fresh, [(m.inner, none)]⟩] }
      flattenGroups name fuel text f

/-- Puts a fresh name in the place of each name with a sign and adds the rule for the sign. -/
def flattenSigns (name : String) :
    Nat → List Char → Flattening → Option (List Char × Flattening)
  | 0, _, _ => none
  | fuel + 1, text, f =>
    match findSignedName? text with
    | none => some (text, f)
    | some m =>
      let content : List Symbol := [.nonterminal (String.ofList m.inner)]
      let times := (Times.ofChar? m.sign).getD .optional
      let (fresh, l) := (Lowering.mk f.taken f.rules).define name fun fresh => times.expansions fresh content
      let f := { f with taken := l.taken, rules := l.rules }
      flattenSigns name fuel (m.before ++ bracketed fresh ++ m.after) f

/-- Each step takes a parenthesis or a sign out of the text. A name that holds brackets may bring
new ones, with which a flattening can go on for ever; for one that ends the bound leaves room. -/
def flattenBound (name : String) (text : List Char) : Nat := (name.length + 2) ^ (text.length + 1)

def flatten? (name : String) (text : List Char) (f : Flattening) :
    Except Fault (List Symbol × Flattening) :=
  match flattenGroups name (flattenBound name text) text f with
  | none => .error .unfinished
  | some (text, f) =>
    match flattenSigns name (flattenBound name text) text f with
    | none => .error .unfinished
    | some (text, f) => .ok (tokens text, f)

def flattenAlternatives (name : String) (f : Flattening) :
    List (List Char × Option Number) → Except Fault (List Expansion × Flattening)
  | [] => .ok ([], f)
  | (text, weight) :: rest => do
    let (symbols, f) ← flatten? name text f
    let e ← Expansion.ofDraft (symbols.map .symbol) weight
    let (later, f) ← flattenAlternatives name f rest
    return (e :: later, f)

def flattenRule (f : Flattening) (p : Pending) : Except Fault Flattening := do
  let (alternatives, f) ← flattenAlternatives p.name f p.alternatives
  return { f with rules := f.rules.extend p.name alternatives }

/-- Works off a queue; what is queued on the way waits for the next round. -/
def drain : Nat → Flattening → Except Fault Flattening
  | 0, f => if f.queue.isEmpty then .ok f else .error .unfinished
  | rounds + 1, f =>
    if f.queue.isEmpty then .ok f
    else do
      let f ← f.queue.foldlM flattenRule { f with queue := [] }
      drain rounds f

/-- A group holds no parentheses, so it queues no further group: two rounds are enough. -/
def rounds : Nat := 2

end GrammarSampler.Dictionary
