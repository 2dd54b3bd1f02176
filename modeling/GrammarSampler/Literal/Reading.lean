import GrammarSampler.Literal.Form
import GrammarSampler.Literal.Quotation
import Std.Data.HashMap

/-!
Readings of tokens. A reading fails where it does not apply, so that another is tried from the same
place, and stops at a fault. Forms that are tried often are kept with the place they begin at.
-/
namespace GrammarSampler.Literal

inductive Category where
  | expression
  | starExpression
  | disjunction
  | conjunction
  | inversion
  | alternation
  | exclusion
  | intersection
  | shift
  | sum
  | term
  | factor
  | awaited
  | primary
  | arguments
  | misassignment
  | starTarget
  | target
  | targetPrimary
  | quoted
deriving DecidableEq, Hashable, Repr

namespace Category

def count : Nat := 24

end Category

/-- How far a reading is. Tokens up to the furthest one were looked at. A diagnosis also tries the
forms that are at fault, to name the fault. -/
structure Progress where
  position : Nat
  furthest : Nat
  diagnosing : Bool
  known : Std.HashMap (Category × Nat) (Option (Form × Nat))

def Progress.start : Progress := ⟨0, 0, false, ∅⟩

def Progress.diagnosed (p : Progress) : Progress := ⟨0, p.furthest, true, ∅⟩

structure Setting where
  source : Source
  check : List Char → Except LiteralFault Unit

def Reading (α : Type) : Type :=
  Setting → Progress → Progress × Except LiteralFault (Option α)

namespace Reading

variable {α β : Type}

instance : Monad Reading where
  pure a := fun _ p => (p, .ok (some a))
  bind r f := fun s p =>
    match r s p with
    | (p, .ok (some a)) => f a s p
    | (p, .ok none) => (p, .ok none)
    | (p, .error fault) => (p, .error fault)

def fail : Reading α := fun _ p => (p, .ok none)

def stop (fault : LiteralFault) : Reading α := fun _ p => (p, .error fault)

def stopAt (fault : ExpressionFault) : Reading α := stop (.expression fault)

def orElse (r next : Reading α) : Reading α := fun s ⟨position, furthest, diagnosing, known⟩ =>
  match r s ⟨position, furthest, diagnosing, known⟩ with
  | (p, .ok none) => next s { p with position }
  | result => result

def choice (rs : List (Reading α)) : Reading α := rs.foldr orElse fail

def optional (r : Reading α) : Reading (Option α) := orElse (some <$> r) (pure none)

def applies (r : Reading α) : Reading Bool := fun s ⟨position, furthest, diagnosing, known⟩ =>
  match r s ⟨position, furthest, diagnosing, known⟩ with
  | (p, .ok a) => ({ p with position }, .ok (some a.isSome))
  | (p, .error fault) => (p, .error fault)

def ahead (r : Reading α) : Reading Unit := do if ← applies r then pure () else fail

def notAhead (r : Reading α) : Reading Unit := do if ← applies r then fail else pure ()

def repeatUpTo (r : Reading α) : Nat → Reading (List α)
  | 0 => pure []
  | fuel + 1 => do
    match ← optional r with
    | some a => return a :: (← repeatUpTo r fuel)
    | none => return []

def many (r : Reading α) : Reading (List α) := fun s p =>
  repeatUpTo r (s.source.tokens.size + 1) s p

def atLeastOne (r : Reading α) : Reading (List α) := do
  let first ← r
  return first :: (← many r)

def peek : Reading Token := fun s p =>
  match s.source.tokens[p.position]? with
  | some token => ({ p with furthest := max p.furthest (p.position + 1) }, .ok (some token))
  | none => (p, s.source.fault.elim (.ok none) fun fault => .error (.token fault))

def advance : Reading Unit := fun _ p => ({ p with position := p.position + 1 }, .ok (some ()))

def accept (ok : Token → Bool) : Reading String := do
  let token ← peek
  if ok token then
    advance
    return token.text
  else fail

def ofKind (kind : Token.Kind) : Reading String := accept fun t => t.kind == kind

def sign (text : String) : Reading Unit := do
  let _ ← accept fun t => t.kind == .sign && t.text == text

def keyword (text : String) : Reading Unit := do
  let _ ← accept fun t => t.kind == .keyword && t.text == text

def signOf (texts : List String) : Reading String :=
  accept fun t => t.kind == .sign && texts.contains t.text

def listed (r : Reading α) : Reading (List α) := do
  let first ← r
  return first :: (← many do sign ","; r)

def diagnosing : Reading Unit := fun _ p => (p, .ok (if p.diagnosing then some () else none))

def diagnosis (r : Reading α) : Reading α := do diagnosing; r

def undiagnosed (r : Reading α) : Reading α := fun s ⟨position, furthest, diagnosing, known⟩ =>
  let (p, result) := r s ⟨position, furthest, false, known⟩
  ({ p with diagnosing }, result)

def depth : Reading Nat := fun s p =>
  (p, .ok (some ((s.source.tokens[p.position - 1]?.map Token.depth).getD 0)))

def checkQuoted (texts : List String) : Reading Unit := fun s p =>
  match texts.map fun text => Quotation.ofText text.toList with
  | [] => (p, .ok none)
  | first :: rest => (p, (first.checkAll s.check (first :: rest)).map some)

def remembered (c : Category) (r : Reading Form) : Reading Form := do
  let _ ← optional peek
  fun s ⟨start, furthest, diagnosing, known⟩ =>
    match known[(c, start)]? with
    | some (some (form, position)) => (⟨position, furthest, diagnosing, known⟩, .ok (some form))
    | some none => (⟨start, furthest, diagnosing, known⟩, .ok none)
    | none =>
      match r s ⟨start, furthest, diagnosing, known⟩ with
      | (⟨position, furthest, diagnosing, known⟩, .ok form?) =>
        let known := known.insert (c, start) (form?.map (·, position))
        (⟨position, furthest, diagnosing, known⟩, .ok form?)
      | (p, .error fault) => (p, .error fault)

end Reading
end GrammarSampler.Literal
