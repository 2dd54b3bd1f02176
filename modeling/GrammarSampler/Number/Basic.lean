import GrammarSampler.Number.ExactValue

/-!
Numbers as a client writes them: whole numbers of any size, binary64 values and truth values,
compared exactly across the three kinds. A truth value counts as 0 or 1.
-/
namespace GrammarSampler

inductive Number where
  | int (value : Int)
  | float (value : Float)
  | truth (value : Bool)
deriving DecidableEq, Repr

inductive NumberFault where
  | tooLargeForFloat
  | infiniteToInteger
  | notANumberToInteger
deriving DecidableEq, Repr

namespace NumberFault

def message : NumberFault → String
  | tooLargeForFloat => "int too large to convert to float"
  | infiniteToInteger => "cannot convert float infinity to integer"
  | notANumberToInteger => "cannot convert float NaN to integer"

end NumberFault

namespace Number

def split : Number → Int ⊕ Float
  | int n => .inl n
  | float x => .inr x
  | truth b => .inl (if b then 1 else 0)

/-- Exact order; nothing is below or above a value that is not a number. -/
def compare? (a b : Number) : Option Ordering :=
  match a.split, b.split with
  | .inl m, .inl n => some (compare m n)
  | .inl m, .inr y => ((ExactValue.ofFloat y).compareInt m).map Ordering.swap
  | .inr x, .inl n => (ExactValue.ofFloat x).compareInt n
  | .inr x, .inr y =>
    if x < y then some .lt else if y < x then some .gt else if x == y then some .eq else none

def lt (a b : Number) : Bool := a.compare? b == some .lt

def le (a b : Number) : Bool := a.lt b || a.compare? b == some .eq

def isPositive (a : Number) : Bool := (int 0).lt a

def reachedBy (a : Number) (count : Nat) : Bool := a.le (int count)

def exceeds (a : Number) (count : Nat) : Bool := (int count).lt a

/-- Whole numbers round to the nearest float and may be too large for any. -/
def toFloat (a : Number) : Except NumberFault Float :=
  match a.split with
  | .inr x => .ok x
  | .inl n =>
    let x := Float.ofInt n
    if (ExactValue.ofFloat x).isFinite then .ok x else .error .tooLargeForFloat

def toInt (a : Number) : Except NumberFault Int :=
  match a.split with
  | .inl n => .ok n
  | .inr x =>
    match ExactValue.ofFloat x with
    | .notANumber => .error .notANumberToInteger
    | .infinite _ => .error .infiniteToInteger
    | value => .ok (value.truncate.getD 0)

@[simp] theorem lt_int (m n : Int) : (int m).lt (int n) = decide (m < n) := by
  simp only [lt, compare?, split]
  rcases Int.lt_trichotomy m n with h | h | h
  · simp [h, compare, compareOfLessAndEq]
  · simp [h, compare, compareOfLessAndEq]
  · have lower : ¬ m < n := by omega
    have apart : m ≠ n := by omega
    simp [lower, apart, compare, compareOfLessAndEq]

@[simp] theorem le_int (m n : Int) : (int m).le (int n) = decide (m ≤ n) := by
  simp only [le, lt_int, compare?, split]
  rcases Int.lt_trichotomy m n with h | h | h
  · simp [h, Int.le_of_lt h]
  · simp [h, compare, compareOfLessAndEq]
  · have lower : ¬ m < n := by omega
    have apart : m ≠ n := by omega
    have above : ¬ m ≤ n := by omega
    simp [lower, apart, above, compare, compareOfLessAndEq]

@[simp] theorem exceeds_int (n : Int) (count : Nat) :
    (int n).exceeds count = decide ((count : Int) < n) := by simp [exceeds]

@[simp] theorem reachedBy_int (n : Int) (count : Nat) :
    (int n).reachedBy count = decide (n ≤ (count : Int)) := by simp [reachedBy]

@[simp] theorem isPositive_int (n : Int) : (int n).isPositive = decide (0 < n) := by
  simp [isPositive]

end Number
end GrammarSampler
