/-!
Worklists. The items are read from left to right and kept from right to left, so that work at the
left end is cheap. Positions are counted from the right end when negative.
-/
namespace GrammarSampler

structure Worklist (α : Type) where
  backwards : Array α
deriving DecidableEq, Repr

namespace Worklist
variable {α : Type}

def single (a : α) : Worklist α := ⟨#[a]⟩

def toList (w : Worklist α) : List α := w.backwards.toList.reverse

def size (w : Worklist α) : Nat := w.backwards.size

def isEmpty (w : Worklist α) : Bool := w.backwards.isEmpty

/-- The index that a position stands for; a position outside the list has none. -/
def index? (length : Nat) (position : Int) : Option Nat :=
  if 0 ≤ position then
    if position < length then some position.toNat else none
  else if -length ≤ position then some (length + position).toNat
  else none

def get? (w : Worklist α) (position : Int) : Option α :=
  (index? w.size position).bind fun i => w.backwards[w.size - 1 - i]?

def clamp (length : Nat) (edge : Int) : Nat :=
  if edge < 0 then (length + edge).toNat else min edge.toNat length

/-- Puts `new` in the place of the window from `first` to before `last`. A window whose end lies
before its beginning is empty: nothing is removed. -/
def replace (w : Worklist α) (first last : Int) (new : List α) : Worklist α :=
  match w with
  | ⟨xs⟩ =>
    let lo := clamp xs.size first
    let hi := max lo (clamp xs.size last)
    let before := xs.extract (xs.size - lo)
    ⟨xs.shrink (xs.size - hi) ++ new.reverse ++ before⟩

theorem index?_ofNat {length i : Nat} (h : i < length) : index? length (i : Int) = some i := by
  simp [index?, h]

theorem length_toList (w : Worklist α) : w.toList.length = w.size := by simp [toList, size]

theorem index?_ofNat_eq_none {length i : Nat} (h : length ≤ i) : index? length (i : Int) = none := by
  have outside : ¬(i : Int) < length := by omega
  simp [index?, h]

theorem get?_ofNat (w : Worklist α) (i : Nat) : w.get? i = w.toList[i]? := by
  obtain ⟨xs⟩ := w
  by_cases h : i < xs.size
  · simp [get?, size, toList, index?_ofNat h, h]
  · have outside : xs.size ≤ i := by omega
    simp [get?, size, toList, index?_ofNat_eq_none outside, outside]

theorem toList_replace_single (w : Worklist α) (i : Nat) (new : List α) (h : i < w.size) :
    (w.replace i (i + 1) new).toList = w.toList.take i ++ new ++ w.toList.drop (i + 1) := by
  obtain ⟨xs⟩ := w
  have inside : i < xs.size := h
  have first : clamp xs.size (i : Int) = i := by
    rw [clamp, if_neg (by omega)]; omega
  have last : clamp xs.size ((i : Int) + 1) = i + 1 := by
    rw [clamp, if_neg (by omega)]; omega
  simp [replace, toList, first, last, List.take_reverse, List.drop_reverse, List.take_of_length_le]

end Worklist
end GrammarSampler
