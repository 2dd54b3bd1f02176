/-!
Texts by their code points. A surrogate alone is no character and has no bytes in UTF-8, but a text
read from escapes may hold one.
-/
namespace GrammarSampler

inductive CodePoint where
  | char (c : Char)
  | surrogate (index : Fin 0x800)
deriving DecidableEq, Repr

namespace CodePoint

def surrogateNumber (index : Fin 0x800) : Nat := 0xD800 + index

def ofNat (n : Nat) : CodePoint :=
  if inside : 0xD800 ≤ n ∧ n < 0xE000 then .surrogate ⟨n - 0xD800, by omega⟩ else .char (Char.ofNat n)

def shown : CodePoint → Char
  | char c => c
  | surrogate _ => '\uFFFD'

def isSurrogate : CodePoint → Bool
  | char _ => false
  | surrogate _ => true

end CodePoint

abbrev Points := List CodePoint

/-- Why a text has no bytes: the place, the first and the number of the surrogates it comes to first. -/
structure EncodingFault where
  position : Nat
  surrogate : Fin 0x800
  count : Nat
deriving DecidableEq, Repr

namespace Points

def ofText (s : String) : Points := s.toList.map .char

def shown (ps : Points) : String := String.ofList (ps.map CodePoint.shown)

def encodingFault? (position : Nat) : Points → Option EncodingFault
  | [] => none
  | .char _ :: rest => encodingFault? (position + 1) rest
  | .surrogate index :: rest =>
    some ⟨position, index, (rest.takeWhile CodePoint.isSurrogate).length + 1⟩

def toUTF8? (ps : Points) : Except EncodingFault ByteArray :=
  match encodingFault? 0 ps with
  | some fault => .error fault
  | none => .ok ps.shown.toUTF8

/-- The fault points to the first surrogate and counts the ones that stand there in a row. -/
theorem encodingFault?_eq_some_iff {position : Nat} {ps : Points} {fault : EncodingFault} :
    encodingFault? position ps = some fault ↔
      ∃ (before : List Char) (index : Fin 0x800) (rest : Points),
        ps = before.map .char ++ .surrogate index :: rest ∧
          fault = ⟨position + before.length, index,
            (rest.takeWhile CodePoint.isSurrogate).length + 1⟩ := by
  induction ps generalizing position with
  | nil => simp [encodingFault?]
  | cons p ps ih =>
    cases p with
    | surrogate index =>
      constructor
      · intro found
        exact ⟨[], index, ps, rfl, (Option.some.inj found).symm⟩
      · rintro ⟨before, first, rest, same, rfl⟩
        cases before with
        | nil =>
          cases same
          rfl
        | cons c before => cases same
    | char c =>
      change encodingFault? (position + 1) ps = some fault ↔ _
      rw [ih]
      constructor
      · rintro ⟨before, index, rest, rfl, rfl⟩
        refine ⟨c :: before, index, rest, rfl, ?_⟩
        rw [List.length_cons, Nat.add_right_comm, Nat.add_assoc]
      · rintro ⟨before, index, rest, same, rfl⟩
        cases before with
        | nil => cases same
        | cons d before =>
          obtain ⟨-, same⟩ := List.cons.inj same
          refine ⟨before, index, rest, same, ?_⟩
          rw [List.length_cons, Nat.add_right_comm, Nat.add_assoc]

theorem toUTF8?_eq_error_iff {ps : Points} {fault : EncodingFault} :
    ps.toUTF8? = .error fault ↔ ∃ (before : List Char) (index : Fin 0x800) (rest : Points),
      ps = before.map .char ++ .surrogate index :: rest ∧
        fault = ⟨before.length, index, (rest.takeWhile CodePoint.isSurrogate).length + 1⟩ := by
  have searched : ps.toUTF8? = .error fault ↔ encodingFault? 0 ps = some fault := by
    unfold toUTF8?
    cases encodingFault? 0 ps <;> simp
  rw [searched, encodingFault?_eq_some_iff]
  simp only [Nat.zero_add]

end Points

/-- Spellings of texts by code points, which may be lossy on the way back. -/
class Spelling (τ : Type) where
  points : τ → Points
  ofPoints : Points → τ

instance : Spelling String := ⟨Points.ofText, Points.shown⟩

instance : Spelling Points := ⟨id, id⟩

end GrammarSampler
