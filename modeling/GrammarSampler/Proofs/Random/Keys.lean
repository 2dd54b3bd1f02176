import GrammarSampler.Generation.Batch
import Mathlib

/-!
Keys of seeds. A key holds the words of the absolute value of a seed, so that two seeds have one key
exactly if they are equal or opposite. The seeds of a batch follow one another: those of a batch that
begins below zero pass zero, and then the items before it and behind it meet in pairs.
-/
namespace GrammarSampler

namespace Twister

/-- The words of a whole number without its sign, lowest first; zero has one word. -/
def wordsOf (seed : Int) : List Nat :=
  if seed = 0 then [0] else Nat.digits UInt32.size seed.natAbs

theorem toNat_digits (fuel n : Nat) (enough : n < 2 ^ fuel) :
    (digits fuel n).map UInt32.toNat = Nat.digits UInt32.size n := by
  induction fuel generalizing n with
  | zero =>
    have none : n = 0 := by simpa using enough
    simp [digits, none]
  | succ fuel ih =>
    by_cases zero : n = 0
    · simp [digits, zero]
    · have rest : n / UInt32.size < 2 ^ fuel := by
        have half : n / 2 < 2 ^ fuel := by omega
        have less : n / UInt32.size ≤ n / 2 := Nat.div_le_div_left (by decide) (by decide)
        omega
      rw [digits, if_neg zero, List.map_cons,
        Nat.digits_def' (by decide) (Nat.pos_of_ne_zero zero), ← ih _ rest]
      rfl

theorem toNat_keyOf (seed : Int) : (keyOf seed).map UInt32.toNat = wordsOf seed := by
  have enough : seed.natAbs < 2 ^ (seed.natAbs + 1).log2.succ := by
    have next : seed.natAbs + 1 < 2 ^ (seed.natAbs + 1).log2.succ := Nat.lt_log2_self
    omega
  have words := toNat_digits _ _ enough
  unfold keyOf wordsOf
  by_cases zero : seed = 0
  · subst zero
    rfl
  · rw [if_neg zero, ← words]
    cases found : digits (seed.natAbs + 1).log2.succ seed.natAbs with
    | nil =>
      rw [found] at words
      have none : seed.natAbs = 0 := Nat.digits_eq_nil_iff_eq_zero.mp words.symm
      omega
    | cons first rest => rfl

theorem wordsOf_inj {a b : Int} : wordsOf a = wordsOf b ↔ a = b ∨ a = -b := by
  have parts : ∀ n : Nat, n ≠ 0 → Nat.digits UInt32.size n ≠ [0] := by
    intro n positive same
    have last := Nat.getLast_digit_ne_zero UInt32.size positive
    simp [same] at last
  rw [← Int.natAbs_eq_natAbs_iff]
  unfold wordsOf
  by_cases first : a = 0
  · by_cases second : b = 0
    · simp [first, second]
    · have other := parts b.natAbs (by omega)
      simp [first, second, other.symm, eq_comm]
  · by_cases second : b = 0
    · have other := parts a.natAbs (by omega)
      simp [first, second, other]
    · simp [first, second, Nat.digits_inj_iff]

theorem keyOf_inj {a b : Int} : keyOf a = keyOf b ↔ a = b ∨ a = -b := by
  rw [← wordsOf_inj, ← toNat_keyOf, ← toNat_keyOf]
  exact (List.map_injective_iff.mpr fun _ _ => UInt32.toNat_inj.mp).eq_iff.symm

end Twister

open Twister

theorem Source.ofBatch_some (seed index : Int) : ofBatch (some seed) index =
    some ⟨.twister (.ofKey (keyOf (seed + index)).toArray), 0⟩ := rfl

/-- The source of an item is keyed with the words of its seed. Two items have one key exactly if
their seeds are opposite, which needs a batch that begins below zero; all their draws and texts are
then the same. -/
theorem Source.batch_keys (seed : Int) {i j : Nat} (apart : i ≠ j) :
    ∃ first second : List UInt32,
      ofBatch (some seed) i = some ⟨.twister (.ofKey first.toArray), 0⟩ ∧
      ofBatch (some seed) j = some ⟨.twister (.ofKey second.toArray), 0⟩ ∧
      first.map UInt32.toNat = wordsOf (seed + i) ∧ second.map UInt32.toNat = wordsOf (seed + j) ∧
      (first = second ↔ seed + i = -(seed + j)) ∧ (0 ≤ seed → first ≠ second) ∧
      (first = second → ∀ (g : Grammar) (s : Settings) (shared : Source),
        Batch.text g s (some seed) i shared = Batch.text g s (some seed) j shared) := by
  have meet : keyOf (seed + i) = keyOf (seed + j) ↔ seed + i = -(seed + j) := by
    rw [keyOf_inj]
    omega
  refine ⟨keyOf (seed + i), keyOf (seed + j), ofBatch_some seed i, ofBatch_some seed j,
    toNat_keyOf _, toNat_keyOf _, meet, ?_, ?_⟩
  · intro nonneg same
    have opposite := meet.mp same
    omega
  · intro same g s shared
    have source : ofBatch (some seed) i = ofBatch (some seed) j := by
      rw [ofBatch_some, ofBatch_some, same]
    unfold Batch.text
    rw [source]

theorem Source.batch_keys_third : (0 : Nat) ≠ 2 ∧ ∃ first second : List UInt32,
    ofBatch (some 7) (0 : Nat) = some ⟨.twister (.ofKey first.toArray), 0⟩ ∧
    ofBatch (some 7) (2 : Nat) = some ⟨.twister (.ofKey second.toArray), 0⟩ ∧ first ≠ second := by
  obtain ⟨first, second, one, other, -, -, -, distinct, -⟩ :=
    Source.batch_keys 7 (by decide : (0 : Nat) ≠ 2)
  exact ⟨by decide, first, second, one, other, distinct (by decide)⟩

/-- The first and the third item of a batch that begins at minus one. -/
theorem Source.batch_keys_meet : (0 : Nat) ≠ 2 ∧ ∃ key : List UInt32,
    ofBatch (some (-1)) (0 : Nat) = some ⟨.twister (.ofKey key.toArray), 0⟩ ∧
    ofBatch (some (-1)) (2 : Nat) = some ⟨.twister (.ofKey key.toArray), 0⟩ := by
  have same : keyOf (-1 + (2 : Nat)) = keyOf (-1 + (0 : Nat)) := keyOf_inj.mpr (by omega)
  refine ⟨by decide, keyOf (-1 + (0 : Nat)), ofBatch_some (-1) (0 : Nat), ?_⟩
  rw [ofBatch_some, same]

end GrammarSampler
