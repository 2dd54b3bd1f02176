import GrammarSampler.Ebnf.Fresh
import Mathlib.Data.List.Perm.Subperm
import Mathlib.Data.List.Nodup
import Std.Data.String.ToNat

/-!
Fresh names are free: the candidates for a hint all differ, so that among one more of them than
there are names taken one is not taken.
-/
namespace GrammarSampler.Fresh

theorem candidate_succ (hint : String) (k : Nat) :
    candidate hint (k + 1) = hint ++ "-" ++ toString (k + 1) := rfl

theorem toList_candidate_succ (hint : String) (k : Nat) :
    (candidate hint (k + 1)).toList = hint.toList ++ '-' :: Nat.toDigits 10 (k + 1) := by
  have digits : (toString (k + 1)).toList = Nat.toDigits 10 (k + 1) := String.toList_ofList
  rw [candidate_succ, String.toList_append, String.toList_append, digits]
  simp

theorem candidate_injective (hint : String) : Function.Injective (candidate hint) := by
  have apart : ∀ k, hint ≠ candidate hint (k + 1) := by
    intro k same
    have lengths := congrArg (fun s => s.toList.length) same
    rw [candidate_succ] at lengths
    simp at lengths
  intro j k same
  cases j with
  | zero =>
    cases k with
    | zero => rfl
    | succ k => exact absurd same (apart k)
  | succ j =>
    cases k with
    | zero => exact absurd same.symm (apart j)
    | succ k =>
      rw [candidate_succ, candidate_succ] at same
      have numbers : (toString (j + 1)).toList = (toString (k + 1)).toList := by
        have lists := congrArg String.toList same
        simp only [String.toList_append] at lists
        exact List.append_cancel_left lists
      exact Nat.repr_injective (String.toList_inj.mp numbers)

theorem candidate_succ_inj {hint other : String} {j k : Nat}
    (same : candidate hint (j + 1) = candidate other (k + 1)) : hint = other ∧ j = k := by
  have digits : ∀ n : Nat, '-' ∉ Nat.toDigits 10 n := by
    intro n inside
    have decimal : '-'.isDigit = true := Nat.isDigit_of_mem_toDigits (by decide) (by decide) inside
    cases decimal
  have spelling := congrArg String.toList same
  rw [toList_candidate_succ, toList_candidate_succ, List.append_eq_append_iff] at spelling
  have hints : hint = other := by
    apply String.toList_inj.mp
    rcases spelling with ⟨between, whole, rest⟩ | ⟨between, whole, rest⟩
    · cases between with
      | nil => simpa using whole.symm
      | cons c between =>
        injection rest with first rest
        exact absurd (rest ▸ List.mem_append_right _ List.mem_cons_self) (digits (j + 1))
    · cases between with
      | nil => simpa using whole
      | cons c between =>
        injection rest with first rest
        exact absurd (rest ▸ List.mem_append_right _ List.mem_cons_self) (digits (k + 1))
  subst hints
  exact ⟨rfl, Nat.succ.inj (candidate_injective hint same)⟩

theorem exists_free (taken : List String) (hint : String) (first : Nat) :
    ∃ k ∈ List.range' first (taken.length + 1), candidate hint k ∉ taken := by
  -- Otherwise more distinct candidates than there are taken names would all be taken.
  by_contra all
  have inside : (List.range' first (taken.length + 1)).map (candidate hint) ⊆ taken := by
    intro name listed
    obtain ⟨k, place, rfl⟩ := List.mem_map.mp listed
    by_contra free
    exact all ⟨k, place, free⟩
  have distinct : ((List.range' first (taken.length + 1)).map (candidate hint)).Nodup :=
    List.Nodup.map (candidate_injective hint) List.nodup_range'
  have few := (List.Nodup.subperm distinct inside).length_le
  rw [List.length_map, List.length_range'] at few
  omega

theorem exists_first (taken : List String) (hint : String) :
    ∃ k, name taken hint = candidate hint k ∧ candidate hint k ∉ taken ∧
      ∀ j < k, candidate hint j ∈ taken := by
  obtain ⟨k, place, free⟩ := exists_free taken hint (passed taken hint)
  unfold name
  cases found : (List.range' (passed taken hint) (taken.length + 1)).findSome? fun k =>
      if candidate hint k ∈ taken then none else some (candidate hint k) with
  | none =>
    have none := List.findSome?_eq_none_iff.mp found k place
    rw [if_neg free] at none
    cases none
  | some c =>
    obtain ⟨before, j, after, parts, chosen, passes⟩ := List.findSome?_eq_some_iff.mp found
    obtain ⟨count, -, rfl, rest⟩ := List.range'_eq_append_iff.mp parts
    have number : passed taken hint + 1 * count = j := by
      simpa using (List.range'_eq_cons_iff.mp rest.symm).1
    split at chosen
    · cases chosen
    · rename_i open_
      cases chosen
      refine ⟨j, rfl, open_, ?_⟩
      intro i below
      by_cases early : i < passed taken hint
      · exact candidate_mem_of_lt_passed taken hint i early
      · by_contra free
        have none := passes i (List.mem_range'_1.mpr (by omega))
        rw [if_neg free] at none
        cases none

theorem exists_candidate (taken : List String) (hint : String) :
    ∃ k, candidate hint k ∉ taken ∧ name taken hint = candidate hint k := by
  obtain ⟨k, same, free, -⟩ := exists_first taken hint
  exact ⟨k, free, same⟩

theorem exists_numbered {taken : List String} {hint : String} (known : hint ∈ taken) :
    ∃ k, name taken hint = candidate hint (k + 1) := by
  obtain ⟨k, free, same⟩ := exists_candidate taken hint
  cases k with
  | zero => exact absurd known free
  | succ k => exact ⟨k, same⟩

theorem exists_toList_name (taken : List String) (hint : String) :
    ∃ more, (name taken hint).toList = hint.toList ++ more := by
  obtain ⟨k, -, same⟩ := exists_candidate taken hint
  rw [same]
  cases k with
  | zero => exact ⟨[], (List.append_nil _).symm⟩
  | succ k => exact ⟨_, toList_candidate_succ hint k⟩

theorem name_notMem (taken : List String) (hint : String) : name taken hint ∉ taken := by
  obtain ⟨k, free, same⟩ := exists_candidate taken hint
  rwa [same]

end GrammarSampler.Fresh
