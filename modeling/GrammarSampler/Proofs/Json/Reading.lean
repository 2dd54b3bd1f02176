import GrammarSampler.Json.Reader
import GrammarSampler.Proofs.Faults

/-!
What is read from texts. An object lists no name twice, whatever the text: a repeated name keeps its
first place and its last value. Values are compared by a test that can be run.
-/
namespace GrammarSampler.Json

section Objects
variable {fuel : Nat} {cs rest : List Char} {read : List (Json Points)}
  {given members : Entries (Json Points) Points} {found : Json Points}

theorem list_of_items (answered : items fuel read cs = .ok (found, rest)) :
    ∃ all, found = .list all := by
  induction fuel generalizing read cs with
  | zero => cases answered
  | succ fuel ih =>
    unfold items at answered
    split at answered
    · cases answered
    · split at answered
      · exact ih answered
      · cases answered
        exact ⟨_, rfl⟩
      · cases answered

theorem object_of_members (answered : Json.members fuel given cs = .ok (found, rest)) :
    ∃ pairs, found = .object (Entries.ofPairs pairs) := by
  induction fuel generalizing given cs with
  | zero => cases answered
  | succ fuel ih =>
    unfold Json.members at answered
    split at answered
    · split at answered
      · cases answered
      · split at answered
        · split at answered
          · cases answered
          · split at answered
            · exact ih answered
            · cases answered
              exact ⟨_, rfl⟩
            · cases answered
        · cases answered
    · cases answered

theorem scalar_ne_object : scalar cs ≠ .ok (.object members, rest) := by
  intro answered
  have named : ∀ entry ∈ words, entry.2 ≠ .object members := by
    simp [words]
  unfold scalar at answered
  split at answered
  · rename_i whole word
    rw [Except.ok.injEq] at answered
    obtain ⟨⟨name, value⟩, known, dropped⟩ := List.exists_of_findSome?_eq_some word
    obtain ⟨after, -, same⟩ := Option.map_eq_some_iff.mp dropped
    rw [answered] at same
    exact named _ known (congrArg Prod.fst same)
  · split at answered
    · obtain ⟨⟨n, after⟩, -, same⟩ := map_eq_ok_iff.mp answered
      cases same
    · obtain ⟨⟨n, after⟩, -, same⟩ := map_eq_ok_iff.mp answered
      cases same

theorem distinct_of_value (answered : value fuel cs = .ok (.object members, rest)) :
    Entries.Distinct members := by
  cases fuel with
  | zero => cases answered
  | succ fuel =>
    unfold value at answered
    split at answered
    · obtain ⟨⟨text, after⟩, -, same⟩ := map_eq_ok_iff.mp answered
      cases same
    · split at answered
      · cases answered
      · obtain ⟨all, same⟩ := list_of_items answered
        cases same
    · split at answered
      · cases answered
        exact List.nodup_nil
      · obtain ⟨pairs, same⟩ := object_of_members answered
        cases same
        exact Entries.distinct_ofPairs pairs
    · exact absurd answered scalar_ne_object

theorem distinct_of_read? {text : String} (parsed : read? text = .ok (.object members)) :
    Entries.Distinct members := by
  change ((value (2 * text.toList.length + 2) (skip text.toList)).bind fun whole =>
    if (skip whole.2).isEmpty then Except.ok whole.1 else .error .malformed) = _ at parsed
  cases read : value (2 * text.toList.length + 2) (skip text.toList) with
  | error fault =>
    rw [read] at parsed
    cases parsed
  | ok whole =>
    obtain ⟨document, after⟩ := whole
    rw [read] at parsed
    simp only [Except.bind] at parsed
    split at parsed
    · rw [Except.ok.injEq] at parsed
      rw [parsed] at read
      exact distinct_of_value read
    · cases parsed

end Objects

section Comparison
variable {τ ε : Type} [DecidableEq τ]

mutual
def agrees : Json τ → Json τ → Bool
  | .null, .null => true
  | .number n, .number m => decide (n = m)
  | .text s, .text t => decide (s = t)
  | .list items, .list others => agreesAll items others
  | .object members, .object others => agreesMembers members others
  | _, _ => false

def agreesAll : List (Json τ) → List (Json τ) → Bool
  | [], [] => true
  | item :: items, other :: others => agrees item other && agreesAll items others
  | _, _ => false

def agreesMembers : List (τ × Json τ) → List (τ × Json τ) → Bool
  | [], [] => true
  | (key, value) :: members, (other, value') :: others =>
    decide (key = other) && agrees value value' && agreesMembers members others
  | _, _ => false
end

mutual
theorem eq_of_agrees : ∀ {value other : Json τ}, agrees value other = true → value = other
  | .null, .null, _ => rfl
  | .number _, .number _, same => congrArg Json.number (of_decide_eq_true same)
  | .text _, .text _, same => congrArg Json.text (of_decide_eq_true same)
  | .list _, .list _, same => congrArg Json.list (eq_of_agreesAll same)
  | .object _, .object _, same => congrArg Json.object (eq_of_agreesMembers same)

theorem eq_of_agreesAll : ∀ {items others : List (Json τ)},
    agreesAll items others = true → items = others
  | [], [], _ => rfl
  | _ :: _, _ :: _, same => by
    obtain ⟨first, later⟩ := Bool.and_eq_true_iff.mp same
    rw [eq_of_agrees first, eq_of_agreesAll later]

theorem eq_of_agreesMembers : ∀ {members others : List (τ × Json τ)},
    agreesMembers members others = true → members = others
  | [], [], _ => rfl
  | (_, _) :: _, (_, _) :: _, same => by
    obtain ⟨both, later⟩ := Bool.and_eq_true_iff.mp same
    obtain ⟨key, value⟩ := Bool.and_eq_true_iff.mp both
    rw [of_decide_eq_true key, eq_of_agrees value, eq_of_agreesMembers later]
end

theorem eq_ok_of_agrees {answer : Except ε (Json τ)} {value : Json τ}
    (same : (answer.toOption.map fun read => agrees read value) = some true) : answer = .ok value := by
  cases answer with
  | error fault => cases same
  | ok found => exact congrArg Except.ok (eq_of_agrees (Option.some.inj same))

end Comparison

end GrammarSampler.Json
